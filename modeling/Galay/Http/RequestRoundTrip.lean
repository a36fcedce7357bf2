import Galay.Http.RequestParsed

/-!
# A request header there and back

A header that has been parsed is written and parsed again.
-/

namespace Galay.Http.HttpRequestHeader

open List
open Lib (feed)

variable {header again : HttpRequestHeader}

/-! ## The request line -/

/-- A delimiter of the request line. -/
def isGap (c : UInt8) : Bool := c == SP || c == CR || c == LF

theorem isGap_eq_false : isGap c = false ↔ c ≠ SP ∧ c ≠ CR ∧ c ≠ LF := by
  simp only [isGap, Bool.or_eq_false_iff, beq_eq_false_iff_ne, ne_eq, and_assoc]

theorem upperHexDigit_gap (h : digit < 16) : isGap (upperHexDigit digit) = false := by
  have hall : ∀ digit : Fin 16, isGap (upperHexDigit digit) = false := by decide
  exact hall ⟨digit, h⟩

theorem convertToUriChar_gap (c : UInt8) : ∀ d ∈ convertToUriChar c, isGap d = false := by
  rcases convertToUriChar_cases c with hescape | hself
  · have hlt : c.toNat < 256 := UInt8.toNat_lt c
    rw [hescape]
    intro d hmem
    rcases List.mem_cons.1 hmem with rfl | hmem
    · rfl
    rcases List.mem_cons.1 hmem with rfl | hmem
    · exact upperHexDigit_gap (by omega)
    rw [List.mem_singleton.1 hmem]
    exact upperHexDigit_gap (by omega)
  -- A delimiter is always escaped.
  intro d hmem
  rw [hself, mem_singleton] at hmem
  subst hmem
  rw [isGap_eq_false]
  refine ⟨?_, ?_, ?_⟩ <;>
  · rintro rfl
    cases hself

theorem convertToUri_gap (url : Bytes) : ∀ d ∈ convertToUri url, isGap d = false := by
  intro d hmem
  obtain ⟨c, -, hd⟩ := List.mem_flatMap.1 hmem
  exact convertToUriChar_gap c d hd

theorem convertToUri_ne_nil {url : Bytes} (h : url ≠ []) : convertToUri url ≠ [] := by
  cases url with
  | nil => exact absurd rfl h
  | cons c url =>
  rw [convertToUri_cons]
  apply append_ne_nil_of_left_ne_nil
  rcases convertToUriChar_cases c with hescape | hself
  · rw [hescape]
    exact cons_ne_nil _ _
  rw [hself]
  exact cons_ne_nil _ _

theorem httpMethodToString_gap (method : HttpMethod) :
    ∀ d ∈ httpMethodToString method, isGap d = false := by
  cases method <;> decide +kernel

theorem stringToHttpMethod_httpMethodToString (method : HttpMethod) :
    stringToHttpMethod (httpMethodToString method) = method := by
  cases method <;> decide +kernel

/-- The limits of a parser are off. -/
def NoLimits (header : HttpRequestHeader) : Prop :=
  header.maxHeaderCount = 0 ∧ header.maxHeaderLineSize = 0 ∧ header.maxUriSize = 0

theorem uriTooLong_eq_false (h : header.maxUriSize = 0) : header.uriTooLong = false := by
  rw [uriTooLong, h]
  rfl

theorem feed_method (B : Blank again) (method : HttpMethod) :
    feed (react parseChar) again (httpMethodToString method ++ [SP]) = .more { again with
      parseMethodStr := httpMethodToString method, method, parseState := .MethodSP } := by
  let collected (word : Bytes) : HttpRequestHeader :=
    { again with parseMethodStr := word, parseState := .Method }
  have hreact (word : Bytes) (c : UInt8) (hc : (!isGap c) = true) :
      react parseChar (collected word) c = .next (collected (word ++ [c])) := by
    rw [Bool.not_eq_true', isGap_eq_false] at hc
    apply react_next
    simp only [parseChar, collected, charMethod, hc.1, hc.2.1, hc.2.2, or_self, if_false]
  have hall : ∀ c ∈ httpMethodToString method, (!isGap c) = true := by
    intro c hmem
    rw [httpMethodToString_gap method c hmem]
    rfl
  have hstart : again = collected [] := by simp only [collected, ← B.state, ← B.method]
  have hcollect := Lib.feed_collect hreact hall []
  rw [← hstart, nil_append] at hcollect
  have hspace : react parseChar (collected (httpMethodToString method)) SP = .next { again with
      parseMethodStr := httpMethodToString method, method, parseState := .MethodSP } := by
    apply react_next
    simp only [parseChar, collected, charMethod, if_true, stringToHttpMethod_httpMethodToString]
  rw [Lib.feed_append_of_more hcollect, Lib.feed_next hspace]
  rfl

theorem feed_uriText (hst : header.parseState = .MethodSP) (htarget : header.parseUriStr = [])
    (hlimit : header.maxUriSize = 0) {text : Bytes} (htext : text ≠ [])
    (hgap : ∀ d ∈ text, isGap d = false) :
    feed (react parseChar) header text =
      .more { header with parseUriStr := text, parseState := .Uri } := by
  obtain ⟨c, text, rfl⟩ := exists_cons_of_ne_nil htext
  have hc := isGap_eq_false.1 (hgap c (mem_cons_self ..))
  let collected (word : Bytes) : HttpRequestHeader :=
    { header with parseUriStr := word, parseState := .Uri }
  have hfirst : react parseChar header c = .next (collected [c]) := by
    apply react_next
    have hlong := @uriTooLong_eq_false
      { header with parseUriStr := [] ++ [c], parseState := .MethodSP } hlimit
    simp only [parseChar, hst, charMethodSP, hc.1, hc.2.1, hc.2.2, or_self, if_false, htarget,
      hlong, Bool.false_eq_true, collected]
    rfl
  have hreact (word : Bytes) (d : UInt8) (hd : (!isGap d) = true) :
      react parseChar (collected word) d = .next (collected (word ++ [d])) := by
    rw [Bool.not_eq_true', isGap_eq_false] at hd
    apply react_next
    have hlong := @uriTooLong_eq_false (collected (word ++ [d])) hlimit
    simp only [collected] at hlong
    simp only [parseChar, collected, charUri, hd.1, hd.2.1, hd.2.2, or_self, if_false, hlong,
      Bool.false_eq_true]
  have hall : ∀ d ∈ text, (!isGap d) = true := by
    intro d hmem
    rw [hgap d (mem_cons_of_mem _ hmem)]
    rfl
  rw [Lib.feed_next hfirst, Lib.feed_collect hreact hall]
  rfl

theorem feed_version (hst : header.parseState = .UriSP) (hempty : header.parseVersionStr = [])
    {version : HttpVersion} (hver : version = .HttpVersion_1_0 ∨ version = .HttpVersion_1_1) :
    feed (react parseChar) header (httpVersionToString version ++ [CR, LF]) = .more { header with
      parseVersionStr := httpVersionToString version, version, parseState := .VersionLF } := by
  let collected (word : Bytes) : HttpRequestHeader :=
    { header with parseVersionStr := word, parseState := .Version }
  have hfirst : react parseChar header 0x48 = .next (collected [0x48]) := by
    apply react_next
    have hchar : ¬ ((0x48 : UInt8) = SP) ∧ ¬ ((0x48 : UInt8) = CR ∨ (0x48 : UInt8) = LF) := by decide
    simp only [parseChar, hst, charUriSP, hchar.1, hchar.2, if_false, hempty, collected]
    rfl
  have hreact (word : Bytes) (d : UInt8) (hd : (!isGap d) = true) :
      react parseChar (collected word) d = .next (collected (word ++ [d])) := by
    rw [Bool.not_eq_true', isGap_eq_false] at hd
    apply react_next
    simp only [parseChar, collected, charVersion, hd.2.1, hd.2.2, if_false]
  have hword (rest : Bytes) (hall : ∀ d ∈ rest, (!isGap d) = true) :
      feed (react parseChar) header (0x48 :: rest) = .more (collected (0x48 :: rest)) := by
    rw [Lib.feed_next hfirst, Lib.feed_collect hreact hall]
    rfl
  have hend : react parseChar (collected (httpVersionToString version)) CR = .next { header with
      parseVersionStr := httpVersionToString version, version, parseState := .VersionCR } := by
    apply react_next
    rcases hver with rfl | rfl <;> rfl
  have hlf : react parseChar { header with
      parseVersionStr := httpVersionToString version, version, parseState := .VersionCR } LF =
      .next { header with
        parseVersionStr := httpVersionToString version, version, parseState := .VersionLF } :=
    react_next rfl
  have hcollected : feed (react parseChar) header (httpVersionToString version) =
      .more (collected (httpVersionToString version)) := by
    rcases hver with rfl | rfl
    · exact hword (ascii "TTP/1.0") (by decide +kernel)
    exact hword (ascii "TTP/1.1") (by decide +kernel)
  rw [Lib.feed_append_of_more hcollected, Lib.feed_next hend, Lib.feed_next hlf]
  rfl

/-- The request line of a header. -/
def requestLine (header : HttpRequestHeader) : Bytes :=
  (httpMethodToString header.method ++ [SP]) ++
    (convertToUri (uriString header.uri header.argList) ++
      ([SP] ++ (httpVersionToString header.version ++ [CR, LF])))

theorem toString_eq (header : HttpRequestHeader) :
    header.toString = header.requestLine ++ headerLines (fieldLines header.headerPairs) := by
  rw [toString, appendTo_eq_headerLines, requestLine]
  simp only [append_assoc]

/-- A header whose request line has been parsed. -/
structure AfterLine (header again next : HttpRequestHeader) (fullUri : Bytes) : Prop
    extends AtLine next where
  atVersion : next.parseState = .VersionLF
  method : next.method = header.method
  version : next.version = header.version
  uri : next.uri = (splitTarget fullUri).1
  argList : next.argList = (splitTarget fullUri).2
  fields : next.headerPairs = again.headerPairs
  seen : next.hasContentLength = false

section

variable (B : Blank again) (hlimits : NoLimits again)
  (hver : header.version = .HttpVersion_1_0 ∨ header.version = .HttpVersion_1_1)
  (hstring : uriString header.uri header.argList ≠ [])
include B hlimits hver hstring

theorem feed_requestLine (hreread : reread (uriString header.uri header.argList) = some fullUri) :
    ∃ next, feed (react parseChar) again header.requestLine = .more next ∧
      AfterLine header again next fullUri := by
  have hmethod := feed_method B header.method
  have huri := @feed_uriText { again with
    parseMethodStr := httpMethodToString header.method, method := header.method,
    parseState := .MethodSP } rfl B.target hlimits.2.2 _ (convertToUri_ne_nil hstring)
    (convertToUri_gap _)
  let parsed : HttpRequestHeader := { again with
    parseMethodStr := httpMethodToString header.method
    method := header.method
    parseUriStr := convertToUri (uriString header.uri header.argList)
    uri := (splitTarget fullUri).1
    argList := (splitTarget fullUri).2
    uriDecodeError := false
    parseState := .UriSP }
  have hspace : react parseChar { again with
      parseMethodStr := httpMethodToString header.method
      method := header.method
      parseUriStr := convertToUri (uriString header.uri header.argList)
      parseState := .Uri } SP = .next parsed := by
    apply react_next
    exact finishUri_eq B.uri B.argList hreread
  have hline := @feed_version parsed rfl B.version header.version hver
  refine ⟨{ parsed with
    parseVersionStr := httpVersionToString header.version
    version := header.version
    parseState := .VersionLF }, ?_, ?_⟩
  · rw [requestLine, Lib.feed_append_of_more hmethod, Lib.feed_append_of_more huri,
      singleton_append, Lib.feed_next hspace, hline]
    rfl
  exact ⟨⟨.inl rfl, B.key, B.value, hlimits.1, hlimits.2.1⟩, rfl, rfl, rfl, rfl, rfl, rfl, B.seen⟩

omit hver in
theorem feed_badTarget (hreread : reread (uriString header.uri header.argList) = none) :
    ∃ err, feed (react parseChar) again header.requestLine = .failed err := by
  have hmethod := feed_method B header.method
  have huri := @feed_uriText { again with
    parseMethodStr := httpMethodToString header.method, method := header.method,
    parseState := .MethodSP } rfl B.target hlimits.2.2 _ (convertToUri_ne_nil hstring)
    (convertToUri_gap _)
  have hspace : react parseChar { again with
      parseMethodStr := httpMethodToString header.method
      method := header.method
      parseUriStr := convertToUri (uriString header.uri header.argList)
      parseState := .Uri } SP = .fail .kUriEncodeError := by
    have hnone : convertFromUri false (convertToUri (uriString header.uri header.argList)) = none :=
      hreread
    simp only [react, parseChar, charUri, if_true, finishUri, hnone]
    rfl
  refine ⟨.kUriEncodeError, ?_⟩
  rw [requestLine, Lib.feed_append_of_more hmethod, Lib.feed_append_of_more huri,
    singleton_append, Lib.feed_fail hspace]
  rfl

end

/-! ## The whole header -/

/-- What a header holds is the same. -/
structure SameRequest (header parsed : HttpRequestHeader) : Prop where
  method : parsed.method = header.method
  version : parsed.version = header.version
  uri : parsed.uri = header.uri
  argList : ∀ key, parsed.argList.lookup key = header.argList.lookup key
  fields : SameFields header.headerPairs parsed.headerPairs
  text : parsed.toString = header.toString

/-- Both parsers read what a header writes as the header, into any header that nothing was parsed
into and however the text is cut. -/
def RoundTrips (header : HttpRequestHeader) : Prop :=
  ∀ again, Blank again → NoLimits again →
    again.headerPairs.mode = header.headerPairs.mode →
    (∃ parsed, again.fromString header.toString =
        ((.kNoError, (header.toString.length : Int)), parsed) ∧ SameRequest header parsed) ∧
      ∀ iovecs : IoVecs, iovecs.flatten = header.toString →
        ∃ parsed, again.fromIOVec iovecs =
          ((.kNoError, (header.toString.length : Int)), parsed) ∧ SameRequest header parsed

/-- A header without what is lost. -/
structure RoundTripOk (header : HttpRequestHeader) : Prop where
  target : TargetOk header.uri header.argList
  first : ∀ pair ∈ (fieldLines header.headerPairs).head?, pair.1.head? ≠ some LF
  length : ∀ pair ∈ fieldLines header.headerPairs, pair.1 = ascii "content-length" →
    (parseSizeTStrict pair.2).isSome

theorem uriString_ne_nil {uri : Bytes} {argList : StringMap} (h : uri ≠ []) :
    uriString uri argList ≠ [] := by
  rw [uriString]
  split
  · exact h
  exact append_ne_nil_of_left_ne_nil h _

theorem splitTarget_ne_nil {fullUri : Bytes} (h : fullUri ≠ []) : (splitTarget fullUri).1 ≠ [] := by
  rcases target_cases fullUri with hnot | ⟨args, rfl⟩ | ⟨uri, args, hnot, huri, rfl⟩
  · rw [splitTarget_path hnot]
    exact h
  · rw [splitTarget_mark]
    exact cons_ne_nil _ _
  rw [splitTarget_append hnot huri]
  exact huri

theorem toString_congr {parsed : HttpRequestHeader} (hmethod : parsed.method = header.method)
    (hver : parsed.version = header.version) (huri : parsed.uri = header.uri)
    (hargs : ∀ key, parsed.argList.lookup key = header.argList.lookup key)
    (hfields : SameFields header.headerPairs parsed.headerPairs) :
    parsed.toString = header.toString := by
  have hpairs := StringMap.pairs_congr hargs
  have hents : parsed.argList.entries = [] ↔ header.argList.entries = [] := by
    constructor
    · intro h
      by_contra hne
      exact pairs_ne_nil hne (hpairs ▸ pairs_eq_nil h)
    intro h
    by_contra hne
    exact pairs_ne_nil hne (hpairs.symm ▸ pairs_eq_nil h)
  have hstring : uriString parsed.uri parsed.argList = uriString header.uri header.argList := by
    rw [uriString, uriString, huri, hpairs]
    simp only [hents]
  rw [toString_eq, toString_eq, requestLine, requestLine, hmethod, hver, hstring,
    hfields.fieldLines_eq]

section

variable (P : Parsing header) (hdone : header.parseState = .Done) (B : Blank again)
  (hlimits : NoLimits again) (hmode : again.headerPairs.mode = header.headerPairs.mode)
include P hdone B hlimits hmode

/-- The text of a header is read as it was, or the target is not the same, or it is refused. -/
theorem feed_toString :
    (RoundTripOk header → ∃ parsed, feed (react parseChar) again header.toString =
        .stopped parsed header.toString.length ∧ SameRequest header parsed) ∧
      ∀ parsed n, feed (react parseChar) again header.toString = .stopped parsed n →
        SameRequest header parsed → RoundTripOk header := by
  have hph := P.phase
  rw [PhaseOk, hdone] at hph
  obtain ⟨⟨⟨fullUri, hne, huri, hargs⟩, hver⟩, -⟩ := hph
  have htarget := target_comes_back_iff hne
  rw [← huri, ← hargs] at htarget
  have hstring : uriString header.uri header.argList ≠ [] := by
    rw [huri]
    exact uriString_ne_nil (splitTarget_ne_nil hne)
  have hready {next : HttpRequestHeader} {full : Bytes} (A : AfterLine header again next full) :
      Ready next (fieldLines header.headerPairs) := by
    refine ⟨A.toAtLine, ?_, P.fields.toTidy.nodup_fieldLines, fun _ => A.seen⟩
    rintro ⟨key, value⟩ hmem
    rw [A.fields, hmode]
    exact P.fields.pairOk key value (P.fields.toTidy.mem_fieldLines.1 hmem)
  have hfinal {next final : HttpRequestHeader} {full : Bytes} (A : AfterLine header again next full)
      (hsame : (splitTarget full).1 = header.uri)
      (hlook : ∀ key, (splitTarget full).2.lookup key = header.argList.lookup key)
      (hkeep : KeepsLine next final)
      (hsto : final.headerPairs =
        (fieldLines header.headerPairs).foldl storePair next.headerPairs) :
      SameRequest header final := by
    have hfields : SameFields header.headerPairs final.headerPairs := by
      rw [hsto, A.fields, B.fields, hmode]
      exact P.fields.comes_back
    have hmethod := hkeep.method.trans A.method
    have hver := hkeep.version.trans A.version
    have huri := (hkeep.uri.trans A.uri).trans hsame
    have hargs : ∀ key, final.argList.lookup key = header.argList.lookup key := by
      intro key
      rw [hkeep.argList, A.argList]
      exact hlook key
    exact ⟨hmethod, hver, huri, hargs, hfields, toString_congr hmethod hver huri hargs hfields⟩
  constructor
  · intro hok
    obtain ⟨full, hreread, hsame, hlook⟩ := htarget.2 hok.target
    obtain ⟨next, hline, A⟩ := feed_requestLine B hlimits hver hstring hreread
    obtain ⟨final, hlines, hkeep, hsto⟩ :=
      feed_headerLines (hready A) ⟨fun _ => hok.first, hok.length⟩
    refine ⟨final, ?_, hfinal A hsame hlook hkeep hsto⟩
    rw [toString_eq, Lib.feed_append_of_more hline, hlines, length_append]
    rfl
  intro parsed n hfeed hsame
  rw [toString_eq] at hfeed
  cases hreread : reread (uriString header.uri header.argList) with
  | none =>
    obtain ⟨err, hline⟩ := feed_badTarget B hlimits hstring hreread
    rw [Lib.feed_append_of_failed hline] at hfeed
    cases hfeed
  | some full =>
  obtain ⟨next, hline, A⟩ := feed_requestLine B hlimits hver hstring hreread
  rw [Lib.feed_append_of_more hline] at hfeed
  by_cases hlinesOk : LinesOk next (fieldLines header.headerPairs)
  · obtain ⟨final, hlines, hkeep, hsto⟩ := feed_headerLines (hready A) hlinesOk
    rw [hlines] at hfeed
    cases hfeed
    refine ⟨htarget.1 ⟨full, hreread, ?_, ?_⟩, hlinesOk.first A.atVersion, hlinesOk.length⟩
    · rw [← hsame.uri, hkeep.uri, A.uri]
    intro key
    rw [← hsame.argList key, hkeep.argList, A.argList]
  obtain ⟨err, hlines⟩ := feed_badLines (hready A) hlinesOk
  rw [hlines] at hfeed
  cases hfeed

end

theorem Parsing.roundTrips_iff (P : Parsing header) (hdone : header.parseState = .Done) :
    RoundTrips header ↔ RoundTripOk header := by
  constructor
  · intro hround
    let again : HttpRequestHeader := { headerPairs := { mode := header.headerPairs.mode } }
    have B : Blank again := ⟨rfl, rfl, rfl, rfl, rfl, rfl, rfl, rfl, rfl, rfl⟩
    obtain ⟨⟨parsed, hparsed, hsame⟩, -⟩ := hround again B ⟨rfl, rfl, rfl⟩ rfl
    have hopen : again.parseState ≠ .Done := by rintro ⟨⟩
    have hreports := fromString_reports hopen header.toString
    rw [hparsed] at hreports
    cases hfeed : feed (react HttpRequestHeader.parseChar) again header.toString with
    | stopped final n =>
      rw [hfeed] at hreports
      obtain ⟨-, heq⟩ := hreports
      have hfinal : parsed = final := congrArg Prod.snd heq
      subst hfinal
      exact (feed_toString P hdone B ⟨rfl, rfl, rfl⟩ rfl).2 parsed n hfeed hsame
    | more final =>
      rw [hfeed] at hreports
      obtain ⟨-, heq⟩ := hreports
      have hlen : header.toString.length = 0 := by
        have := congrArg (fun result => result.1.2) heq
        simp only [Int.natCast_eq_zero] at this
        exact this
      rw [toString_eq, headerLines, length_append, length_append] at hlen
      simp at hlen
    | failed err =>
    rw [hfeed] at hreports
    obtain ⟨next, -, heq⟩ := hreports
    have := congrArg (fun result => result.1.1) heq
    exact absurd this.symm (code_of_failed hfeed).1
  intro hok again B hlimits hmode
  obtain ⟨parsed, hfeed, hsame⟩ := (feed_toString P hdone B hlimits hmode).1 hok
  have hopen : again.parseState ≠ .Done := by
    rw [B.state]
    rintro ⟨⟩
  have hreports := fromString_reports hopen header.toString
  rw [hfeed] at hreports
  obtain ⟨hparsed, heq⟩ := hreports
  rw [Nat.zero_add] at heq
  refine ⟨⟨parsed, heq, hsame⟩, ?_⟩
  intro iovecs hflatten
  refine ⟨parsed, ?_, hsame⟩
  rcases again.fromString_fromIOVec iovecs with ⟨-, hagree⟩ | ⟨hnot, -⟩
  · rw [hagree, hflatten, heq]
  rw [hflatten, heq] at hnot
  exact absurd (not_not.1 hparsed) hnot

/-- A header that has been parsed is written and parsed again as the same header exactly when its
target has no `%`, ends in a value and has a path in front of its arguments, no line feed is in front
of the first key, and the length of the body is a number. -/
theorem round_trips_iff (h : Parses header) (hdone : header.parseState = .Done) :
    RoundTrips header ↔ RoundTripOk header :=
  h.parsing.roundTrips_iff hdone

theorem Blank.default : Blank {} := ⟨rfl, rfl, rfl, rfl, rfl, rfl, rfl, rfl, rfl, rfl⟩

/-- A request with two arguments and two fields comes back. -/
theorem round_trips_of_plain :
    RoundTrips (({} : HttpRequestHeader).fromString
      (ascii "GET /p?b=2+&a=%C3 HTTP/1.1\r\nHost: x\r\nx-y: z\r\n\r\n")).2 := by
  have hparses := Parses.fromString
    (ascii "GET /p?b=2+&a=%C3 HTTP/1.1\r\nHost: x\r\nx-y: z\r\n\r\n")
    (.blank Blank.default) (by decide +kernel)
  refine (round_trips_iff hparses (by decide +kernel)).2 ?_
  generalize hparsed : (({} : HttpRequestHeader).fromString
    (ascii "GET /p?b=2+&a=%C3 HTTP/1.1\r\nHost: x\r\nx-y: z\r\n\r\n")).2 = parsed
  have huri : parsed.uri = ascii "/p" := by
    subst hparsed
    decide +kernel
  have hargs : parsed.argList.pairs = [(ascii "a", [0xc3]), (ascii "b", ascii "2+")] := by
    subst hparsed
    rw [StringMap.pairs, mergeSort_of_pairwise]
    · decide +kernel
    · decide +kernel
  have hlines : fieldLines parsed.headerPairs =
      [(ascii "host", ascii "x"), (ascii "x-y", ascii "z")] := by
    subst hparsed
    rw [fieldLines, StringMap.pairs, mergeSort_of_pairwise]
    · decide +kernel
    · decide +kernel
  refine ⟨⟨?_, ?_, .inr ?_⟩, ?_, ?_⟩
  · rw [huri, hargs]
    decide
  · rw [hargs]
    decide
  · rw [huri]
    decide
  · rw [hlines]
    decide
  rw [hlines]
  decide

/-- A `%` in the path is lost. -/
theorem not_round_trips_of_percent :
    ¬ ∀ header, Parses header → header.parseState = .Done → RoundTrips header := by
  intro h
  have hparses := Parses.fromString (ascii "GET /%2525 HTTP/1.1\r\n\r\n") (.blank Blank.default)
    (by decide +kernel)
  have hround := h _ hparses (by decide +kernel)
  have hok := (hparses.parsing.roundTrips_iff (by decide +kernel)).1 hround
  exact hok.target.percent.1 (by decide +kernel)

end Galay.Http.HttpRequestHeader
