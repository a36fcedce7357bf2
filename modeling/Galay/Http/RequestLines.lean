import Galay.Http.HeaderMap
import Galay.Http.RequestText
import Galay.Http.RequestHeaderBlocks

/-!
# The header lines of a request there and back

A line that `appendTo` writes is read as the pair it was written for. What is refused is a line feed
in front of the first key and a `content-length` that is no number.
-/

namespace Galay.Http

open List
open Lib (feed)

/-! ## Keys and values -/

/-- A key as the parsers leave it. Its first character is not looked at for a colon. -/
structure KeyOk (key : Bytes) : Prop where
  head : ∃ c rest, key = c :: rest ∧ c ≠ CR ∧ ∀ d ∈ rest, d ≠ COLON ∧ d ≠ CR ∧ d ≠ LF
  length : key.length ≤ 256

/-- A value as the parsers leave it. -/
structure ValueOk (value : Bytes) : Prop where
  head : value.head? ≠ some SP
  end_ : CR ∉ value

/-- A key that the parsers do not change any more. -/
def NormalKey (mode : HeaderMode) (key : Bytes) : Prop :=
  match mode with
  | .ServerSide => toLowerAscii key = key
  | .ClientSide => toCanonicalHeaderKey key = key

theorem NormalKey.char (h : NormalKey mode key) : ∀ c ∈ key, normalizeHeaderKeyChar c mode = c := by
  intro c hmem
  cases mode with
  | ClientSide => rfl
  | ServerSide =>
  have hmap : key.map toLowerAsciiChar = key.map id := h.trans (map_id key).symm
  exact List.map_inj_left.1 hmap c hmem

namespace HttpRequestHeader

variable {header : HttpRequestHeader}

/-! ## One line -/

/-- The header in front of a line. -/
structure AtLine (header : HttpRequestHeader) : Prop where
  state : header.parseState = .VersionLF ∨ header.parseState = .HeaderLF
  key : header.parseHeaderKey = []
  value : header.parseHeaderValue = []
  limits : header.maxHeaderCount = 0 ∧ header.maxHeaderLineSize = 0

/-- The request line stays as it is. -/
structure KeepsLine (header header' : HttpRequestHeader) : Prop where
  method : header'.method = header.method
  version : header'.version = header.version
  uri : header'.uri = header.uri
  argList : header'.argList = header.argList

/-- Where a pair is stored that has been read. -/
def storePair (pairs : HeaderPair) (pair : Bytes × Bytes) : HeaderPair :=
  match pairs.mode with
  | .ServerSide =>
    if matchCommonHeader pair.1 ≠ .NotCommon then
      pairs.setCommonHeader (matchCommonHeader pair.1) pair.2
    else pairs.mergeNormalizedUncommonHeaderPair pair.1 pair.2
  | .ClientSide => pairs.addHeaderPair pair.1 pair.2

theorem mode_setCommonHeader (pairs : HeaderPair) (idx : CommonHeaderIndex) (value : Bytes) :
    (pairs.setCommonHeader idx value).mode = pairs.mode := by
  rw [HeaderPair.setCommonHeader]
  split <;> rfl

theorem mode_storePair (pairs : HeaderPair) (pair : Bytes × Bytes) :
    (storePair pairs pair).mode = pairs.mode := by
  rw [storePair]
  split
  · split
    · exact mode_setCommonHeader ..
    rw [HeaderPair.mergeNormalizedUncommonHeaderPair]
    split <;> rfl
  rename_i hmode
  rw [HeaderPair.addHeaderPair]
  simp only [hmode]

/-- The header with a key that is being read. -/
def withKey (header : HttpRequestHeader) (key : Bytes) : HttpRequestHeader :=
  { header with parseHeaderKey := key, parseState := .HeaderKey }

theorem feed_first (L : AtLine header) (hcr : c ≠ CR)
    (hlf : header.parseState = .VersionLF → c ≠ LF)
    (hnormal : normalizeHeaderKeyChar c header.headerPairs.mode = c) :
    react parseChar header c = .next (header.withKey [c]) := by
  apply react_next
  rcases L.state with hst | hst
  · simp only [parseChar, hst, charVersionLF, if_neg hcr, if_neg (hlf hst), hnormal, L.key]
    rfl
  simp only [parseChar, hst, charHeaderLF, if_neg hcr, hnormal, L.key]
  rfl

theorem feed_key {rest : Bytes} (hlen : word.length + rest.length ≤ 256)
    (hrest : ∀ d ∈ rest, d ≠ COLON ∧ d ≠ CR ∧ d ≠ LF)
    (hnormal : ∀ d ∈ rest, normalizeHeaderKeyChar d header.headerPairs.mode = d) :
    feed (react parseChar) (header.withKey word) rest = .more (header.withKey (word ++ rest)) := by
  induction rest generalizing word with
  | nil => rw [Lib.feed_nil, append_nil]
  | cons d rest ih =>
  obtain ⟨hcolon, hcr, hlf⟩ := hrest d (mem_cons_self ..)
  have hd := hnormal d (mem_cons_self ..)
  rw [length_cons] at hlen
  have hshort : ¬ 256 ≤ word.length := by omega
  have hreact : react parseChar (header.withKey word) d =
      .next (header.withKey (word ++ [d])) := by
    apply react_next
    by_cases hmode : header.headerPairs.mode = .ServerSide
    · rw [normalizeHeaderKeyChar, if_pos hmode] at hd
      simp only [parseChar, withKey, charHeaderKey, hcolon, hcr, hlf, or_self, hshort, if_false,
        hmode, if_true, hd]
    simp only [parseChar, withKey, charHeaderKey, hcolon, hcr, hlf, or_self, hshort, if_false,
      hmode, hd]
  rw [Lib.feed_next hreact, ih, Lib.Progress.shift_more, append_assoc]
  · rfl
  · rw [length_append, length_singleton]
    omega
  · exact fun d hmem => hrest d (mem_cons_of_mem _ hmem)
  exact fun d hmem => hnormal d (mem_cons_of_mem _ hmem)

/-- The header behind a key. -/
def afterKey (header : HttpRequestHeader) (key : Bytes) : HttpRequestHeader :=
  { header with
    parseHeaderKey := key
    currentCommonHeaderIdx := if header.headerPairs.mode = .ServerSide then matchCommonHeader key
      else header.currentCommonHeaderIdx
    parseState := .HeaderSpace }

theorem feed_colon (hlen : key.length ≤ 256) :
    feed (react parseChar) (header.withKey key) (ascii ": ") = .more (header.afterKey key) := by
  have hcolon : react parseChar (header.withKey key) COLON =
      .next { header.afterKey key with parseState := .HeaderColon } := by
    apply react_next
    have hshort : ¬ 256 < key.length := by omega
    by_cases hmode : header.headerPairs.mode = .ServerSide
    · simp only [parseChar, withKey, charHeaderKey, if_true, finishKey, hshort, if_false, hmode,
        afterKey]
    simp only [parseChar, withKey, charHeaderKey, if_true, finishKey, hshort, if_false, hmode,
      afterKey]
  have hspace : react parseChar { header.afterKey key with parseState := .HeaderColon } SP =
      .next (header.afterKey key) := by
    apply react_next
    rfl
  have htext : ascii ": " = [COLON, SP] := rfl
  rw [htext, Lib.feed_next hcolon, Lib.feed_next hspace]
  rfl

theorem feed_value (hst : header.parseState = .HeaderSpace) (hempty : header.parseHeaderValue = [])
    (hval : ValueOk value) : ∃ state, (state = .HeaderSpace ∨ state = .HeaderValue) ∧
      feed (react parseChar) header value =
        .more { header with parseHeaderValue := value, parseState := state } := by
  cases value with
  | nil =>
    refine ⟨.HeaderSpace, .inl rfl, ?_⟩
    rw [Lib.feed_nil, ← hst, ← hempty]
  | cons c rest =>
  have hsp : c ≠ SP := fun h => hval.head (congrArg some h)
  have hmem := hval.end_
  rw [mem_cons, not_or] at hmem
  have hfirst : react parseChar header c =
      .next { header with parseHeaderValue := [c], parseState := .HeaderValue } := by
    apply react_next
    simp only [parseChar, hst, charHeaderSpace, hsp, Ne.symm hmem.1, if_false, hempty]
    rfl
  refine ⟨.HeaderValue, .inr rfl, ?_⟩
  rw [Lib.feed_next hfirst]
  let collected (word : Bytes) : HttpRequestHeader :=
    { header with parseHeaderValue := word, parseState := .HeaderValue }
  have hreact (word : Bytes) (d : UInt8) (hd : (d != CR) = true) :
      react parseChar (collected word) d = .next (collected (word ++ [d])) :=
    react_next (if_neg (bne_iff_ne.1 hd))
  have hcollect := Lib.feed_collect hreact
    (fun d hd => bne_iff_ne.2 fun h => hmem.2 (h ▸ hd) : ∀ d ∈ rest, (d != CR) = true) [c]
  rw [hcollect]
  rfl

theorem commit_ok (hcount : header.maxHeaderCount = 0) (hsize : header.maxHeaderLineSize = 0)
    (hlen : header.parseHeaderKey = ascii "content-length" →
      (parseSizeTStrict header.parseHeaderValue).isSome ∧ header.hasContentLength = false) :
    ∃ count seen length, header.commitParsedHeaderPair = (.kNoError, { header with
        headerCount := count, hasContentLength := seen, contentLengthValue := length }.storeHeaderPair) ∧
      (seen = true → header.hasContentLength = true ∨
        header.parseHeaderKey = ascii "content-length") := by
  by_cases hkey : header.parseHeaderKey = ascii "content-length"
  · obtain ⟨hsome, hseen⟩ := hlen hkey
    obtain ⟨length, hval⟩ := Option.isSome_iff_exists.1 hsome
    refine ⟨header.headerCount + 1, true, length, ?_, fun _ => .inr hkey⟩
    simp only [commitParsedHeaderPair, hcount, hsize, ne_eq, not_true, false_and, if_false, hkey,
      if_true, hval, hseen, Bool.false_eq_true]
  refine ⟨header.headerCount + 1, header.hasContentLength, header.contentLengthValue, ?_, .inl⟩
  simp only [commitParsedHeaderPair, hcount, hsize, ne_eq, not_true, false_and, if_false, hkey]

theorem commit_bad (hcount : header.maxHeaderCount = 0) (hsize : header.maxHeaderLineSize = 0)
    (hkey : header.parseHeaderKey = ascii "content-length")
    (hval : parseSizeTStrict header.parseHeaderValue = none) :
    header.commitParsedHeaderPair.1 = .kBadRequest := by
  simp only [commitParsedHeaderPair, hcount, hsize, ne_eq, not_true, false_and, if_false, hkey,
    if_true, hval]

/-- A line is refused where the first key starts with a line feed, and where the length of the body
is no number. -/
structure LineOk (header : HttpRequestHeader) (pair : Bytes × Bytes) : Prop where
  first : header.parseState = .VersionLF → pair.1.head? ≠ some LF
  length : pair.1 = ascii "content-length" → (parseSizeTStrict pair.2).isSome

/-- A pair that a parser has left. -/
structure PairOk (mode : HeaderMode) (pair : Bytes × Bytes) : Prop where
  key : KeyOk pair.1
  value : ValueOk pair.2
  normal : NormalKey mode pair.1

/-- The header with a value that has been read. -/
def atValue (header : HttpRequestHeader) (pair : Bytes × Bytes) (state : RequestParseState) :
    HttpRequestHeader :=
  { header.afterKey pair.1 with parseHeaderValue := pair.2, parseState := state }

theorem feed_upToValue (L : AtLine header) (hpair : PairOk header.headerPairs.mode pair)
    (hfirst : header.parseState = .VersionLF → pair.1.head? ≠ some LF) :
    ∃ state, (state = .HeaderSpace ∨ state = .HeaderValue) ∧
      feed (react parseChar) header (pair.1 ++ ascii ": " ++ pair.2) =
        .more (header.atValue pair state) := by
  obtain ⟨c, rest, hkey, hcr, hrest⟩ := hpair.key.head
  have hnormal := hpair.normal.char
  have hlen := hpair.key.length
  rw [hkey] at hnormal hlen hfirst
  obtain ⟨state, hst, hval⟩ :=
    @feed_value (header.afterKey pair.1) pair.2 rfl L.value hpair.value
  refine ⟨state, hst, ?_⟩
  have hstart := feed_first L hcr (fun h heq => hfirst h (congrArg some heq))
    (hnormal c (mem_cons_self ..))
  have hword : feed (react parseChar) (header.withKey [c]) rest = .more (header.withKey pair.1) := by
    rw [hkey]
    apply feed_key _ hrest (fun d hmem => hnormal d (mem_cons_of_mem _ hmem))
    rw [length_cons] at hlen
    rw [length_singleton]
    omega
  have hwhole : feed (react parseChar) header pair.1 = .more (header.withKey pair.1) := by
    conv_lhs => rw [hkey]
    rw [Lib.feed_next hstart, hword]
    rfl
  rw [append_assoc, Lib.feed_append_of_more hwhole,
    Lib.feed_append_of_more (feed_colon hpair.key.length), hval]
  rfl

theorem parseChar_valueEnd
    (hst : header.parseState = .HeaderSpace ∨ header.parseState = .HeaderValue) :
    header.parseChar CR = header.finishValue := by
  rcases hst with hst | hst
  · simp only [parseChar, hst]
    rfl
  simp only [parseChar, hst]
  rfl

theorem feed_headerLine (L : AtLine header) (hpair : PairOk header.headerPairs.mode pair)
    (hline : LineOk header pair)
    (hseen : pair.1 = ascii "content-length" → header.hasContentLength = false) :
    ∃ next, feed (react parseChar) header (HeaderPair.headerLine pair) = .more next ∧
      AtLine next ∧ next.parseState = .HeaderLF ∧ KeepsLine header next ∧
      next.headerPairs = storePair header.headerPairs pair ∧
      (next.hasContentLength = true →
        header.hasContentLength = true ∨ pair.1 = ascii "content-length") := by
  obtain ⟨state, hst, hfeed⟩ := feed_upToValue L hpair hline.first
  have hcommit := @commit_ok
    (header.atValue pair state)
    L.limits.1 L.limits.2 (fun hkey => ⟨hline.length hkey, hseen hkey⟩)
  obtain ⟨count, seen, length, hcommit, hlen⟩ := hcommit
  generalize hsto : storeHeaderPair { header.atValue pair state with
    headerCount := count, hasContentLength := seen, contentLengthValue := length } = stored at hcommit
  have hcr : react parseChar (header.atValue pair state) CR =
      .next { stored with parseState := .HeaderCR } := by
    apply react_next
    rw [parseChar_valueEnd hst, finishValue, hcommit]
  have hlf : react parseChar { stored with parseState := .HeaderCR } LF =
      .next { stored with parseState := .HeaderLF } := react_next rfl
  refine ⟨{ stored with parseState := .HeaderLF }, ?_, ?_, rfl, ?_, ?_, ?_⟩
  · have hend : ascii "\r\n" = [CR, LF] := rfl
    rw [HeaderPair.headerLine, Lib.feed_append_of_more hfeed, hend, Lib.feed_next hcr,
      Lib.feed_next hlf]
    rfl
  · subst hsto
    exact ⟨.inr rfl, rfl, rfl, L.limits⟩
  · subst hsto
    exact ⟨rfl, rfl, rfl, rfl⟩
  · subst hsto
    by_cases hmode : header.headerPairs.mode = .ServerSide
    · simp only [storeHeaderPair, atValue, afterKey, storePair, hmode, if_true]
    have hclient : header.headerPairs.mode = .ClientSide := by
      cases h : header.headerPairs.mode with
      | ServerSide => exact absurd h hmode
      | ClientSide => rfl
    simp only [storeHeaderPair, atValue, afterKey, storePair, hclient]
  subst hsto
  exact hlen

theorem feed_badLine (L : AtLine header) (hpair : PairOk header.headerPairs.mode pair)
    (hline : ¬ LineOk header pair) :
    ∃ err, feed (react parseChar) header (HeaderPair.headerLine pair) = .failed err := by
  by_cases hfirst : header.parseState = .VersionLF → pair.1.head? ≠ some LF
  · have hlen : ¬ (pair.1 = ascii "content-length" → (parseSizeTStrict pair.2).isSome) :=
      fun hlen => hline ⟨hfirst, hlen⟩
    obtain ⟨hkey, hval⟩ := Classical.not_imp.1 hlen
    obtain ⟨state, hst, hfeed⟩ := feed_upToValue L hpair hfirst
    have hcommit := @commit_bad
      (header.atValue pair state)
      L.limits.1 L.limits.2 hkey (Option.not_isSome_iff_eq_none.1 hval)
    refine ⟨.kBadRequest, ?_⟩
    rw [HeaderPair.headerLine, Lib.feed_append_of_more hfeed]
    have hcr : react parseChar
        (header.atValue pair state) CR =
        .fail .kBadRequest := by
      rw [react, parseChar_valueEnd hst, finishValue]
      generalize commitParsedHeaderPair (header.atValue pair state) = result at hcommit
      obtain ⟨code, next⟩ := result
      cases hcommit
      rfl
    exact congrArg (Lib.Progress.shift _) (Lib.feed_fail hcr [LF])
  obtain ⟨hst, hhead⟩ := Classical.not_imp.1 hfirst
  obtain ⟨c, rest, hkey, -, -⟩ := hpair.key.head
  rw [not_not, hkey] at hhead
  cases hhead
  refine ⟨.kBadRequest, ?_⟩
  have hlf : react parseChar header LF = .fail .kBadRequest := by
    simp only [react, parseChar, hst]
    rfl
  rw [HeaderPair.headerLine, hkey]
  exact Lib.feed_fail hlf _

/-! ## All lines -/

/-- The lines that are in order where the header is. -/
structure LinesOk (header : HttpRequestHeader) (pairs : List (Bytes × Bytes)) : Prop where
  first : header.parseState = .VersionLF → ∀ pair ∈ pairs.head?, pair.1.head? ≠ some LF
  length : ∀ pair ∈ pairs, pair.1 = ascii "content-length" → (parseSizeTStrict pair.2).isSome

/-- The lines with the empty line behind them. -/
def headerLines (pairs : List (Bytes × Bytes)) : Bytes :=
  (pairs.map HeaderPair.headerLine).flatten ++ [CR, LF]

theorem headerLines_cons (pair : Bytes × Bytes) (pairs : List (Bytes × Bytes)) :
    headerLines (pair :: pairs) = HeaderPair.headerLine pair ++ headerLines pairs := by
  rw [headerLines, map_cons, flatten_cons, append_assoc]
  rfl

theorem KeepsLine.trans (h : KeepsLine header header')
    (h' : KeepsLine header' header'') : KeepsLine header header'' where
  method := h'.method.trans h.method
  version := h'.version.trans h.version
  uri := h'.uri.trans h.uri
  argList := h'.argList.trans h.argList

theorem feed_end (L : AtLine header) :
    feed (react parseChar) header [CR, LF] = .stopped { header with parseState := .Done } 2 := by
  have hcr : react parseChar header CR = .next { header with parseState := .HeaderEndCR } := by
    apply react_next
    rcases L.state with hst | hst
    · simp only [parseChar, hst]
      rfl
    simp only [parseChar, hst]
    rfl
  have hlf : react parseChar { header with parseState := .HeaderEndCR } LF =
      .stop { header with parseState := .Done } := rfl
  rw [Lib.feed_next hcr, Lib.feed_stop hlf]
  rfl

/-- The header in front of lines that a parser has left. -/
structure Ready (header : HttpRequestHeader) (pairs : List (Bytes × Bytes)) : Prop
    extends AtLine header where
  pairOk : ∀ pair ∈ pairs, PairOk header.headerPairs.mode pair
  nodup : (pairs.map Prod.fst).Nodup
  seen : ascii "content-length" ∈ pairs.map Prod.fst → header.hasContentLength = false

theorem Ready.next (R : Ready header (pair :: pairs)) (hline : LineOk header pair) :
    ∃ next, feed (react parseChar) header (HeaderPair.headerLine pair) = .more next ∧
      Ready next pairs ∧ next.parseState = .HeaderLF ∧ KeepsLine header next ∧
      next.headerPairs = storePair header.headerPairs pair := by
  have hnodup := R.nodup
  rw [map_cons, nodup_cons] at hnodup
  obtain ⟨next, hfeed, L, hst, hkeep, hsto, hlen⟩ :=
    feed_headerLine R.toAtLine (R.pairOk pair (mem_cons_self ..)) hline
      (fun hkey => R.seen (by rw [map_cons, hkey]; exact mem_cons_self ..))
  refine ⟨next, hfeed, ⟨L, ?_, hnodup.2, ?_⟩, hst, hkeep, hsto⟩
  · intro other hmem
    rw [hsto, mode_storePair]
    exact R.pairOk other (mem_cons_of_mem _ hmem)
  intro hmem
  cases hseen : next.hasContentLength with
  | false => rfl
  | true =>
  rcases hlen hseen with hbefore | hkey
  · rw [R.seen (mem_cons_of_mem _ hmem)] at hbefore
    cases hbefore
  rw [hkey] at hnodup
  exact absurd hmem hnodup.1

theorem feed_headerLines (R : Ready header pairs) (hlines : LinesOk header pairs) :
    ∃ final, feed (react parseChar) header (headerLines pairs) =
        .stopped final (headerLines pairs).length ∧ KeepsLine header final ∧
      final.headerPairs = pairs.foldl storePair header.headerPairs := by
  induction pairs generalizing header with
  | nil => exact ⟨_, feed_end R.toAtLine, ⟨rfl, rfl, rfl, rfl⟩, rfl⟩
  | cons pair pairs ih =>
  have hline : LineOk header pair :=
    ⟨fun hst => hlines.first hst pair rfl, hlines.length pair (mem_cons_self ..)⟩
  obtain ⟨next, hfeed, R', hst, hkeep, hsto⟩ := R.next hline
  have hlines' : LinesOk next pairs := by
    refine ⟨?_, fun other hmem => hlines.length other (mem_cons_of_mem _ hmem)⟩
    intro hver
    rw [hst] at hver
    cases hver
  obtain ⟨final, hrest, hkeep', hfinal⟩ := ih R' hlines'
  refine ⟨final, ?_, hkeep.trans hkeep', ?_⟩
  · rw [headerLines_cons, Lib.feed_append_of_more hfeed, hrest, length_append]
    rfl
  rw [hfinal, hsto]
  rfl

theorem feed_badLines (R : Ready header pairs) (hlines : ¬ LinesOk header pairs) :
    ∃ err, feed (react parseChar) header (headerLines pairs) = .failed err := by
  induction pairs generalizing header with
  | nil => exact absurd ⟨fun _ _ => nofun, fun _ => nofun⟩ hlines
  | cons pair pairs ih =>
  rw [headerLines_cons]
  by_cases hline : LineOk header pair
  · obtain ⟨next, hfeed, R', -, -, -⟩ := R.next hline
    have hlines' : ¬ LinesOk next pairs := by
      intro hlines'
      refine hlines ⟨fun hver other hmem => ?_, fun other hmem => ?_⟩
      · cases hmem
        exact hline.first hver
      rcases List.mem_cons.1 hmem with rfl | hmem
      · exact hline.length
      exact hlines'.length other hmem
    obtain ⟨err, hrest⟩ := ih R' hlines'
    refine ⟨err, ?_⟩
    rw [Lib.feed_append_of_more hfeed, hrest]
    rfl
  obtain ⟨err, hfeed⟩ :=
    feed_badLine R.toAtLine (R.pairOk pair (mem_cons_self ..)) hline
  exact ⟨err, Lib.feed_append_of_failed hfeed _⟩

end HttpRequestHeader

end Galay.Http
