import Galay.Http.RequestHeader

/-!
# Blocks of a request header are runs of characters

`blockChar` is `parseChar` without the length check on each character of a key, which the block
parser makes at the colon only. A turn of the block parser is a run of this machine.
-/

namespace Galay.Http

open List
open Lib (Progress feed)

namespace HttpRequestHeader

variable {header header' : HttpRequestHeader} {c : UInt8} {data : Bytes}

def blockChar (header : HttpRequestHeader) (c : UInt8) : HttpErrorCode × HttpRequestHeader :=
  if header.parseState = .HeaderKey ∧ c ≠ COLON ∧ c ≠ CR ∧ c ≠ LF then
    (.kNoError, header.appendHeaderKeyChunk [c])
  else header.parseChar c

theorem blockChar_eq (hst : header.parseState ≠ .HeaderKey) (c : UInt8) :
    header.blockChar c = header.parseChar c :=
  if_neg fun hkey => hst hkey.1

/-! ## Delimiters never complete a header -/

theorem finishUri_ne (header : HttpRequestHeader) : header.finishUri.1 ≠ .kIncomplete := by
  unfold finishUri
  split <;> exact nofun

theorem finishVersion_ne (header : HttpRequestHeader) :
    header.finishVersion.1 ≠ .kIncomplete := by
  unfold finishVersion
  simp only
  repeat' split
  all_goals exact nofun

theorem finishKey_ne (header : HttpRequestHeader) : header.finishKey.1 ≠ .kIncomplete := by
  unfold finishKey
  split <;> exact nofun

theorem commitParsedHeaderPair_ne (header : HttpRequestHeader) :
    header.commitParsedHeaderPair.1 ≠ .kIncomplete := by
  unfold commitParsedHeaderPair
  simp only
  repeat' split
  all_goals exact nofun

theorem finishValue_ne (header : HttpRequestHeader) : header.finishValue.1 ≠ .kIncomplete := by
  have hcommit := header.commitParsedHeaderPair_ne
  unfold finishValue
  split
  · exact nofun
  next err header' heq =>
  rw [heq] at hcommit
  exact hcommit

/-! ## One turn of the block parser -/

theorem runs_blockMethod (hst : header.parseState = .Method) :
    (header.blockMethod data).Runs (react blockChar) header data := by
  have hchar word c : blockChar { header with parseMethodStr := word } c =
      charMethod { header with parseMethodStr := word } c := by
    simp only [blockChar, parseChar, hst, reduceCtorEq, false_and, if_false]
  unfold blockMethod
  refine runs_collect (f := fun word => { header with parseMethodStr := word })
    (fun word c hc => ?_) fun c rest hc => ?_
  · simp only [Bool.and_eq_true, bne_iff_ne] at hc
    simp [hchar, charMethod, hc]
  by_cases hsp : c = SP
  · simp [hchar, charMethod, hsp, Block.ofChar]
  have hline : c = CR ∨ c = LF := by
    rw [or_iff_not_imp_left]
    simpa [hsp] using hc
  simp [hchar, charMethod, hsp, hline, Block.ofChar]

theorem runs_blockMethodSP (hst : header.parseState = .MethodSP) :
    (header.blockMethodSP data).Runs (react blockChar) header data := by
  have hchar c : header.blockChar c = header.charMethodSP c := by
    rw [blockChar_eq (hst.trans_ne nofun), parseChar, hst]
  refine runs_spaces ((hchar SP).trans (if_pos rfl)) fun c rest hc => ?_
  rw [hchar, charMethodSP, if_neg hc]
  simp only [Block.ofChar_ite]
  rfl

theorem uriTooLong_mono {uri : Bytes} (hle : uri.length ≤ uri'.length)
    (h : uriTooLong { header with parseUriStr := uri } = true) :
    uriTooLong { header with parseUriStr := uri' } = true := by
  simp only [uriTooLong, Bool.and_eq_true, bne_iff_ne, decide_eq_true_eq] at h ⊢
  exact ⟨h.1, by omega⟩

/-- The characters of a target are collected, unless the target gets too long. -/
theorem feed_uri (hst : header.parseState = .Uri) {word : Bytes}
    (hword : ∀ c ∈ word, (c != SP && c != CR && c != LF) = true) :
    feed (react blockChar) header word =
      if word ≠ [] ∧ uriTooLong { header with parseUriStr := header.parseUriStr ++ word } then
        .failed .kUriTooLong
      else .more { header with parseUriStr := header.parseUriStr ++ word } := by
  induction word generalizing header with
  | nil => simp
  | cons c word ih =>
  have hc := hword c (mem_cons_self ..)
  simp only [Bool.and_eq_true, bne_iff_ne] at hc
  have hchar : header.blockChar c = header.charUri c := by
    rw [blockChar_eq (hst.trans_ne nofun), parseChar, hst]
  simp only [charUri, if_neg hc.1.1, if_neg (not_or.2 ⟨hc.1.2, hc.2⟩)] at hchar
  by_cases hlong : uriTooLong { header with parseUriStr := header.parseUriStr ++ [c] } = true
  · rw [if_pos hlong] at hchar
    have hreact : react blockChar header c = .fail .kUriTooLong := by
      rw [react, hchar]
      rfl
    rw [Lib.feed_fail hreact, if_pos]
    exact ⟨cons_ne_nil _ _, uriTooLong_mono (by simp) hlong⟩
  rw [if_neg hlong] at hchar
  have hrest := @ih { header with parseUriStr := header.parseUriStr ++ [c] } hst
    fun c' h => hword c' (mem_cons_of_mem _ h)
  rw [Lib.feed_next (react_next hchar), hrest]
  simp only [append_assoc, singleton_append, cons_ne_nil, ne_eq, not_false_eq_true, true_and]
  by_cases hlong' : uriTooLong { header with parseUriStr := header.parseUriStr ++ c :: word } = true
  · have hne : ¬ word = [] := by
      rintro rfl
      exact hlong hlong'
    rw [if_pos ⟨hne, hlong'⟩, if_pos hlong', Progress.shift_failed]
  rw [if_neg (fun h => hlong' h.2), if_neg hlong', Progress.shift_more]

theorem runs_blockUri (hst : header.parseState = .Uri) :
    (header.blockUri data).Runs (react blockChar) header data := by
  have hfeed := feed_uri hst (List.all_eq_true.1
    (all_takeWhile (p := fun c => c != SP && c != CR && c != LF) (l := data)))
  unfold blockUri
  simp only
  split
  · next hlong =>
    rw [if_pos hlong] at hfeed
    have hfailed := Lib.feed_append_of_failed hfeed
      (data.dropWhile fun c => c != SP && c != CR && c != LF)
    rwa [takeWhile_append_dropWhile] at hfailed
  next hshort =>
  rw [if_neg hshort] at hfeed
  refine runs_word hfeed ?_
  cases hdrop : data.dropWhile fun c => c != SP && c != CR && c != LF with
  | nil => rfl
  | cons c rest =>
  have hc := Lib.not_of_dropWhile hdrop
  simp only [blockChar, parseChar, hst, reduceCtorEq, false_and, if_false, charUri]
  by_cases hsp : c = SP
  · rw [if_neg (not_not.2 hsp), if_pos hsp]
    exact Block.ofResult_eq_ofChar (finishUri_ne _)
  have hline : c = CR ∨ c = LF := by
    rw [or_iff_not_imp_left]
    simpa [hsp] using hc
  rw [if_pos hsp, if_neg hsp, if_pos hline]
  rfl

theorem runs_blockUriSP (hst : header.parseState = .UriSP) :
    (header.blockUriSP data).Runs (react blockChar) header data := by
  have hchar c : header.blockChar c = header.charUriSP c := by
    rw [blockChar_eq (hst.trans_ne nofun), parseChar, hst]
  refine runs_spaces ((hchar SP).trans (if_pos rfl)) fun c rest hc => ?_
  rw [hchar, charUriSP, if_neg hc]
  simp only [Block.ofChar_ite]
  rfl

theorem runs_blockVersion (hst : header.parseState = .Version) :
    (header.blockVersion data).Runs (react blockChar) header data := by
  have hchar word c : blockChar { header with parseVersionStr := word } c =
      charVersion { header with parseVersionStr := word } c := by
    simp only [blockChar, parseChar, hst, reduceCtorEq, false_and, if_false]
  refine runs_collect (f := fun word => { header with parseVersionStr := word })
    (fun word c hc => ?_) fun c rest hc => ?_
  · simp only [Bool.and_eq_true, bne_iff_ne] at hc
    simp [hchar, charVersion, hc]
  rw [hchar, charVersion]
  by_cases hcr : c = CR
  · subst hcr
    exact Block.ofResult_eq_ofChar (finishVersion_ne _)
  have hlf : c = LF := by simpa [hcr] using hc
  rw [if_pos hlf, if_neg hcr, if_pos hlf]
  rfl

theorem runs_blockLineFeed {next : RequestParseState}
    (hchar : ∀ c, header.blockChar c = header.charLineFeed next c) :
    (header.blockLineFeed next data).Runs (react blockChar) header data := by
  refine runs_char fun c rest => ?_
  simp only [hchar, charLineFeed, ite_not, Block.ofChar_ite]
  rfl

theorem runs_blockVersionLF (hst : header.parseState = .VersionLF) :
    (header.blockVersionLF data).Runs (react blockChar) header data := by
  refine runs_char fun c rest => ?_
  simp only [blockChar_eq (hst.trans_ne nofun), parseChar, hst, charVersionLF, Block.ofChar_ite]
  rfl

@[simp] theorem parseState_appendHeaderKeyChunk (header : HttpRequestHeader) (chunk : Bytes) :
    (header.appendHeaderKeyChunk chunk).parseState = header.parseState := by
  unfold appendHeaderKeyChunk
  split <;> rfl

/-- The key is too long, whatever comes. -/
def LongKey (header : HttpRequestHeader) : Prop :=
  header.parseState = .HeaderKey ∧ 256 < header.parseHeaderKey.length

def keyReading : KeyReading parseChar blockChar where
  inKey header := header.parseState = .HeaderKey
  size header := header.parseHeaderKey.length
  append := appendHeaderKeyChunk
  finish := finishKey
  inKey_append h chunk := (parseState_appendHeaderKeyChunk ..).trans h
  size_append header chunk := by
    unfold appendHeaderKeyChunk
    split <;> simp
  append_nil header := by
    unfold appendHeaderKeyChunk
    split <;> simp
  append_append header chunk chunk' := by
    unfold appendHeaderKeyChunk
    by_cases hmode : header.headerPairs.mode = .ServerSide
    · simp only [hmode, if_true, List.map_append, List.append_assoc]
    · simp only [hmode, if_false, List.append_assoc]
  char_eq {header} h c := by
    rw [parseChar, h]
    simp only [charHeaderKey, appendHeaderKeyChunk, normalizeHeaderKeyChar]
    by_cases hmode : header.headerPairs.mode = .ServerSide
    · simp only [hmode, if_true, List.map_cons, List.map_nil]
    · simp only [hmode, if_false]
  block_key h c hcolon hline := if_pos ⟨h, hcolon, not_or.1 hline⟩
  block_other h := if_neg fun hkey => (h hkey.1).elim hkey.2.1 (not_or.2 hkey.2.2)
  finish_ne := finishKey_ne
  finish_long h := ⟨_, if_pos h⟩

theorem runs_blockHeaderKey (hst : header.parseState = .HeaderKey) :
    (header.blockHeaderKey data).Runs (react blockChar) header data :=
  keyReading.runs hst

theorem runs_blockHeaderColon (hst : header.parseState = .HeaderColon) :
    (header.blockHeaderColon data).Runs (react blockChar) header data := by
  refine runs_char fun c rest => ?_
  simp only [blockChar_eq (hst.trans_ne nofun), parseChar, hst, charHeaderColon,
    Block.ofChar_ite, Block.ofResult_eq_ofChar (finishValue_ne _)]
  rfl

theorem runs_blockHeaderSpace (hst : header.parseState = .HeaderSpace) :
    (header.blockHeaderSpace data).Runs (react blockChar) header data := by
  have hchar c : header.blockChar c = header.charHeaderSpace c := by
    rw [blockChar_eq (hst.trans_ne nofun), parseChar, hst]
  refine runs_spaces ((hchar SP).trans (if_pos rfl)) fun c rest hc => ?_
  rw [hchar, charHeaderSpace, if_neg hc]
  simp only [Block.ofChar_ite, Block.ofResult_eq_ofChar (finishValue_ne _)]
  rfl

theorem runs_blockHeaderValue (hst : header.parseState = .HeaderValue) :
    (header.blockHeaderValue data).Runs (react blockChar) header data := by
  have hchar word c : blockChar { header with parseHeaderValue := word } c =
      charHeaderValue { header with parseHeaderValue := word } c := by
    simp only [blockChar, parseChar, hst, reduceCtorEq, false_and, if_false]
  refine runs_collect (f := fun word => { header with parseHeaderValue := word })
    (fun word c hc => ?_) fun c rest hc => ?_
  · exact (hchar word c).trans (if_neg (bne_iff_ne.1 hc))
  rw [hchar, charHeaderValue, if_pos (bne_eq_false_iff_eq.1 hc)]
  exact Block.ofResult_eq_ofChar (finishValue_ne _)

theorem runs_blockHeaderLF (hst : header.parseState = .HeaderLF) :
    (header.blockHeaderLF data).Runs (react blockChar) header data := by
  refine runs_char fun c rest => ?_
  simp only [blockChar_eq (hst.trans_ne nofun), parseChar, hst, charHeaderLF, Block.ofChar_ite]
  rfl

theorem runs_blockHeaderEndCR (hst : header.parseState = .HeaderEndCR) :
    (header.blockHeaderEndCR data).Runs (react blockChar) header data := by
  refine runs_char fun c rest => ?_
  simp only [blockChar_eq (hst.trans_ne nofun), parseChar, hst, charHeaderEndCR,
    ite_not, Block.ofChar_ite]
  rfl

theorem runs_parseBlock (hopen : header.parseState ≠ .Done) :
    (header.parseBlock data).Runs (react blockChar) header data := by
  unfold parseBlock
  cases hst : header.parseState with
  | Method => exact runs_blockMethod hst
  | MethodSP => exact runs_blockMethodSP hst
  | Uri => exact runs_blockUri hst
  | UriSP => exact runs_blockUriSP hst
  | Version => exact runs_blockVersion hst
  | VersionCR =>
    refine runs_blockLineFeed fun c => ?_
    rw [blockChar_eq (hst.trans_ne nofun), parseChar, hst]
  | VersionLF => exact runs_blockVersionLF hst
  | HeaderKey => exact runs_blockHeaderKey hst
  | HeaderColon => exact runs_blockHeaderColon hst
  | HeaderSpace => exact runs_blockHeaderSpace hst
  | HeaderValue => exact runs_blockHeaderValue hst
  | HeaderCR =>
    refine runs_blockLineFeed fun c => ?_
    rw [blockChar_eq (hst.trans_ne nofun), parseChar, hst]
  | HeaderLF => exact runs_blockHeaderLF hst
  | HeaderEndCR => exact runs_blockHeaderEndCR hst
  | Done => exact absurd hst hopen

/-! ## The header is complete in one state only -/

section

variable (hopen : header.parseState ≠ .Done)
include hopen

theorem finishUri_open :
    header.finishUri.2.parseState ≠ .Done := by
  unfold finishUri
  split
  · exact hopen
  exact nofun

theorem finishVersion_open :
    header.finishVersion.2.parseState ≠ .Done := by
  unfold finishVersion
  simp only
  repeat' split
  all_goals first | exact hopen | exact nofun

theorem finishKey_open :
    header.finishKey.2.parseState ≠ .Done := by
  unfold finishKey
  split
  · exact hopen
  exact nofun

theorem commitParsedHeaderPair_open :
    header.commitParsedHeaderPair.2.parseState ≠ .Done := by
  unfold commitParsedHeaderPair
  simp only
  repeat' split
  all_goals exact hopen

theorem finishValue_open :
    header.finishValue.2.parseState ≠ .Done := by
  have hcommit := commitParsedHeaderPair_open hopen
  unfold finishValue
  split
  · exact nofun
  next heq =>
  rw [heq] at hcommit
  exact hcommit

theorem parseChar_done (c : UInt8) :
    (header.parseChar c).1 = .kIncomplete ↔ (header.parseChar c).2.parseState = .Done := by
  have hgo : ∀ {result : HttpErrorCode × HttpRequestHeader}, result.1 ≠ .kIncomplete →
      result.2.parseState ≠ .Done → (result.1 = .kIncomplete ↔ result.2.parseState = .Done) :=
    fun hcode hst => iff_of_false hcode hst
  unfold parseChar charMethod charMethodSP charUri charUriSP charVersion charLineFeed charVersionLF
    charHeaderKey charHeaderColon charHeaderSpace charHeaderValue charHeaderLF charHeaderEndCR
  simp only
  split
  all_goals
    repeat' split
  all_goals
    first
    | exact iff_of_true rfl rfl
    | exact hgo (finishUri_ne _) (finishUri_open hopen)
    | exact hgo (finishVersion_ne _) (finishVersion_open hopen)
    | exact hgo (finishKey_ne _) (finishKey_open hopen)
    | exact hgo (finishValue_ne _) (finishValue_open hopen)
    | exact iff_of_true rfl ‹_›
    | (refine hgo ?_ ?_ <;> first | exact hopen | exact nofun)

theorem blockChar_done (c : UInt8) :
    (header.blockChar c).1 = .kIncomplete ↔ (header.blockChar c).2.parseState = .Done := by
  unfold blockChar
  split
  · exact iff_of_false nofun ((parseState_appendHeaderKeyChunk ..).trans_ne hopen)
  exact parseChar_done hopen c

end

theorem open_parseChar : Open parseChar fun header => header.parseState ≠ .Done :=
  open_of_done parseChar_done

theorem open_blockChar : Open blockChar fun header => header.parseState ≠ .Done :=
  open_of_done blockChar_done

theorem parseBlock_fail (hopen : header.parseState ≠ .Done)
    (h : header.parseBlock data = .fail err header') : header'.parseState ≠ .Done := by
  have hres : ∀ {rest : Bytes} {result : HttpErrorCode × HttpRequestHeader},
      result.2.parseState ≠ .Done → Block.ofResult rest result = .fail err header' →
      header'.parseState ≠ .Done := by
    intro rest result hst heq
    rwa [(Block.ofResult_fail heq).1] at hst
  have hkey : ∀ chunk, (header.appendHeaderKeyChunk chunk).parseState ≠ .Done :=
    fun chunk => (parseState_appendHeaderKeyChunk ..).trans_ne hopen
  unfold parseBlock blockMethod blockMethodSP blockUri blockUriSP blockVersion blockLineFeed
    blockVersionLF blockHeaderKey blockHeaderColon blockHeaderSpace blockHeaderValue blockHeaderLF
    blockHeaderEndCR at h
  simp only at h
  split at h
  all_goals
    repeat' split at h
  all_goals
    first
    | (cases h; done)
    | (cases h; exact hopen)
    | (cases h; exact hkey _)
    | (refine hres ?_ h; exact finishUri_open hopen)
    | (refine hres ?_ h; exact finishVersion_open hopen)
    | (refine hres ?_ h; exact finishKey_open (hkey _))
    | (refine hres ?_ h; exact finishValue_open hopen)

theorem blocks_refines :
    blocks.Refines (react blockChar) fun header => header.parseState ≠ .Done where
  runs hopen _ := runs_parseBlock hopen
  next := open_blockChar.next_of_react
  fail hopen h := parseBlock_fail hopen h

/-! ## Both parsers -/

theorem failsSooner : Lib.FailsSooner (react parseChar) (react blockChar) LongKey :=
  keyReading.failsSooner

theorem fromString_reports (hopen : header.parseState ≠ .Done) (str : Bytes) :
    Reports (fun header => header.parseState ≠ .Done) (feed (react parseChar) header str)
      (.kNoError, 0) 0 (header.fromString str) := by
  rw [fromString, if_neg hopen]
  exact fromStringLoop_reports open_parseChar hopen 0 str

theorem fromIOVec_reports (hopen : header.parseState ≠ .Done) (iovecs : IoVecs) :
    Reports (fun header => header.parseState ≠ .Done)
      (feed (react blockChar) header iovecs.flatten)
      (.kIncomplete, iovecs.flatten.length) 0 (header.fromIOVec iovecs) := by
  have h := fromIOVecLoop_reports open_blockChar blocks_refines hopen 0 iovecs
  rw [Nat.zero_add] at h
  rw [fromIOVec, if_neg hopen]
  exact h

/-- Either both parsers complete the header, and then they report and leave the same, or none
does. -/
theorem fromString_fromIOVec (header : HttpRequestHeader) (iovecs : IoVecs) :
    (header.fromString iovecs.flatten).2.parseState = .Done ∧
        header.fromIOVec iovecs = header.fromString iovecs.flatten ∨
      (header.fromString iovecs.flatten).2.parseState ≠ .Done ∧
        (header.fromIOVec iovecs).2.parseState ≠ .Done := by
  by_cases hdone : header.parseState = .Done
  · rw [fromString, fromIOVec, if_pos hdone, if_pos hdone]
    exact .inl ⟨hdone, rfl⟩
  have hagree := (fromString_reports hdone iovecs.flatten).agree (fromIOVec_reports hdone iovecs)
    fun final n => failsSooner.feed_stopped_iff header final iovecs.flatten n
  rwa [not_not] at hagree

end HttpRequestHeader

end Galay.Http
