import Galay.Http.RequestHeaderBlocks
import Galay.Http.ResponseHeader

/-!
# Blocks of a response header are runs of characters

`blockChar` is `parseChar` without the length check on each character of a key, which the block
parser makes at the colon only. A turn of the block parser is a run of this machine.
-/

namespace Galay.Http

open Lib (feed)

namespace HttpResponseHeader

variable {header header' : HttpResponseHeader} {c : UInt8} {data : Bytes}

def blockChar (header : HttpResponseHeader) (c : UInt8) : HttpErrorCode × HttpResponseHeader :=
  if header.parseState = .HeaderKey ∧ c ≠ COLON ∧ c ≠ CR ∧ c ≠ LF then
    (.kNoError, header.appendHeaderKeyChunk [c])
  else header.parseChar c

theorem blockChar_eq (hst : header.parseState ≠ .HeaderKey) (c : UInt8) :
    header.blockChar c = header.parseChar c :=
  if_neg fun hkey => hst hkey.1

/-! ## Delimiters never complete a header -/

theorem finishVersion_ne (header : HttpResponseHeader) :
    header.finishVersion.1 ≠ .kIncomplete := by
  unfold finishVersion
  simp only
  split <;> exact nofun

theorem finishCode_ne (header : HttpResponseHeader) (next : ResponseParseState) :
    (header.finishCode next).1 ≠ .kIncomplete := by
  unfold finishCode
  split <;> exact nofun

theorem finishKey_ne (header : HttpResponseHeader) : header.finishKey.1 ≠ .kIncomplete := by
  unfold finishKey
  split <;> exact nofun

/-! ## One turn of the block parser -/

theorem runs_blockVersion (hst : header.parseState = .Version) :
    (header.blockVersion data).Runs (react blockChar) header data := by
  have hchar word c : blockChar { header with parseVersionStr := word } c =
      charVersion { header with parseVersionStr := word } c := by
    simp only [blockChar, parseChar, hst, reduceCtorEq, false_and, if_false]
  unfold blockVersion
  refine runs_collect (f := fun word => { header with parseVersionStr := word })
    (fun word c hc => ?_) fun c rest hc => ?_
  · simp only [Bool.and_eq_true, bne_iff_ne] at hc
    simp [hchar, charVersion, hc]
  rw [hchar, charVersion]
  by_cases hsp : c = SP
  · rw [if_neg (not_not.2 hsp), if_pos hsp]
    exact Block.ofResult_eq_ofChar (finishVersion_ne _)
  have hline : c = CR ∨ c = LF := by
    rw [or_iff_not_imp_left]
    simpa [hsp] using hc
  rw [if_pos hsp, if_neg hsp, if_pos hline]
  rfl

theorem runs_blockVersionSP (hst : header.parseState = .VersionSP) :
    (header.blockVersionSP data).Runs (react blockChar) header data := by
  have hchar c : header.blockChar c = header.charVersionSP c := by
    rw [blockChar_eq (hst.trans_ne nofun), parseChar, hst]
  refine runs_spaces ((hchar SP).trans (if_pos rfl)) fun c rest hc => ?_
  rw [hchar, charVersionSP, if_neg hc]
  simp only [Block.ofChar_ite]
  rfl

theorem runs_blockCode (hst : header.parseState = .Code) :
    (header.blockCode data).Runs (react blockChar) header data := by
  have hchar word c : blockChar { header with parseCodeStr := word } c =
      charCode { header with parseCodeStr := word } c := by
    simp only [blockChar, parseChar, hst, reduceCtorEq, false_and, if_false]
  unfold blockCode
  refine runs_collect (f := fun word => { header with parseCodeStr := word })
    (fun word c hc => ?_) fun c rest hc => ?_
  · simp only [Bool.and_eq_true, bne_iff_ne] at hc
    simp [hchar, charCode, hc]
  rw [hchar, charCode]
  by_cases hsp : c = SP
  · subst hsp
    exact Block.ofResult_eq_ofChar (finishCode_ne _ _)
  by_cases hcr : c = CR
  · subst hcr
    exact Block.ofResult_eq_ofChar (finishCode_ne _ _)
  have hlf : c = LF := by simpa [hsp, hcr] using hc
  rw [if_pos hlf, if_neg hsp, if_neg hcr, if_pos hlf]
  rfl

theorem runs_blockCodeSP (hst : header.parseState = .CodeSP) :
    (header.blockCodeSP data).Runs (react blockChar) header data := by
  have hchar c : header.blockChar c = header.charCodeSP c := by
    rw [blockChar_eq (hst.trans_ne nofun), parseChar, hst]
  refine runs_spaces ((hchar SP).trans (if_pos rfl)) fun c rest hc => ?_
  rw [hchar, charCodeSP, if_neg hc]
  simp only [Block.ofChar_ite]
  rfl

theorem runs_blockStatus (hst : header.parseState = .Status) :
    (header.blockStatus data).Runs (react blockChar) header data := by
  have hchar c : header.blockChar c = header.charStatus c := by
    rw [blockChar_eq (hst.trans_ne nofun), parseChar, hst]
  refine runs_skip (fun c hc => ?_) fun c rest hc => ?_
  · simp only [Bool.and_eq_true, bne_iff_ne] at hc
    rw [hchar, charStatus, if_neg hc.1, if_neg hc.2]
  rw [hchar, charStatus]
  by_cases hcr : c = CR
  · subst hcr
    rfl
  have hlf : c = LF := by simpa [hcr] using hc
  rw [if_pos hlf, if_neg hcr, if_pos hlf]
  rfl

theorem runs_blockLineFeed (hchar : ∀ c, header.blockChar c = header.charLineFeed next c) :
    (header.blockLineFeed next data).Runs (react blockChar) header data := by
  refine runs_char fun c rest => ?_
  simp only [hchar, charLineFeed, ite_not, Block.ofChar_ite]
  rfl

theorem runs_blockStatusLF (hst : header.parseState = .StatusLF) :
    (header.blockStatusLF data).Runs (react blockChar) header data := by
  refine runs_char fun c rest => ?_
  simp only [blockChar_eq (hst.trans_ne nofun), parseChar, hst, charStatusLF, Block.ofChar_ite]
  rfl

@[simp] theorem parseState_appendHeaderKeyChunk (header : HttpResponseHeader) (chunk : Bytes) :
    (header.appendHeaderKeyChunk chunk).parseState = header.parseState := by
  unfold appendHeaderKeyChunk
  split <;> rfl

/-- The key is too long, whatever comes. -/
def LongKey (header : HttpResponseHeader) : Prop :=
  header.parseState = .HeaderKey ∧ 256 < header.parseHeaderKey.length

def keyReading : KeyReading parseChar blockChar where
  inKey header := header.parseState = .HeaderKey
  size header := header.parseHeaderKey.length
  append := appendHeaderKeyChunk
  finish := finishKey
  inKey_append h chunk := (parseState_appendHeaderKeyChunk ..).trans h
  size_append header chunk := by
    unfold appendHeaderKeyChunk
    split <;> simp
  append_nil header := by
    unfold appendHeaderKeyChunk
    split <;> simp
  append_append header chunk chunk' := by
    unfold appendHeaderKeyChunk
    by_cases hmode : header.headerPairs.mode = .ServerSide
    · simp only [hmode, if_true, List.map_append, List.append_assoc]
    · simp only [hmode, if_false, List.append_assoc]
  char_eq {header} h c := by
    rw [parseChar, h]
    simp only [charHeaderKey, pushHeaderKeyChar, appendHeaderKeyChunk, normalizeHeaderKeyChar]
    by_cases hmode : header.headerPairs.mode = .ServerSide
    · simp only [hmode, if_true, List.map_cons, List.map_nil]
    · simp only [hmode, if_false]
  block_key h c hcolon hline := if_pos ⟨h, hcolon, not_or.1 hline⟩
  block_other h := if_neg fun hkey => (h hkey.1).elim hkey.2.1 (not_or.2 hkey.2.2)
  finish_ne := finishKey_ne
  finish_long h := ⟨_, if_pos h⟩

theorem runs_blockHeaderKey (hst : header.parseState = .HeaderKey) :
    (header.blockHeaderKey data).Runs (react blockChar) header data :=
  keyReading.runs hst

theorem runs_blockHeaderColon (hst : header.parseState = .HeaderColon) :
    (header.blockHeaderColon data).Runs (react blockChar) header data := by
  refine runs_char fun c rest => ?_
  simp only [blockChar_eq (hst.trans_ne nofun), parseChar, hst, charHeaderColon, Block.ofChar_ite]
  rfl

theorem runs_blockHeaderSpace (hst : header.parseState = .HeaderSpace) :
    (header.blockHeaderSpace data).Runs (react blockChar) header data := by
  have hchar c : header.blockChar c = header.charHeaderSpace c := by
    rw [blockChar_eq (hst.trans_ne nofun), parseChar, hst]
  refine runs_spaces ((hchar SP).trans (if_pos rfl)) fun c rest hc => ?_
  rw [hchar, charHeaderSpace, if_neg hc]
  simp only [Block.ofChar_ite]
  rfl

theorem runs_blockHeaderValue (hst : header.parseState = .HeaderValue) :
    (header.blockHeaderValue data).Runs (react blockChar) header data := by
  have hchar word c : blockChar { header with parseHeaderValue := word } c =
      charHeaderValue { header with parseHeaderValue := word } c := by
    simp only [blockChar, parseChar, hst, reduceCtorEq, false_and, if_false]
  refine runs_collect (f := fun word => { header with parseHeaderValue := word })
    (fun word c hc => ?_) fun c rest hc => ?_
  · exact (hchar word c).trans (if_neg (bne_iff_ne.1 hc))
  rw [hchar, charHeaderValue, if_pos (bne_eq_false_iff_eq.1 hc)]
  rfl

theorem runs_blockHeaderLF (hst : header.parseState = .HeaderLF) :
    (header.blockHeaderLF data).Runs (react blockChar) header data := by
  refine runs_char fun c rest => ?_
  simp only [blockChar_eq (hst.trans_ne nofun), parseChar, hst, charHeaderLF, Block.ofChar_ite]
  rfl

theorem runs_blockHeaderEndCR (hst : header.parseState = .HeaderEndCR) :
    (header.blockHeaderEndCR data).Runs (react blockChar) header data := by
  refine runs_char fun c rest => ?_
  simp only [blockChar_eq (hst.trans_ne nofun), parseChar, hst, charHeaderEndCR,
    ite_not, Block.ofChar_ite]
  rfl

theorem runs_parseBlock (hopen : header.parseState ≠ .Done) :
    (header.parseBlock data).Runs (react blockChar) header data := by
  unfold parseBlock
  cases hst : header.parseState with
  | Version => exact runs_blockVersion hst
  | VersionSP => exact runs_blockVersionSP hst
  | Code => exact runs_blockCode hst
  | CodeSP => exact runs_blockCodeSP hst
  | Status => exact runs_blockStatus hst
  | StatusCR =>
    refine runs_blockLineFeed fun c => ?_
    rw [blockChar_eq (hst.trans_ne nofun), parseChar, hst]
  | StatusLF => exact runs_blockStatusLF hst
  | HeaderKey => exact runs_blockHeaderKey hst
  | HeaderColon => exact runs_blockHeaderColon hst
  | HeaderSpace => exact runs_blockHeaderSpace hst
  | HeaderValue => exact runs_blockHeaderValue hst
  | HeaderCR =>
    refine runs_blockLineFeed fun c => ?_
    rw [blockChar_eq (hst.trans_ne nofun), parseChar, hst]
  | HeaderLF => exact runs_blockHeaderLF hst
  | HeaderEndCR => exact runs_blockHeaderEndCR hst
  | Done => exact absurd hst hopen

/-! ## The header is complete in one state only -/

theorem finishVersion_open (hopen : header.parseState ≠ .Done) :
    header.finishVersion.2.parseState ≠ .Done := by
  unfold finishVersion
  simp only
  split
  · exact hopen
  exact nofun

theorem finishCode_open (hopen : header.parseState ≠ .Done)
    (hnext : next ≠ .Done) : (header.finishCode next).2.parseState ≠ .Done := by
  unfold finishCode
  split
  · exact hopen
  exact hnext

theorem finishKey_open (hopen : header.parseState ≠ .Done) :
    header.finishKey.2.parseState ≠ .Done := by
  unfold finishKey
  split
  · exact hopen
  exact nofun

theorem parseState_pushHeaderKeyChar (header : HttpResponseHeader) (c : UInt8) :
    (header.pushHeaderKeyChar c).parseState = header.parseState := by
  unfold pushHeaderKeyChar
  split <;> rfl

theorem parseChar_done (hopen : header.parseState ≠ .Done) (c : UInt8) :
    (header.parseChar c).1 = .kIncomplete ↔ (header.parseChar c).2.parseState = .Done := by
  have hgo : ∀ {result : HttpErrorCode × HttpResponseHeader}, result.1 ≠ .kIncomplete →
      result.2.parseState ≠ .Done → (result.1 = .kIncomplete ↔ result.2.parseState = .Done) :=
    fun hcode hst => iff_of_false hcode hst
  unfold parseChar charVersion charVersionSP charCode charCodeSP charStatus charLineFeed charStatusLF
    charHeaderKey charHeaderColon charHeaderSpace charHeaderValue charHeaderLF charHeaderEndCR
  simp only
  split
  all_goals
    repeat' split
  all_goals
    first
    | exact iff_of_true rfl rfl
    | exact hgo (finishVersion_ne _) (finishVersion_open hopen)
    | (refine hgo (finishCode_ne _ _) (finishCode_open hopen ?_); exact nofun)
    | exact hgo (finishKey_ne _) (finishKey_open hopen)
    | (refine hgo ?_ ((parseState_pushHeaderKeyChar ..).trans_ne hopen); exact nofun)
    | exact iff_of_true rfl ‹_›
    | (refine hgo ?_ ?_ <;> first | exact hopen | exact nofun)

theorem blockChar_done (hopen : header.parseState ≠ .Done) (c : UInt8) :
    (header.blockChar c).1 = .kIncomplete ↔ (header.blockChar c).2.parseState = .Done := by
  unfold blockChar
  split
  · exact iff_of_false nofun ((parseState_appendHeaderKeyChunk ..).trans_ne hopen)
  exact parseChar_done hopen c

theorem open_parseChar : Open parseChar fun header => header.parseState ≠ .Done :=
  open_of_done parseChar_done

theorem open_blockChar : Open blockChar fun header => header.parseState ≠ .Done :=
  open_of_done blockChar_done

theorem parseBlock_fail (hopen : header.parseState ≠ .Done)
    (h : header.parseBlock data = .fail err header') : header'.parseState ≠ .Done := by
  have hres : ∀ {rest : Bytes} {result : HttpErrorCode × HttpResponseHeader},
      result.2.parseState ≠ .Done → Block.ofResult rest result = .fail err header' →
      header'.parseState ≠ .Done := by
    intro rest result hst heq
    rwa [(Block.ofResult_fail heq).1] at hst
  have hkey : ∀ chunk, (header.appendHeaderKeyChunk chunk).parseState ≠ .Done :=
    fun chunk => (parseState_appendHeaderKeyChunk ..).trans_ne hopen
  unfold parseBlock blockVersion blockVersionSP blockCode blockCodeSP blockStatus blockLineFeed
    blockStatusLF blockHeaderKey blockHeaderColon blockHeaderSpace blockHeaderValue blockHeaderLF
    blockHeaderEndCR at h
  simp only at h
  split at h
  all_goals
    repeat' split at h
  all_goals
    first
    | (cases h; done)
    | (cases h; exact hopen)
    | (cases h; exact hkey _)
    | (refine hres ?_ h; exact finishVersion_open hopen)
    | (refine hres ?_ h; refine finishCode_open hopen ?_; rintro ⟨⟩)
    | (refine hres ?_ h; exact finishKey_open (hkey _))

theorem blocks_refines :
    blocks.Refines (react blockChar) fun header => header.parseState ≠ .Done where
  runs hopen _ := runs_parseBlock hopen
  next := open_blockChar.next_of_react
  fail hopen h := parseBlock_fail hopen h

/-! ## Both parsers -/

theorem failsSooner : Lib.FailsSooner (react parseChar) (react blockChar) LongKey :=
  keyReading.failsSooner

theorem fromString_reports (hopen : header.parseState ≠ .Done) (str : Bytes) :
    Reports (fun header => header.parseState ≠ .Done) (feed (react parseChar) header str)
      (.kNoError, 0) 0 (header.fromString str) := by
  rw [fromString, if_neg hopen]
  exact fromStringLoop_reports open_parseChar hopen 0 str

theorem fromIOVec_reports (hopen : header.parseState ≠ .Done) (iovecs : IoVecs) :
    Reports (fun header => header.parseState ≠ .Done)
      (feed (react blockChar) header iovecs.flatten)
      (.kIncomplete, iovecs.flatten.length) 0 (header.fromIOVec iovecs) := by
  have h := fromIOVecLoop_reports open_blockChar blocks_refines hopen 0 iovecs
  rw [Nat.zero_add] at h
  rw [fromIOVec, if_neg hopen]
  exact h

/-- Either both parsers complete the header, and then they report and leave the same, or none
does. -/
theorem fromString_fromIOVec (header : HttpResponseHeader) (iovecs : IoVecs) :
    (header.fromString iovecs.flatten).2.parseState = .Done ∧
        header.fromIOVec iovecs = header.fromString iovecs.flatten ∨
      (header.fromString iovecs.flatten).2.parseState ≠ .Done ∧
        (header.fromIOVec iovecs).2.parseState ≠ .Done := by
  by_cases hdone : header.parseState = .Done
  · rw [fromString, fromIOVec, if_pos hdone, if_pos hdone]
    exact .inl ⟨hdone, rfl⟩
  have hagree := (fromString_reports hdone iovecs.flatten).agree (fromIOVec_reports hdone iovecs)
    fun final n => failsSooner.feed_stopped_iff header final iovecs.flatten n
  rwa [not_not] at hagree

end HttpResponseHeader

end Galay.Http

/-!
# The two parsers of a header agree

The character parser gives up on a key of more than 256 characters at its first character too
many, the block parser at the colon. In between neither can complete the header.
-/

namespace Galay.Http

/-- Both parsers complete a header after the same number of bytes with the same contents, or
neither does, however the bytes are cut for the block parser. -/
theorem header_parsers_agree :
    (∀ (header : HttpRequestHeader) (iovecs : IoVecs),
      let (report, chars) := header.fromString iovecs.flatten
      let (report', blocks) := header.fromIOVec iovecs
      (chars.parseState = .Done ∧ blocks.parseState = .Done ∧ report' = report ∧
        blocks.method = chars.method ∧ blocks.uri = chars.uri ∧ blocks.argList = chars.argList ∧
        blocks.version = chars.version ∧ blocks.headerPairs = chars.headerPairs) ∨
      (chars.parseState ≠ .Done ∧ blocks.parseState ≠ .Done)) ∧
    (∀ (header : HttpResponseHeader) (iovecs : IoVecs),
      let (report, chars) := header.fromString iovecs.flatten
      let (report', blocks) := header.fromIOVec iovecs
      (chars.parseState = .Done ∧ blocks.parseState = .Done ∧ report' = report ∧
        blocks.version = chars.version ∧ blocks.code = chars.code ∧
        blocks.headerPairs = chars.headerPairs) ∨
      (chars.parseState ≠ .Done ∧ blocks.parseState ≠ .Done)) := by
  constructor
  · intro header iovecs
    rcases header.fromString_fromIOVec iovecs with ⟨hdone, heq⟩ | hopen
    · rw [heq]
      exact .inl ⟨hdone, hdone, rfl, rfl, rfl, rfl, rfl, rfl⟩
    · exact .inr hopen
  intro header iovecs
  rcases header.fromString_fromIOVec iovecs with ⟨hdone, heq⟩ | hopen
  · rw [heq]
    exact .inl ⟨hdone, hdone, rfl, rfl, rfl, rfl⟩
  · exact .inr hopen

end Galay.Http
