import Galay.Http.RequestFields

/-!
# What a parsed request header holds

The invariant of a header while the parsers read it, from a new header to a complete one.
-/

namespace Galay.Http.HttpRequestHeader

open List
open Lib (feed)

variable {header header' : HttpRequestHeader}

/-! ## The invariant -/

/-- A header before anything was parsed into it. -/
structure Blank (header : HttpRequestHeader) : Prop where
  state : header.parseState = .Method
  uri : header.uri = []
  argList : header.argList = ∅
  fields : header.headerPairs = { mode := header.headerPairs.mode }
  method : header.parseMethodStr = []
  target : header.parseUriStr = []
  version : header.parseVersionStr = []
  key : header.parseHeaderKey = []
  value : header.parseHeaderValue = []
  seen : header.hasContentLength = false

/-- No header line has been begun. -/
def NoLine (header : HttpRequestHeader) : Prop :=
  header.parseHeaderKey = [] ∧ header.parseHeaderValue = []

def TargetRead (header : HttpRequestHeader) : Prop :=
  ∃ fullUri, fullUri ≠ [] ∧ header.uri = (splitTarget fullUri).1 ∧
    header.argList = (splitTarget fullUri).2

def LineRead (header : HttpRequestHeader) : Prop :=
  TargetRead header ∧
    (header.version = .HttpVersion_1_0 ∨ header.version = .HttpVersion_1_1)

/-- A key that is being read. -/
structure KeyHead (header : HttpRequestHeader) : Prop where
  head : ∃ c rest, header.parseHeaderKey = c :: rest ∧ c ≠ CR ∧
    ∀ d ∈ rest, d ≠ COLON ∧ d ≠ CR ∧ d ≠ LF
  lower : header.headerPairs.mode = .ServerSide →
    toLowerAscii header.parseHeaderKey = header.parseHeaderKey

/-- A key that has been read. -/
structure KeyDone (header : HttpRequestHeader) : Prop extends KeyHead header where
  length : header.parseHeaderKey.length ≤ 256
  idx : header.headerPairs.mode = .ServerSide →
    header.currentCommonHeaderIdx = matchCommonHeader header.parseHeaderKey

/-- What each state of the parsers has read. -/
def PhaseOk (header : HttpRequestHeader) : Prop :=
  match header.parseState with
  | .Method | .MethodSP =>
    header.uri = [] ∧ header.argList = ∅ ∧ header.parseUriStr = [] ∧ NoLine header
  | .Uri => header.uri = [] ∧ header.argList = ∅ ∧ header.parseUriStr ≠ [] ∧ NoLine header
  | .UriSP | .Version => TargetRead header ∧ NoLine header
  | .VersionCR | .VersionLF | .HeaderCR | .HeaderLF | .HeaderEndCR | .Done =>
    LineRead header ∧ NoLine header
  | .HeaderKey => LineRead header ∧ KeyHead header ∧ header.parseHeaderValue = []
  | .HeaderColon | .HeaderSpace =>
    LineRead header ∧ KeyDone header ∧ header.parseHeaderValue = []
  | .HeaderValue => LineRead header ∧ KeyDone header ∧ ValueOk header.parseHeaderValue ∧
      header.parseHeaderValue ≠ []

structure Parsing (header : HttpRequestHeader) : Prop where
  fields : FieldsOk header.headerPairs
  phase : PhaseOk header

theorem FieldsOk_empty (mode : HeaderMode) : FieldsOk { mode } := by
  refine ⟨⟨AList.lookup_empty _, fun _ _ => AList.lookup_empty _,
    fun _ _ _ => AList.lookup_empty _⟩, ?_⟩
  intro key value hfield
  rw [fieldAt] at hfield
  split at hfield
  · rw [AList.lookup_empty] at hfield
    cases hfield
  rw [AList.lookup_empty] at hfield
  cases hfield

theorem Blank.parsing (B : Blank header) : Parsing header where
  fields := by
    rw [B.fields]
    exact FieldsOk_empty _
  phase := by
    rw [PhaseOk, B.state]
    exact ⟨B.uri, B.argList, B.target, B.key, B.value⟩

/-! ## Delimiters -/

theorem finishUri_eq {fullUri : Bytes} (huri : header.uri = []) (hargs : header.argList = ∅)
    (h : convertFromUri false header.parseUriStr = some fullUri) :
    header.finishUri = (.kNoError, { header with
      uri := (splitTarget fullUri).1
      argList := (splitTarget fullUri).2
      uriDecodeError := false
      parseState := .UriSP }) := by
  rw [finishUri, h]
  simp only [parseArgs, splitTarget]
  by_cases hmark : 0x3f ∈ fullUri
  · simp only [if_pos hmark, hargs]
    split <;> rfl
  simp only [if_neg hmark, huri, if_true, hargs]

theorem storeHeaderPair_headerPairs (hidx : header.headerPairs.mode = .ServerSide →
      header.currentCommonHeaderIdx = matchCommonHeader header.parseHeaderKey) :
    header.storeHeaderPair.headerPairs =
      storePair header.headerPairs (header.parseHeaderKey, header.parseHeaderValue) := by
  rcases mode_cases header.headerPairs.mode with hserver | hclient
  · simp only [storeHeaderPair, storePair, hserver, hidx hserver]
  simp only [storeHeaderPair, storePair, hclient]

theorem commit_cases (h : header.commitParsedHeaderPair = (.kNoError, header')) :
    ∃ count seen length, header' = storeHeaderPair { header with
      headerCount := count, hasContentLength := seen, contentLengthValue := length } := by
  rw [commitParsedHeaderPair] at h
  simp only at h
  split at h
  · cases h
  split at h
  · cases h
  split at h
  · split at h
    · cases h
    split at h
    · cases h
    cases h
    exact ⟨_, _, _, rfl⟩
  cases h
  exact ⟨_, _, _, rfl⟩

theorem Parsing.finishValue (hfields : FieldsOk header.headerPairs) (hline : LineRead header)
    (hkey : KeyDone header) (hval : ValueOk header.parseHeaderValue)
    (h : header.finishValue = (.kNoError, header')) : Parsing header' := by
  rw [HttpRequestHeader.finishValue] at h
  split at h
  · rename_i stored hcommit
    cases h
    obtain ⟨count, seen, length, rfl⟩ := commit_cases hcommit
    refine ⟨?_, hline, rfl, rfl⟩
    have hsto := @storeHeaderPair_headerPairs { header with
      headerCount := count, hasContentLength := seen, contentLengthValue := length } hkey.idx
    rw [hsto]
    obtain ⟨c, rest, hhead⟩ := hkey.head
    exact hfields.store ⟨⟨c, rest, hhead⟩, hkey.length⟩ hval hkey.lower
  rename_i hcode _
  cases h
  exact (hcode rfl).elim

/-! ## Characters -/

/-- A character that is taken. -/
def Taken (code : HttpErrorCode) : Prop := code = .kNoError ∨ code = .kIncomplete

theorem eq_of_taken
    (hcode : Taken code) (h : result = (code, header')) (hne : result.1 ≠ .kIncomplete) :
    result = (.kNoError, header') := by
  subst h
  rcases hcode with rfl | rfl
  · rfl
  exact absurd rfl hne

section

variable {c : UInt8} {code : HttpErrorCode}

section

variable (P : Parsing header)
include P

theorem Parsing.charMethod (hst : header.parseState = .Method) (hcode : Taken code)
    (h : header.charMethod c = (code, header')) : Parsing header' := by
  have hph := P.phase
  rw [PhaseOk, hst] at hph
  rw [HttpRequestHeader.charMethod] at h
  split at h
  · cases h
    exact ⟨P.fields, hph⟩
  split at h
  · cases h
    rcases hcode with hcode | hcode <;> cases hcode
  cases h
  refine ⟨P.fields, ?_⟩
  rw [PhaseOk]
  simp only [hst]
  exact hph

theorem Parsing.charMethodSP (hst : header.parseState = .MethodSP) (hcode : Taken code)
    (h : header.charMethodSP c = (code, header')) : Parsing header' := by
  have hph := P.phase
  rw [PhaseOk, hst] at hph
  rw [HttpRequestHeader.charMethodSP] at h
  split at h
  · cases h
    exact P
  split at h
  · cases h
    rcases hcode with hcode | hcode <;> cases hcode
  simp only at h
  split at h
  · cases h
    rcases hcode with hcode | hcode <;> cases hcode
  cases h
  obtain ⟨huri, hargs, -, hline⟩ := hph
  exact ⟨P.fields, huri, hargs, append_ne_nil_of_right_ne_nil _ (cons_ne_nil _ _), hline⟩

theorem Parsing.charUri (hst : header.parseState = .Uri) (hcode : Taken code)
    (h : header.charUri c = (code, header')) : Parsing header' := by
  have hph := P.phase
  rw [PhaseOk, hst] at hph
  obtain ⟨huri, hargs, htarget, hline⟩ := hph
  rw [HttpRequestHeader.charUri] at h
  split at h
  · cases hdecoded : convertFromUri false header.parseUriStr with
    | none =>
      rw [finishUri, hdecoded] at h
      cases h
      rcases hcode with hcode | hcode <;> cases hcode
    | some fullUri =>
    rw [finishUri_eq huri hargs hdecoded] at h
    cases h
    exact ⟨P.fields, ⟨fullUri, convertFromUri_ne_nil htarget hdecoded, rfl, rfl⟩, hline⟩
  split at h
  · cases h
    rcases hcode with hcode | hcode <;> cases hcode
  simp only at h
  split at h
  · cases h
    rcases hcode with hcode | hcode <;> cases hcode
  cases h
  refine ⟨P.fields, ?_⟩
  rw [PhaseOk]
  simp only [hst]
  exact ⟨huri, hargs, append_ne_nil_of_left_ne_nil htarget _, hline⟩

theorem Parsing.charUriSP (hst : header.parseState = .UriSP) (hcode : Taken code)
    (h : header.charUriSP c = (code, header')) : Parsing header' := by
  have hph := P.phase
  rw [PhaseOk, hst] at hph
  rw [HttpRequestHeader.charUriSP] at h
  split at h
  · cases h
    exact P
  split at h
  · cases h
    rcases hcode with hcode | hcode <;> cases hcode
  cases h
  exact ⟨P.fields, hph⟩

theorem Parsing.charVersion (hst : header.parseState = .Version) (hcode : Taken code)
    (h : header.charVersion c = (code, header')) : Parsing header' := by
  have hph := P.phase
  rw [PhaseOk, hst] at hph
  rw [HttpRequestHeader.charVersion] at h
  split at h
  · rw [finishVersion] at h
    simp only at h
    split at h
    · cases h
      rcases hcode with hcode | hcode <;> cases hcode
    split at h
    · cases h
      rcases hcode with hcode | hcode <;> cases hcode
    rename_i hver
    cases h
    refine ⟨P.fields, ⟨hph.1, ?_⟩, hph.2⟩
    by_cases h10 : stringToHttpVersion header.parseVersionStr = .HttpVersion_1_0
    · exact .inl h10
    exact .inr (not_not.1 fun h11 => hver ⟨h10, h11⟩)
  split at h
  · cases h
    rcases hcode with hcode | hcode <;> cases hcode
  cases h
  refine ⟨P.fields, ?_⟩
  rw [PhaseOk]
  simp only [hst]
  exact hph

theorem Parsing.charLineFeed {next : RequestParseState} (hline : LineRead header ∧ NoLine header)
    (hnext : next = .VersionLF ∨ next = .HeaderLF) (hcode : Taken code)
    (h : header.charLineFeed next c = (code, header')) : Parsing header' := by
  rw [HttpRequestHeader.charLineFeed] at h
  split at h
  · cases h
    rcases hnext with rfl | rfl <;> exact ⟨P.fields, hline⟩
  cases h
  rcases hcode with hcode | hcode <;> cases hcode

end

theorem toLowerAscii_normalized (hmode : mode = .ServerSide) (c : UInt8) :
    toLowerAscii [normalizeHeaderKeyChar c mode] = [normalizeHeaderKeyChar c mode] := by
  rw [normalizeHeaderKeyChar, if_pos hmode]
  exact congrArg (· :: []) (toLowerAsciiChar_toLowerAsciiChar c)

theorem normalizeHeaderKeyChar_ne
    (hd : d = COLON ∨ d = CR ∨ d = LF) (hc : c ≠ d) : normalizeHeaderKeyChar c mode ≠ d := by
  rw [normalizeHeaderKeyChar]
  split
  · exact toLowerAsciiChar_ne hd hc
  exact hc

section

variable (P : Parsing header)
include P

theorem Parsing.firstKeyChar (hline : LineRead header ∧ NoLine header) (hc : c ≠ CR) :
    Parsing { header with
      parseHeaderKey :=
        header.parseHeaderKey ++ [normalizeHeaderKeyChar c header.headerPairs.mode]
      parseState := .HeaderKey } := by
  obtain ⟨hread, hkey, hval⟩ := hline
  refine ⟨P.fields, hread, ⟨⟨normalizeHeaderKeyChar c header.headerPairs.mode, [], ?_, ?_, ?_⟩,
    ?_⟩, hval⟩
  · simp only [hkey]
    rfl
  · exact normalizeHeaderKeyChar_ne (.inr (.inl rfl)) hc
  · exact fun _ => nofun
  intro hmode
  simp only [hkey]
  exact toLowerAscii_normalized hmode c

theorem Parsing.charVersionLF (hst : header.parseState = .VersionLF) (hcode : Taken code)
    (h : header.charVersionLF c = (code, header')) : Parsing header' := by
  have hph := P.phase
  rw [PhaseOk, hst] at hph
  rw [HttpRequestHeader.charVersionLF] at h
  split at h
  · cases h
    exact ⟨P.fields, hph⟩
  rename_i hcr
  split at h
  · cases h
    rcases hcode with hcode | hcode <;> cases hcode
  cases h
  exact P.firstKeyChar hph hcr

theorem Parsing.charHeaderLF (hst : header.parseState = .HeaderLF)
    (h : header.charHeaderLF c = (code, header')) : Parsing header' := by
  have hph := P.phase
  rw [PhaseOk, hst] at hph
  rw [HttpRequestHeader.charHeaderLF] at h
  split at h
  · cases h
    exact ⟨P.fields, hph⟩
  rename_i hcr
  cases h
  exact P.firstKeyChar hph hcr

section

variable (hst : header.parseState = .HeaderKey)

include hst

theorem Parsing.keyChar (hcolon : c ≠ COLON) (hcr : c ≠ CR) (hlf : c ≠ LF) : Parsing { header with
      parseHeaderKey :=
        header.parseHeaderKey ++ [normalizeHeaderKeyChar c header.headerPairs.mode] } := by
  have hph := P.phase
  rw [PhaseOk, hst] at hph
  obtain ⟨hread, hkey, hval⟩ := hph
  obtain ⟨first, rest, hhead, hfirst, hrest⟩ := hkey.head
  refine ⟨P.fields, ?_⟩
  rw [PhaseOk]
  simp only [hst]
  refine ⟨hread, ⟨⟨first, rest ++ [normalizeHeaderKeyChar c header.headerPairs.mode], ?_, hfirst, ?_⟩,
    ?_⟩, hval⟩
  · simp only [hhead]
    rfl
  · intro d hmem
    rcases List.mem_append.1 hmem with hmem | hmem
    · exact hrest d hmem
    rw [List.mem_singleton.1 hmem]
    exact ⟨normalizeHeaderKeyChar_ne (.inl rfl) hcolon,
      normalizeHeaderKeyChar_ne (.inr (.inl rfl)) hcr,
      normalizeHeaderKeyChar_ne (.inr (.inr rfl)) hlf⟩
  intro hmode
  have happend : toLowerAscii (header.parseHeaderKey ++
      [normalizeHeaderKeyChar c header.headerPairs.mode]) =
      toLowerAscii header.parseHeaderKey ++
        toLowerAscii [normalizeHeaderKeyChar c header.headerPairs.mode] := map_append
  rw [happend, hkey.lower hmode, toLowerAscii_normalized hmode c]

theorem Parsing.finishKey (hcode : Taken code)
    (h : header.finishKey = (code, header')) : Parsing header' := by
  have hph := P.phase
  rw [PhaseOk, hst] at hph
  obtain ⟨hread, hkey, hval⟩ := hph
  rw [HttpRequestHeader.finishKey] at h
  split at h
  · cases h
    rcases hcode with hcode | hcode <;> cases hcode
  rename_i hlen
  rcases mode_cases header.headerPairs.mode with hserver | hclient
  · simp only [hserver, if_true] at h
    cases h
    exact ⟨P.fields, hread, ⟨⟨hkey.head, hkey.lower⟩, Nat.le_of_not_lt hlen, fun _ => rfl⟩, hval⟩
  simp only [hclient, reduceCtorEq, if_false] at h
  cases h
  refine ⟨P.fields, hread, ⟨⟨hkey.head, hkey.lower⟩, Nat.le_of_not_lt hlen, fun hserver => ?_⟩, hval⟩
  simp only [hclient] at hserver
  cases hserver

theorem Parsing.charHeaderKey (hcode : Taken code)
    (h : header.charHeaderKey c = (code, header')) : Parsing header' := by
  rw [HttpRequestHeader.charHeaderKey] at h
  split at h
  · exact P.finishKey hst hcode h
  rename_i hcolon
  split at h
  · cases h
    rcases hcode with hcode | hcode <;> cases hcode
  rename_i hend
  obtain ⟨hcr, hlf⟩ := not_or.1 hend
  split at h
  · cases h
    rcases hcode with hcode | hcode <;> cases hcode
  have hkey := P.keyChar hst hcolon hcr hlf
  split at h
  · rename_i hmode
    cases h
    rw [normalizeHeaderKeyChar, if_pos hmode] at hkey
    exact hkey
  cases h
  exact hkey

end

theorem Parsing.firstValueChar
    (hph : LineRead header ∧ KeyDone header ∧ header.parseHeaderValue = []) (hsp : c ≠ SP)
    (hcr : c ≠ CR) : Parsing { header with
      parseHeaderValue := header.parseHeaderValue ++ [c], parseState := .HeaderValue } := by
  obtain ⟨hread, hkey, hval⟩ := hph
  refine ⟨P.fields, hread, ⟨⟨hkey.head, hkey.lower⟩, hkey.length, hkey.idx⟩, ?_, ?_⟩
  · simp only [hval, nil_append]
    refine ⟨fun h => hsp (Option.some.inj h), ?_⟩
    rw [mem_singleton]
    exact Ne.symm hcr
  exact append_ne_nil_of_right_ne_nil _ (cons_ne_nil _ _)

end

theorem ValueOk.nil : ValueOk [] := ⟨nofun, not_mem_nil⟩

section

variable (P : Parsing header)
include P

theorem Parsing.charHeaderColon (hst : header.parseState = .HeaderColon) (hcode : Taken code)
    (h : header.charHeaderColon c = (code, header')) : Parsing header' := by
  have hph := P.phase
  rw [PhaseOk, hst] at hph
  rw [HttpRequestHeader.charHeaderColon] at h
  split at h
  · cases h
    exact ⟨P.fields, hph.1, ⟨⟨hph.2.1.head, hph.2.1.lower⟩, hph.2.1.length, hph.2.1.idx⟩, hph.2.2⟩
  rename_i hsp
  split at h
  · have hok := eq_of_taken hcode h (finishValue_ne header)
    refine Parsing.finishValue P.fields hph.1 hph.2.1 ?_ hok
    rw [hph.2.2]
    exact ValueOk.nil
  rename_i hcr
  cases h
  exact P.firstValueChar hph hsp hcr

theorem Parsing.charHeaderSpace (hst : header.parseState = .HeaderSpace) (hcode : Taken code)
    (h : header.charHeaderSpace c = (code, header')) : Parsing header' := by
  have hph := P.phase
  rw [PhaseOk, hst] at hph
  rw [HttpRequestHeader.charHeaderSpace] at h
  split at h
  · cases h
    exact P
  rename_i hsp
  split at h
  · have hok := eq_of_taken hcode h (finishValue_ne header)
    refine Parsing.finishValue P.fields hph.1 hph.2.1 ?_ hok
    rw [hph.2.2]
    exact ValueOk.nil
  rename_i hcr
  cases h
  exact P.firstValueChar hph hsp hcr

theorem Parsing.charHeaderValue (hst : header.parseState = .HeaderValue) (hcode : Taken code)
    (h : header.charHeaderValue c = (code, header')) : Parsing header' := by
  have hph := P.phase
  rw [PhaseOk, hst] at hph
  obtain ⟨hread, hkey, hval, hne⟩ := hph
  rw [HttpRequestHeader.charHeaderValue] at h
  split at h
  · have hok := eq_of_taken hcode h (finishValue_ne header)
    exact Parsing.finishValue P.fields hread hkey hval hok
  rename_i hcr
  cases h
  refine ⟨P.fields, ?_⟩
  rw [PhaseOk]
  simp only [hst]
  refine ⟨hread, ⟨⟨hkey.head, hkey.lower⟩, hkey.length, hkey.idx⟩, ⟨?_, ?_⟩,
    append_ne_nil_of_left_ne_nil hne _⟩
  · rw [head?_append_of_ne_nil _ hne]
    exact hval.head
  rw [mem_append, mem_singleton]
  exact fun hmem => hmem.elim hval.end_ (Ne.symm hcr)

theorem Parsing.charHeaderEndCR (hst : header.parseState = .HeaderEndCR) (hcode : Taken code)
    (h : header.charHeaderEndCR c = (code, header')) : Parsing header' := by
  have hph := P.phase
  rw [PhaseOk, hst] at hph
  rw [HttpRequestHeader.charHeaderEndCR] at h
  split at h
  · cases h
    exact ⟨P.fields, hph⟩
  cases h
  rcases hcode with hcode | hcode <;> cases hcode

theorem Parsing.parseChar (hcode : Taken code) (h : header.parseChar c = (code, header')) :
    Parsing header' := by
  have hph := P.phase
  rw [HttpRequestHeader.parseChar.eq_def] at h
  cases hst : header.parseState with
  | Method => rw [hst] at h; exact P.charMethod hst hcode h
  | MethodSP => rw [hst] at h; exact P.charMethodSP hst hcode h
  | Uri => rw [hst] at h; exact P.charUri hst hcode h
  | UriSP => rw [hst] at h; exact P.charUriSP hst hcode h
  | Version => rw [hst] at h; exact P.charVersion hst hcode h
  | VersionCR =>
    rw [PhaseOk, hst] at hph
    rw [hst] at h
    exact P.charLineFeed hph (.inl rfl) hcode h
  | VersionLF => rw [hst] at h; exact P.charVersionLF hst hcode h
  | HeaderKey => rw [hst] at h; exact P.charHeaderKey hst hcode h
  | HeaderColon => rw [hst] at h; exact P.charHeaderColon hst hcode h
  | HeaderSpace => rw [hst] at h; exact P.charHeaderSpace hst hcode h
  | HeaderValue => rw [hst] at h; exact P.charHeaderValue hst hcode h
  | HeaderCR =>
    rw [PhaseOk, hst] at hph
    rw [hst] at h
    exact P.charLineFeed hph (.inr rfl) hcode h
  | HeaderLF => rw [hst] at h; exact P.charHeaderLF hst h
  | HeaderEndCR => rw [hst] at h; exact P.charHeaderEndCR hst hcode h
  | Done =>
  rw [hst] at h
  cases h
  exact P

theorem Parsing.blockChar (hcode : Taken code) (h : header.blockChar c = (code, header')) :
    Parsing header' := by
  rw [HttpRequestHeader.blockChar] at h
  split at h
  · rename_i hkey
    obtain ⟨hst, hcolon, hcr, hlf⟩ := hkey
    have hnext := P.keyChar hst hcolon hcr hlf
    cases h
    rw [appendHeaderKeyChunk]
    split
    · rename_i hmode
      rw [normalizeHeaderKeyChar, if_pos hmode] at hnext
      exact hnext
    rename_i hmode
    rw [normalizeHeaderKeyChar, if_neg hmode] at hnext
    exact hnext
  exact P.parseChar hcode h

end

end

/-! ## Calls -/

/-- What the calls of both parsers make of a header that nothing was parsed into, as long as none of
them fails. -/
inductive Parses : HttpRequestHeader → Prop
  | blank {header : HttpRequestHeader} (h : Blank header) : Parses header
  | fromString {header : HttpRequestHeader} (str : Bytes) (h : Parses header)
      (hcode : (header.fromString str).1.1 = .kNoError) : Parses (header.fromString str).2
  | fromIOVec {header : HttpRequestHeader} (iovecs : IoVecs) (h : Parses header)
      (hcode : Taken (header.fromIOVec iovecs).1.1) : Parses (header.fromIOVec iovecs).2

theorem taken_of_reaction (h : reaction step = .next header' ∨ reaction step = .stop header') :
    ∃ code, Taken code ∧ step = (code, header') := by
  rcases h with h | h
  · exact ⟨_, .inl rfl, reaction_next h⟩
  exact ⟨_, .inr rfl, reaction_stop h⟩

/-- A run that does not fail keeps what each character keeps. -/
theorem parsing_of_reports (hchar : ∀ {header header' c code}, Parsing header → Taken code →
      char header c = (code, header') → Parsing header') {data : Bytes} (P : Parsing header)
    (h : Reports (fun header => header.parseState ≠ .Done) (feed (react char) header data) more 0
      result) (hcode : Taken result.1.1) : Parsing result.2 := by
  have hnext : ∀ {header c header'}, Parsing header → react char header c = .next header' →
      Parsing header' := by
    intro header c header' P h
    obtain ⟨code, htaken, hstep⟩ := taken_of_reaction (.inl h)
    exact hchar P htaken hstep
  cases hfeed : feed (react char) header data with
  | more next =>
    rw [hfeed] at h
    obtain ⟨-, rfl⟩ := h
    exact Lib.feed_more_invariant hnext P hfeed
  | stopped next n =>
    rw [hfeed] at h
    obtain ⟨-, rfl⟩ := h
    obtain ⟨front, c, back, before, -, -, -, hbefore, hstop⟩ :=
      Lib.feed_stopped_invariant hnext P hfeed
    obtain ⟨code, htaken, hstep⟩ := taken_of_reaction (.inr hstop)
    exact hchar hbefore htaken hstep
  | failed err =>
  rw [hfeed] at h
  obtain ⟨next, -, rfl⟩ := h
  obtain ⟨hok, hmore⟩ := code_of_failed hfeed
  rcases hcode with hcode | hcode
  · exact absurd hcode hok
  exact absurd hcode hmore

theorem Parses.parsing (h : Parses header) : Parsing header := by
  induction h with
  | blank B => exact B.parsing
  | @fromString header str h hcode ih =>
    by_cases hdone : header.parseState = .Done
    · rw [HttpRequestHeader.fromString, if_pos hdone]
      exact ih
    exact parsing_of_reports Parsing.parseChar ih (fromString_reports hdone str) (.inl hcode)
  | @fromIOVec header iovecs h hcode ih =>
  by_cases hdone : header.parseState = .Done
  · rw [HttpRequestHeader.fromIOVec, if_pos hdone]
    exact ih
  exact parsing_of_reports Parsing.blockChar ih (fromIOVec_reports hdone iovecs) hcode

end Galay.Http.HttpRequestHeader
