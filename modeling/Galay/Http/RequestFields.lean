import Galay.Http.RequestLines
import Galay.Http.RequestTarget

/-!
# The fields of a request there and back

The lines that are written for the fields of a header are stored as the same fields.
-/

namespace Galay.Http

open List
open HttpRequestHeader (storePair mode_storePair PairOk)

/-! ## One field -/

/-- The value of a key in the form the parsers leave it. -/
def fieldAt (pairs : HeaderPair) (key : Bytes) : Option Bytes :=
  if pairs.mode = .ServerSide ∧ matchCommonHeader key ≠ .NotCommon then
    pairs.commonHeaders.lookup (matchCommonHeader key)
  else pairs.headerPairs.lookup key

/-- Every field is where its key is looked for. -/
structure Tidy (pairs : HeaderPair) : Prop where
  notCommon : pairs.commonHeaders.lookup .NotCommon = none
  client : pairs.mode = .ClientSide → ∀ idx, pairs.commonHeaders.lookup idx = none
  uncommon : pairs.mode = .ServerSide → ∀ key, matchCommonHeader key ≠ .NotCommon →
    pairs.headerPairs.lookup key = none

/-- Two headers with the same bindings. -/
structure SameFields (pairs pairs' : HeaderPair) : Prop where
  mode : pairs'.mode = pairs.mode
  common : ∀ idx, pairs'.commonHeaders.lookup idx = pairs.commonHeaders.lookup idx
  uncommon : ∀ key, pairs'.headerPairs.lookup key = pairs.headerPairs.lookup key

theorem mode_cases (mode : HeaderMode) : mode = .ServerSide ∨ mode = .ClientSide := by
  cases mode with
  | ServerSide => exact .inl rfl
  | ClientSide => exact .inr rfl

theorem fieldAt_client (hmode : pairs.mode = .ClientSide) :
    fieldAt pairs key = pairs.headerPairs.lookup key := by
  rw [fieldAt, if_neg]
  rintro ⟨hserver, -⟩
  rw [hmode] at hserver
  cases hserver

theorem fieldAt_common (hmode : pairs.mode = .ServerSide)
    (hcommon : matchCommonHeader key ≠ .NotCommon) :
    fieldAt pairs key = pairs.commonHeaders.lookup (matchCommonHeader key) :=
  if_pos ⟨hmode, hcommon⟩

theorem fieldAt_uncommon (hcommon : matchCommonHeader key = .NotCommon) :
    fieldAt pairs key = pairs.headerPairs.lookup key :=
  if_neg fun h => h.2 hcommon

theorem Tidy.sameFields (T : Tidy pairs) (T' : Tidy pairs') (hmode : pairs'.mode = pairs.mode)
    (h : ∀ key, fieldAt pairs' key = fieldAt pairs key) : SameFields pairs pairs' := by
  rcases mode_cases pairs.mode with hserver | hclient
  · refine ⟨hmode, ?_, ?_⟩
    · intro idx
      by_cases hidx : idx = .NotCommon
      · rw [hidx, T.notCommon, T'.notCommon]
      have hname := matchCommonHeader_name hidx
      have hcommon : matchCommonHeader (getCommonHeaderName idx) ≠ .NotCommon := by
        rw [hname]
        exact hidx
      have hfield := h (getCommonHeaderName idx)
      rw [fieldAt_common (hmode.trans hserver) hcommon, fieldAt_common hserver hcommon,
        hname] at hfield
      exact hfield
    intro key
    by_cases hcommon : matchCommonHeader key = .NotCommon
    · have hfield := h key
      rwa [fieldAt_uncommon hcommon, fieldAt_uncommon hcommon] at hfield
    rw [T.uncommon hserver key hcommon, T'.uncommon (hmode.trans hserver) key hcommon]
  refine ⟨hmode, ?_, ?_⟩
  · intro idx
    rw [T.client hclient, T'.client (hmode.trans hclient)]
  intro key
  have hfield := h key
  rwa [fieldAt_client (hmode.trans hclient), fieldAt_client hclient] at hfield

/-! ## Storing -/

/-- The key under which a pair is stored. -/
def storedKey (mode : HeaderMode) (key : Bytes) : Bytes :=
  match mode with
  | .ServerSide => key
  | .ClientSide => toCanonicalHeaderKey key

/-- The value that is stored: a server joins the values of a repeated key. -/
def storedValue (pairs : HeaderPair) (pair : Bytes × Bytes) : Bytes :=
  match pairs.mode, fieldAt pairs pair.1 with
  | .ServerSide, some present => present ++ ascii ", " ++ pair.2
  | _, _ => pair.2

theorem storePair_common (hmode : pairs.mode = .ServerSide)
    (hcommon : matchCommonHeader key ≠ .NotCommon) :
    storePair pairs (key, value) =
      { pairs with commonHeaders :=
        pairs.commonHeaders.insert (matchCommonHeader key) (storedValue pairs (key, value)) } := by
  have hfield : fieldAt pairs key = pairs.commonHeaders.lookup (matchCommonHeader key) :=
    fieldAt_common hmode hcommon
  simp only [storePair, hmode, if_pos hcommon, HeaderPair.setCommonHeader, storedValue, hfield]
  cases pairs.commonHeaders.lookup (matchCommonHeader key) with
  | none => simp only
  | some present => simp only

theorem storePair_uncommon (hmode : pairs.mode = .ServerSide)
    (hcommon : matchCommonHeader key = .NotCommon) :
    storePair pairs (key, value) =
      { pairs with
        headerPairs := pairs.headerPairs.insert key (storedValue pairs (key, value)) } := by
  have hfield : fieldAt pairs key = pairs.headerPairs.lookup key := fieldAt_uncommon hcommon
  simp only [storePair, hmode, hcommon, ne_eq, not_true, if_false,
    HeaderPair.mergeNormalizedUncommonHeaderPair, storedValue, hfield]
  cases pairs.headerPairs.lookup key with
  | none => simp only
  | some present => simp only

theorem storePair_client (hmode : pairs.mode = .ClientSide) :
    storePair pairs (key, value) =
      { pairs with headerPairs := pairs.headerPairs.insert (toCanonicalHeaderKey key) value } := by
  simp only [storePair, hmode, HeaderPair.addHeaderPair]

theorem Tidy.store (T : Tidy pairs) : Tidy (storePair pairs (key, value)) := by
  rcases mode_cases pairs.mode with hserver | hclient
  · have hclient : pairs.mode ≠ .ClientSide := by
      rw [hserver]
      exact nofun
    by_cases hcommon : matchCommonHeader key = .NotCommon
    · rw [storePair_uncommon hserver hcommon]
      refine ⟨T.notCommon, fun h => absurd h hclient, fun _ other hother => ?_⟩
      have hne : other ≠ key := by
        rintro rfl
        exact hother hcommon
      exact (AList.lookup_insert_ne hne).trans (T.uncommon hserver other hother)
    rw [storePair_common hserver hcommon]
    refine ⟨?_, fun h => absurd h hclient, T.uncommon⟩
    exact (AList.lookup_insert_ne (Ne.symm hcommon)).trans T.notCommon
  rw [storePair_client hclient]
  refine { T with uncommon := fun hserver => ?_ }
  rw [hclient] at hserver
  cases hserver

theorem fieldAt_storePair (other : Bytes) :
    fieldAt (storePair pairs (key, value)) other =
      if other = storedKey pairs.mode key then some (storedValue pairs (key, value))
      else fieldAt pairs other := by
  rcases mode_cases pairs.mode with hserver | hclient
  · have hkey : storedKey pairs.mode key = key := by rw [hserver]; rfl
    rw [hkey]
    by_cases hcommon : matchCommonHeader key = .NotCommon
    · rw [storePair_uncommon hserver hcommon]
      by_cases heq : other = key
      · subst heq
        rw [if_pos rfl, fieldAt_uncommon hcommon]
        exact AList.lookup_insert _
      rw [if_neg heq, fieldAt, fieldAt]
      split
      · rfl
      exact AList.lookup_insert_ne heq
    rw [storePair_common hserver hcommon]
    by_cases heq : other = key
    · subst heq
      rw [if_pos rfl]
      exact (if_pos ⟨hserver, hcommon⟩).trans (AList.lookup_insert _)
    rw [if_neg heq, fieldAt, fieldAt]
    split
    · rename_i hother
      refine AList.lookup_insert_ne ?_
      intro hidx
      rw [← getCommonHeaderName_match hother.2, hidx, getCommonHeaderName_match hcommon] at heq
      exact heq rfl
    rfl
  have hkey : storedKey pairs.mode key = toCanonicalHeaderKey key := by rw [hclient]; rfl
  have hval : storedValue pairs (key, value) = value := by simp only [storedValue, hclient]
  rw [hkey, hval, storePair_client hclient]
  have hfield := @fieldAt_client
    { pairs with headerPairs := pairs.headerPairs.insert (toCanonicalHeaderKey key) value }
    other hclient
  rw [hfield]
  split
  · rename_i heq
    rw [heq]
    exact AList.lookup_insert _
  rename_i heq
  rw [fieldAt_client hclient]
  exact AList.lookup_insert_ne heq

/-! ## Fields as the parsers leave them -/

structure FieldsOk (pairs : HeaderPair) : Prop extends Tidy pairs where
  pairOk : ∀ key value, fieldAt pairs key = some value → PairOk pairs.mode (key, value)

theorem toUpperAsciiChar_ne (hd : d = COLON ∨ d = CR ∨ d = LF) (hc : c ≠ d) :
    toUpperAsciiChar c ≠ d := by
  rw [toUpperAsciiChar]
  split
  · rename_i h
    rintro rfl
    obtain ⟨hlow, hhigh⟩ := h
    simp only [UInt8.le_iff_toNat_le, UInt8.toNat_ofNat] at hlow hhigh
    rcases hd with hd | hd | hd <;>
    · have := congrArg UInt8.toNat hd
      simp only [UInt8.toNat_sub, COLON, CR, LF, UInt8.toNat_ofNat] at this
      omega
  exact hc

theorem toLowerAsciiChar_ne (hd : d = COLON ∨ d = CR ∨ d = LF) (hc : c ≠ d) :
    toLowerAsciiChar c ≠ d := by
  rw [toLowerAsciiChar]
  split
  · rename_i h
    rintro rfl
    obtain ⟨hlow, hhigh⟩ := h
    simp only [UInt8.le_iff_toNat_le, UInt8.toNat_ofNat] at hlow hhigh
    rcases hd with hd | hd | hd <;>
    · have := congrArg UInt8.toNat hd
      simp only [UInt8.toNat_add, COLON, CR, LF, UInt8.toNat_ofNat] at this
      omega
  exact hc

theorem length_toCanonicalHeaderKeyFrom (start : Bool) (key : Bytes) :
    (toCanonicalHeaderKeyFrom start key).length = key.length := by
  induction key generalizing start with
  | nil => rfl
  | cons c key ih => rw [toCanonicalHeaderKeyFrom, length_cons, length_cons, ih]

theorem notMem_toCanonicalHeaderKeyFrom (hd : d = COLON ∨ d = CR ∨ d = LF)
    (hkey : d ∉ key) : d ∉ toCanonicalHeaderKeyFrom start key := by
  induction key generalizing start with
  | nil => exact hkey
  | cons c key ih =>
  rw [mem_cons, not_or] at hkey
  rw [toCanonicalHeaderKeyFrom, mem_cons, not_or]
  refine ⟨?_, ih hkey.2⟩
  split
  · exact Ne.symm (toUpperAsciiChar_ne hd (Ne.symm hkey.1))
  exact Ne.symm (toLowerAsciiChar_ne hd (Ne.symm hkey.1))

theorem toUpperAsciiChar_toUpperAsciiChar (c : UInt8) :
    toUpperAsciiChar (toUpperAsciiChar c) = toUpperAsciiChar c := by
  by_cases h : 0x61 ≤ c ∧ c ≤ 0x7a
  · have hupper : toUpperAsciiChar c = c - 0x20 := if_pos h
    rw [hupper, toUpperAsciiChar, if_neg]
    rintro ⟨hlow, -⟩
    simp only [UInt8.le_iff_toNat_le, UInt8.toNat_sub, UInt8.toNat_ofNat] at h hlow
    omega
  have hupper : toUpperAsciiChar c = c := if_neg h
  rw [hupper, hupper]

theorem toLowerAsciiChar_toLowerAsciiChar (c : UInt8) :
    toLowerAsciiChar (toLowerAsciiChar c) = toLowerAsciiChar c :=
  toLowerAsciiChar_of_not_upper (toLowerAsciiChar_not_upper c)

theorem toCanonicalHeaderKeyFrom_idem (start : Bool) (key : Bytes) :
    toCanonicalHeaderKeyFrom start (toCanonicalHeaderKeyFrom start key) =
      toCanonicalHeaderKeyFrom start key := by
  induction key generalizing start with
  | nil => rfl
  | cons c key ih =>
  have hchar : (if start = true then toUpperAsciiChar (if start = true then toUpperAsciiChar c
        else toLowerAsciiChar c)
      else toLowerAsciiChar (if start = true then toUpperAsciiChar c else toLowerAsciiChar c)) =
      if start = true then toUpperAsciiChar c else toLowerAsciiChar c := by
    cases start with
    | true => exact toUpperAsciiChar_toUpperAsciiChar c
    | false => exact toLowerAsciiChar_toLowerAsciiChar c
  simp only [toCanonicalHeaderKeyFrom, hchar, ih]

theorem KeyOk.canonical (h : KeyOk key) : KeyOk (toCanonicalHeaderKey key) := by
  obtain ⟨c, rest, rfl, hc, hrest⟩ := h.head
  refine ⟨⟨toUpperAsciiChar c, _, rfl, toUpperAsciiChar_ne (.inr (.inl rfl)) hc, ?_⟩, ?_⟩
  · intro d hmem
    have hnot {e : UInt8} (he : e = COLON ∨ e = CR ∨ e = LF) (hne : ∀ d ∈ rest, d ≠ e) : d ≠ e := by
      rintro rfl
      exact notMem_toCanonicalHeaderKeyFrom he (fun h => hne d h rfl) hmem
    exact ⟨hnot (.inl rfl) fun d hd => (hrest d hd).1, hnot (.inr (.inl rfl)) fun d hd => (hrest d hd).2.1,
      hnot (.inr (.inr rfl)) fun d hd => (hrest d hd).2.2⟩
  rw [toCanonicalHeaderKey, length_toCanonicalHeaderKeyFrom]
  exact h.length

theorem ValueOk.join (hpresent : ValueOk present) (hval : ValueOk value) :
    ValueOk (present ++ ascii ", " ++ value) := by
  refine ⟨?_, ?_⟩
  · cases present with
    | nil => exact nofun
    | cons c present => exact hpresent.head
  simp only [mem_append, not_or]
  exact ⟨⟨hpresent.end_, by decide⟩, hval.end_⟩

/-- What a parser stores is as it leaves it. -/
theorem FieldsOk.store (F : FieldsOk pairs) (hkey : KeyOk key) (hval : ValueOk value)
    (hlower : pairs.mode = .ServerSide → toLowerAscii key = key) :
    FieldsOk (storePair pairs (key, value)) := by
  refine ⟨F.toTidy.store, ?_⟩
  intro other found hfound
  rw [mode_storePair]
  rw [fieldAt_storePair] at hfound
  split at hfound
  · rename_i heq
    cases hfound
    subst heq
    rcases mode_cases pairs.mode with hserver | hclient
    · rw [hserver]
      refine ⟨hkey, ?_, hlower hserver⟩
      rw [storedValue]
      split
      · rename_i hpresent
        exact (F.pairOk _ _ hpresent).value.join hval
      exact hval
    have hsto : storedValue pairs (key, value) = value := by simp only [storedValue, hclient]
    rw [hsto, hclient]
    exact ⟨hkey.canonical, hval, toCanonicalHeaderKeyFrom_idem true key⟩
  exact F.pairOk other found hfound

/-! ## The lines of the fields -/

/-- The pairs in the order in which `appendTo` writes them. -/
def fieldLines (pairs : HeaderPair) : List (Bytes × Bytes) :=
  pairs.commonPairs ++ pairs.headerPairs.pairs

theorem appendTo_eq_headerLines (pairs : HeaderPair) (out : Bytes) :
    pairs.appendTo out ++ [CR, LF] = out ++ HttpRequestHeader.headerLines (fieldLines pairs) := by
  rw [HeaderPair.appendTo, foldl_headerLine, foldl_headerLine, HttpRequestHeader.headerLines,
    fieldLines, map_append, flatten_append]
  simp only [append_assoc]

theorem Tidy.mem_fieldLines (T : Tidy pairs) :
    (key, value) ∈ fieldLines pairs ↔ fieldAt pairs key = some value := by
  rw [fieldLines, mem_append, mem_commonPairs, StringMap.mem_pairs]
  rcases mode_cases pairs.mode with hserver | hclient
  · by_cases hcommon : matchCommonHeader key = .NotCommon
    · rw [fieldAt_uncommon hcommon]
      refine ⟨fun h => h.resolve_left ?_, .inr⟩
      rintro ⟨idx, hidx, rfl, -⟩
      rw [matchCommonHeader_name hidx] at hcommon
      exact hidx hcommon
    rw [fieldAt_common hserver hcommon, T.uncommon hserver key hcommon]
    constructor
    · rintro (⟨idx, hidx, rfl, hlook⟩ | hnone)
      · rwa [matchCommonHeader_name hidx]
      cases hnone
    exact fun hlook => .inl ⟨_, hcommon, getCommonHeaderName_match hcommon, hlook⟩
  rw [fieldAt_client hclient]
  refine ⟨fun h => h.resolve_left ?_, .inr⟩
  rintro ⟨idx, -, -, hlook⟩
  rw [T.client hclient] at hlook
  cases hlook

theorem Tidy.nodup_fieldLines (T : Tidy pairs) : ((fieldLines pairs).map Prod.fst).Nodup := by
  rw [fieldLines, map_append, nodup_append]
  refine ⟨nodup_commonPairs pairs, StringMap.nodup_pairs _, ?_⟩
  rintro key hkey other hother rfl
  obtain ⟨⟨key', value⟩, hmem, rfl⟩ := List.mem_map.1 hkey
  obtain ⟨⟨other, value'⟩, hmem', hother⟩ := List.mem_map.1 hother
  obtain ⟨idx, hidx, hname, hlook⟩ := mem_commonPairs.1 hmem
  have hlook' := StringMap.mem_pairs.1 hmem'
  cases hother
  rcases mode_cases pairs.mode with hserver | hclient
  · rw [T.uncommon hserver] at hlook'
    · cases hlook'
    rw [← hname, matchCommonHeader_name hidx]
    exact hidx
  rw [T.client hclient] at hlook
  cases hlook

theorem storedKey_of_normal (h : NormalKey mode key) : storedKey mode key = key := by
  cases mode with
  | ServerSide => rfl
  | ClientSide => exact h

theorem foldl_storePair {lines : List (Bytes × Bytes)}
    (hnormal : ∀ pair ∈ lines, NormalKey pairs.mode pair.1) (hnodup : (lines.map Prod.fst).Nodup)
    (hfresh : ∀ pair ∈ lines, fieldAt pairs pair.1 = none) (T : Tidy pairs) :
    Tidy (lines.foldl storePair pairs) ∧ (lines.foldl storePair pairs).mode = pairs.mode ∧
      (∀ key value, (key, value) ∈ lines → fieldAt (lines.foldl storePair pairs) key = some value) ∧
      ∀ key, key ∉ lines.map Prod.fst →
        fieldAt (lines.foldl storePair pairs) key = fieldAt pairs key := by
  induction lines generalizing pairs with
  | nil => exact ⟨T, rfl, fun _ _ => nofun, fun _ _ => rfl⟩
  | cons pair lines ih =>
  obtain ⟨key, value⟩ := pair
  rw [map_cons, nodup_cons] at hnodup
  have hkey : storedKey pairs.mode key = key :=
    storedKey_of_normal (hnormal _ (mem_cons_self ..))
  have hnone : fieldAt pairs key = none := hfresh _ (mem_cons_self ..)
  have hval : storedValue pairs (key, value) = value := by
    rw [storedValue]
    split
    · rename_i hpresent
      rw [hnone] at hpresent
      cases hpresent
    rfl
  have hfield (other : Bytes) : fieldAt (storePair pairs (key, value)) other =
      if other = key then some value else fieldAt pairs other := by
    rw [fieldAt_storePair, hkey, hval]
  have hne {other : Bytes} (hother : other ∈ lines.map Prod.fst) : other ≠ key := by
    rintro rfl
    exact hnodup.1 hother
  have hnormal' : ∀ pair ∈ lines, NormalKey (storePair pairs (key, value)).mode pair.1 := by
    intro pair hmem
    rw [mode_storePair]
    exact hnormal pair (mem_cons_of_mem _ hmem)
  have hfresh' : ∀ pair ∈ lines, fieldAt (storePair pairs (key, value)) pair.1 = none := by
    intro pair hmem
    rw [hfield, if_neg (hne (mem_map_of_mem hmem))]
    exact hfresh pair (mem_cons_of_mem _ hmem)
  obtain ⟨htidy, hmode, hsto, hkept⟩ := ih hnormal' hnodup.2 hfresh' T.store
  refine ⟨htidy, hmode.trans (mode_storePair ..), ?_, ?_⟩
  · intro other found hmem
    rcases List.mem_cons.1 hmem with heq | hmem
    · cases heq
      exact (hkept key hnodup.1).trans ((hfield key).trans (if_pos rfl))
    exact hsto other found hmem
  intro other hother
  rw [map_cons, mem_cons, not_or] at hother
  exact (hkept other hother.2).trans ((hfield other).trans (if_neg hother.1))

theorem FieldsOk.comes_back (F : FieldsOk pairs) :
    SameFields pairs ((fieldLines pairs).foldl storePair { mode := pairs.mode }) := by
  have hempty (key : Bytes) : fieldAt { mode := pairs.mode } key = none := by
    rw [fieldAt]
    split <;> exact AList.lookup_empty _
  have T : Tidy { mode := pairs.mode } :=
    ⟨AList.lookup_empty _, fun _ _ => AList.lookup_empty _, fun _ _ _ => AList.lookup_empty _⟩
  have hnormal : ∀ pair ∈ fieldLines pairs,
      NormalKey ({ mode := pairs.mode } : HeaderPair).mode pair.1 := by
    rintro ⟨key, value⟩ hmem
    exact (F.pairOk key value (F.toTidy.mem_fieldLines.1 hmem)).normal
  obtain ⟨htidy, hmode, hsto, hkept⟩ :=
    foldl_storePair hnormal F.toTidy.nodup_fieldLines (fun pair _ => hempty pair.1) T
  refine F.toTidy.sameFields htidy hmode ?_
  intro key
  cases hfield : fieldAt pairs key with
  | some value => exact hsto key value (F.toTidy.mem_fieldLines.2 hfield)
  | none =>
  refine (hkept key ?_).trans (hempty key)
  intro hmem
  obtain ⟨⟨key', value⟩, hpair, rfl⟩ := List.mem_map.1 hmem
  rw [F.toTidy.mem_fieldLines.1 hpair] at hfield
  cases hfield

theorem SameFields.fieldLines_eq (h : SameFields pairs pairs') :
    fieldLines pairs' = fieldLines pairs := by
  have hcommon : pairs'.commonPairs = pairs.commonPairs := by
    simp only [HeaderPair.commonPairs, h.common]
  rw [fieldLines, fieldLines, hcommon, StringMap.pairs_congr h.uncommon]

end Galay.Http
