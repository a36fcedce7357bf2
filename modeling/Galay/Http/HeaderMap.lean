import Galay.Http.HeaderPairs

/-!
# A `HeaderPair` is one map

Names that differ in the case of their letters are one key, whether the field is in the array of
common headers or in the map. What breaks this is that `addHeaderPair` appends to a common header
that is present, where it is documented to replace the value and does so for other names.
-/

namespace Galay.Http

open Function (update update_eq_self update_of_ne update_self)
open List

/-! ## The map -/

/-- The values by the names in lower case. -/
abbrev FieldMap := Bytes → Option Bytes

/-- A call that changes the fields. -/
inductive HeaderCall
  | addHeaderPair (key value : Bytes)
  | addHeaderPairIfNotExist (key value : Bytes)
  | addNormalizedHeaderPair (key value : Bytes)
  | removeHeaderPair (key : Bytes)
  | clear

namespace HeaderCall

/-- What a call is documented to do to the map. -/
def onMap (map : FieldMap) : HeaderCall → FieldMap
  | .addHeaderPair key value => Function.update map (toLowerAscii key) (some value)
  | .addHeaderPairIfNotExist key value =>
    if (map (toLowerAscii key)).isSome then map
    else Function.update map (toLowerAscii key) (some value)
  | .addNormalizedHeaderPair key value => Function.update map (toLowerAscii key) (some value)
  | .removeHeaderPair key => Function.update map (toLowerAscii key) none
  | .clear => fun _ => none

/-- What a call does to the fields. -/
def onPairs (pairs : HeaderPair) : HeaderCall → HeaderPair
  | .addHeaderPair key value => pairs.addHeaderPair key value
  | .addHeaderPairIfNotExist key value => (pairs.addHeaderPairIfNotExist key value).2
  | .addNormalizedHeaderPair key value => pairs.addNormalizedHeaderPair key value
  | .removeHeaderPair key => pairs.removeHeaderPair key
  | .clear => pairs.clear

end HeaderCall

/-- All ways to look at the fields show the map. -/
structure Describes (pairs : HeaderPair) (map : FieldMap) : Prop where
  hasKey : ∀ key, pairs.hasKey key = (map (toLowerAscii key)).isSome
  getValue : ∀ key, pairs.getValue key = (map (toLowerAscii key)).getD []
  nodup : (pairs.forEachHeader.map Prod.fst).Nodup
  mem_forEachHeader : ∀ key value, (key, value) ∈ pairs.forEachHeader ↔ map key = some value
  toString : pairs.toString = (pairs.forEachHeader.map HeaderPair.headerLine).flatten

/-! ## Names -/

theorem toLowerAsciiChar_of_not_upper (h : ¬ (0x41 ≤ ch ∧ ch ≤ 0x5a)) :
    toLowerAsciiChar ch = ch := if_neg h

theorem toLowerAsciiChar_not_upper (ch : UInt8) :
    ¬ (0x41 ≤ toLowerAsciiChar ch ∧ toLowerAsciiChar ch ≤ 0x5a) := by
  unfold toLowerAsciiChar
  split
  · next h =>
    obtain ⟨hlow, hhigh⟩ := h
    simp only [UInt8.le_iff_toNat_le, UInt8.toNat_add, UInt8.toNat_ofNat] at hlow hhigh ⊢
    omega
  next h => exact h

theorem hasUpperAscii_eq_false : hasUpperAscii key = false ↔
    ∀ ch ∈ key, ¬ (0x41 ≤ ch ∧ ch ≤ 0x5a) := by
  simp [hasUpperAscii]

theorem toLowerAscii_of_not_upper (h : hasUpperAscii key = false) : toLowerAscii key = key := by
  refine (map_congr_left fun ch hmem => ?_).trans (map_id key)
  exact toLowerAsciiChar_of_not_upper (hasUpperAscii_eq_false.1 h ch hmem)

theorem hasUpperAscii_toLowerAscii (key : Bytes) : hasUpperAscii (toLowerAscii key) = false := by
  rw [hasUpperAscii_eq_false]
  intro ch hmem
  obtain ⟨ch', -, rfl⟩ := List.mem_map.1 hmem
  exact toLowerAsciiChar_not_upper ch'

theorem toLowerAscii_eq_self_iff : toLowerAscii key = key ↔ hasUpperAscii key = false :=
  ⟨fun h => h ▸ hasUpperAscii_toLowerAscii key, toLowerAscii_of_not_upper⟩

theorem toLowerAscii_toLowerAscii (key : Bytes) :
    toLowerAscii (toLowerAscii key) = toLowerAscii key :=
  toLowerAscii_of_not_upper (hasUpperAscii_toLowerAscii key)

/-- The key that all calls work with. -/
theorem normalized_eq (key : Bytes) :
    (if hasUpperAscii key then toLowerAscii key else key) = toLowerAscii key := by
  split
  · rfl
  next h => exact (toLowerAscii_of_not_upper ((Bool.not_eq_true _).mp h)).symm

theorem matchCommonHeader_name (h : idx ≠ .NotCommon) :
    matchCommonHeader (getCommonHeaderName idx) = idx := by
  cases idx <;> first | decide | exact absurd rfl h

theorem match_cases_cons (hname : getCommonHeaderName idx = name)
    (hrest : rest = .NotCommon ∨ getCommonHeaderName rest = key) :
    (if key = name then idx else rest) = .NotCommon ∨
      getCommonHeaderName (if key = name then idx else rest) = key := by
  split
  · next hkey => exact .inr (hname.trans hkey.symm)
  exact hrest

theorem match_cases (key : Bytes) :
    matchCommonHeader key = .NotCommon ∨ getCommonHeaderName (matchCommonHeader key) = key := by
  unfold matchCommonHeader
  iterate 15 refine match_cases_cons rfl ?_
  exact .inl rfl

theorem getCommonHeaderName_match (h : matchCommonHeader key ≠ .NotCommon) :
    getCommonHeaderName (matchCommonHeader key) = key :=
  (match_cases key).resolve_left h

theorem hasUpperAscii_name (idx : CommonHeaderIndex) :
    hasUpperAscii (getCommonHeaderName idx) = false := by
  cases idx <;> decide

theorem match_of_upper (h : hasUpperAscii key = true) : matchCommonHeader key = .NotCommon := by
  by_contra hcommon
  have hname := hasUpperAscii_name (matchCommonHeader key)
  rw [getCommonHeaderName_match hcommon, h] at hname
  cases hname

/-! ## The fields hold the map -/

/-- Every key of the map is in the place where the calls look for it. -/
structure Refines (pairs : HeaderPair) (map : FieldMap) : Prop where
  mode : pairs.mode = .ServerSide
  notCommon : pairs.commonHeaders.lookup .NotCommon = none
  common : ∀ idx, idx ≠ .NotCommon →
    pairs.commonHeaders.lookup idx = map (getCommonHeaderName idx)
  uncommon : ∀ key, pairs.headerPairs.lookup key =
    if matchCommonHeader key = .NotCommon then map key else none
  lower : ∀ key value, map key = some value → toLowerAscii key = key

section Refines

variable {pairs : HeaderPair} {map : FieldMap}

theorem Refines.map_of_upper (h : Refines pairs map)
    (hupper : hasUpperAscii key = true) : map key = none := by
  cases hmap : map key with
  | none => rfl
  | some value =>
  rw [toLowerAscii_eq_self_iff.1 (h.lower key value hmap)] at hupper
  cases hupper

/-- The map is asked for the name in lower case. -/
theorem Refines.findHeaderPairIter (h : Refines pairs map) (key : Bytes) :
    pairs.findHeaderPairIter key =
      if (pairs.headerPairs.lookup (toLowerAscii key)).isSome then some (toLowerAscii key)
      else none := by
  unfold HeaderPair.findHeaderPairIter
  simp only [h.mode]
  cases hupper : hasUpperAscii key with
  | false =>
    rw [toLowerAscii_of_not_upper hupper]
    rfl
  | true =>
  have hnone := h.uncommon key
  rw [if_pos (match_of_upper hupper), h.map_of_upper hupper] at hnone
  rw [hnone]
  rfl

theorem Refines.getValuePtr (h : Refines pairs map) (key : Bytes) :
    pairs.getValuePtr key = map (toLowerAscii key) := by
  unfold HeaderPair.getValuePtr
  rw [h.mode]
  dsimp only
  rw [normalized_eq]
  split
  · next hguard => rw [h.common _ hguard.2, getCommonHeaderName_match hguard.2]
  next hguard =>
  have hlook := h.uncommon (toLowerAscii key)
  rw [if_pos (not_not.1 fun hcommon => hguard ⟨rfl, hcommon⟩)] at hlook
  rw [h.findHeaderPairIter, hlook]
  cases hmap : map (toLowerAscii key) with
  | none => rfl
  | some value =>
  rw [hmap] at hlook
  exact hlook

/-! ### Changes of one key -/

section

variable (h : Refines pairs map)
include h

theorem Refines.lower_update (change : Option Bytes) (other found : Bytes)
    (hfound : update map (toLowerAscii key) change other = some found) :
    toLowerAscii other = other := by
  by_cases hother : other = toLowerAscii key
  · subst hother
    exact toLowerAscii_toLowerAscii key
  rw [update_of_ne hother] at hfound
  exact h.lower other found hfound

theorem Refines.setCommon {common : AList fun _ : CommonHeaderIndex => Bytes}
    (hcommon : matchCommonHeader (toLowerAscii key) ≠ .NotCommon)
    (hself : common.lookup (matchCommonHeader (toLowerAscii key)) = change)
    (hother : ∀ idx, idx ≠ matchCommonHeader (toLowerAscii key) → common.lookup idx = pairs.commonHeaders.lookup idx)
    : Refines ⟨.ServerSide, common, pairs.headerPairs⟩ (update map (toLowerAscii key) change) where
  mode := rfl
  notCommon := (hother _ hcommon.symm).trans h.notCommon
  common idx hidx := by
    by_cases heq : idx = matchCommonHeader (toLowerAscii key)
    · subst heq
      rw [hself, getCommonHeaderName_match hcommon, update_self]
    have hname : getCommonHeaderName idx ≠ toLowerAscii key := by
      intro hname
      rw [← hname, matchCommonHeader_name hidx] at heq
      exact heq rfl
    rw [hother idx heq, update_of_ne hname]
    exact h.common idx hidx
  uncommon other := by
    rw [h.uncommon other]
    split
    · next hnot =>
      have hne : other ≠ toLowerAscii key := by
        rintro rfl
        exact hcommon hnot
      rw [update_of_ne hne]
    rfl
  lower := h.lower_update change

theorem Refines.setUncommon (hnot : matchCommonHeader (toLowerAscii key) = .NotCommon)
    (hself : others.lookup (toLowerAscii key) = change)
    (hother : ∀ other, other ≠ toLowerAscii key → others.lookup other = pairs.headerPairs.lookup other)
    : Refines ⟨.ServerSide, pairs.commonHeaders, others⟩
      (update map (toLowerAscii key) change) where
  mode := rfl
  notCommon := h.notCommon
  common idx hidx := by
    have hname : getCommonHeaderName idx ≠ toLowerAscii key := by
      intro hname
      rw [← hname, matchCommonHeader_name hidx] at hnot
      exact hidx hnot
    rw [update_of_ne hname]
    exact h.common idx hidx
  uncommon other := by
    by_cases heq : other = toLowerAscii key
    · subst heq
      rw [if_pos hnot, update_self]
      exact hself
    rw [update_of_ne heq]
    exact (hother other heq).trans (h.uncommon other)
  lower := h.lower_update change

theorem Refines.hasKey (key : Bytes) :
    pairs.hasKey key = (map (toLowerAscii key)).isSome := by
  unfold HeaderPair.hasKey
  rw [h.getValuePtr]

theorem Refines.addHeaderPair
    (hclean : matchCommonHeader (toLowerAscii key) ≠ .NotCommon → pairs.hasKey key = false) :
    Refines (pairs.addHeaderPair key value)
      (update map (toLowerAscii key) (some value)) := by
  unfold HeaderPair.addHeaderPair
  rw [h.mode]
  dsimp only
  rw [normalized_eq]
  split
  · next hcommon =>
    have habsent : pairs.commonHeaders.lookup (matchCommonHeader (toLowerAscii key)) = none := by
      have hnone := hclean hcommon
      rw [h.hasKey, Option.isSome_eq_false_iff, Option.isNone_iff_eq_none] at hnone
      rw [h.common _ hcommon, getCommonHeaderName_match hcommon, hnone]
    unfold HeaderPair.setCommonHeader
    rw [habsent, h.mode]
    exact h.setCommon hcommon (AList.lookup_insert _) fun idx hidx => AList.lookup_insert_ne hidx
  next hcommon =>
  exact h.setUncommon (not_not.1 hcommon) (AList.lookup_insert _)
    fun other hother => AList.lookup_insert_ne hother

theorem Refines.addHeaderPairIfNotExist :
    Refines (pairs.addHeaderPairIfNotExist key value).2
      (HeaderCall.onMap map (.addHeaderPairIfNotExist key value)) := by
  unfold HeaderPair.addHeaderPairIfNotExist HeaderCall.onMap
  rw [h.mode]
  dsimp only
  rw [normalized_eq]
  by_cases hcommon : matchCommonHeader (toLowerAscii key) = .NotCommon
  · have hlook := h.uncommon (toLowerAscii key)
    rw [if_pos hcommon] at hlook
    rw [if_neg (not_not.2 hcommon), hlook]
    cases hmap : map (toLowerAscii key) with
    | some present => exact h
    | none =>
    exact h.setUncommon hcommon (AList.lookup_insert _)
      fun other hother => AList.lookup_insert_ne hother
  have hlook := h.common _ hcommon
  rw [getCommonHeaderName_match hcommon] at hlook
  rw [if_pos hcommon]
  unfold HeaderPair.hasCommonHeader HeaderPair.setCommonHeader
  rw [hlook, h.mode]
  cases hmap : map (toLowerAscii key) with
  | some present => exact h
  | none =>
  exact h.setCommon hcommon (AList.lookup_insert _) fun idx hidx => AList.lookup_insert_ne hidx

theorem Refines.addNormalizedHeaderPair (hclean : hasUpperAscii key = false) :
    Refines (pairs.addNormalizedHeaderPair key value)
      (update map (toLowerAscii key) (some value)) := by
  have hkey := toLowerAscii_of_not_upper hclean
  unfold HeaderPair.addNormalizedHeaderPair
  rw [h.mode]
  dsimp only
  split
  · next hguard =>
    have hcommon := hguard.2
    rw [← hkey] at hcommon ⊢
    rw [toLowerAscii_toLowerAscii]
    exact h.setCommon hcommon (AList.lookup_insert _) fun idx hidx => AList.lookup_insert_ne hidx
  next hguard =>
  have hcommon := not_not.1 fun hcommon => hguard ⟨rfl, hcommon⟩
  rw [← hkey] at hcommon ⊢
  rw [toLowerAscii_toLowerAscii]
  exact h.setUncommon hcommon (AList.lookup_insert _)
    fun other hother => AList.lookup_insert_ne hother

theorem Refines.update_none (hnone : map (toLowerAscii key) = none) :
    Refines pairs (update map (toLowerAscii key) none) := by
  rw [← hnone, update_eq_self]
  exact h

theorem Refines.removeHeaderPair :
    Refines (pairs.removeHeaderPair key) (update map (toLowerAscii key) none) := by
  unfold HeaderPair.removeHeaderPair
  rw [h.mode]
  dsimp only
  rw [normalized_eq]
  by_cases hcommon : matchCommonHeader (toLowerAscii key) = .NotCommon
  · have hlook := h.uncommon (toLowerAscii key)
    rw [if_pos hcommon] at hlook
    rw [if_neg (fun hnot => hnot.2.1 hcommon), h.findHeaderPairIter, hlook]
    cases hmap : map (toLowerAscii key) with
    | none => exact h.update_none hmap
    | some present =>
    exact h.setUncommon hcommon (AList.lookup_erase ..)
      fun other hother => AList.lookup_erase_ne hother
  have hlook := h.common _ hcommon
  rw [getCommonHeaderName_match hcommon] at hlook
  unfold HeaderPair.hasCommonHeader
  rw [hlook]
  cases hmap : map (toLowerAscii key) with
  | some present =>
    rw [if_pos ⟨rfl, hcommon, rfl⟩]
    exact h.setCommon hcommon (AList.lookup_erase ..) fun idx hidx => AList.lookup_erase_ne hidx
  | none =>
  rw [if_neg (fun hsome => by cases hsome.2.2)]
  -- The map is asked too, and does not hold common names.
  have habsent := h.uncommon (toLowerAscii key)
  rw [if_neg hcommon] at habsent
  rw [h.findHeaderPairIter, habsent]
  exact h.update_none hmap

theorem Refines.clear : Refines pairs.clear fun _ => none where
  mode := h.mode
  notCommon := by
    simp only [HeaderPair.clear, h.mode, if_true]
    exact AList.lookup_empty _
  common idx _ := by
    simp only [HeaderPair.clear, h.mode, if_true]
    exact AList.lookup_empty idx
  uncommon key := by
    split <;> exact AList.lookup_empty key
  lower := nofun

end

/-! ### The fields show the map -/

theorem StringMap.mem_pairs {strings : StringMap} :
    (key, value) ∈ strings.pairs ↔ strings.lookup key = some value := by
  unfold StringMap.pairs
  rw [mem_mergeSort, ← Option.mem_def, AList.mem_lookup_iff, mem_map]
  constructor
  · rintro ⟨⟨key', value'⟩, hmem, heq⟩
    cases heq
    exact hmem
  exact fun hmem => ⟨⟨key, value⟩, hmem, rfl⟩

theorem StringMap.nodup_pairs (strings : StringMap) :
    (strings.pairs.map Prod.fst).Nodup := by
  unfold StringMap.pairs
  refine ((mergeSort_perm ..).map Prod.fst).nodup_iff.2 ?_
  rw [map_map]
  exact strings.nodupKeys

theorem mem_commonPairs : (key, value) ∈ pairs.commonPairs ↔
    ∃ idx, idx ≠ .NotCommon ∧ getCommonHeaderName idx = key ∧
      pairs.commonHeaders.lookup idx = some value := by
  unfold HeaderPair.commonPairs
  rw [mem_filterMap]
  constructor
  · rintro ⟨idx, hmem, hpair⟩
    obtain ⟨value', hlook, heq⟩ := Option.map_eq_some_iff.1 hpair
    cases heq
    refine ⟨idx, ?_, rfl, hlook⟩
    rintro rfl
    revert hmem
    decide
  rintro ⟨idx, hidx, rfl, hlook⟩
  refine ⟨idx, ?_, by rw [hlook]; rfl⟩
  cases idx <;> first | decide | exact absurd rfl hidx

theorem map_fst_filterMap_sublist (common : AList fun _ : CommonHeaderIndex => Bytes)
    (indices : List CommonHeaderIndex) :
    ((indices.filterMap fun idx =>
      (common.lookup idx).map fun value => (getCommonHeaderName idx, value)).map Prod.fst).Sublist
        (indices.map getCommonHeaderName) := by
  induction indices with
  | nil => exact List.Sublist.slnil
  | cons idx indices ih =>
  rw [filterMap_cons]
  cases common.lookup idx with
  | none => exact ih.cons _
  | some value => exact ih.cons_cons _

theorem nodup_commonPairs (pairs : HeaderPair) : (pairs.commonPairs.map Prod.fst).Nodup :=
  (map_fst_filterMap_sublist pairs.commonHeaders CommonHeaderIndex.all).nodup (by decide)

theorem Refines.mem_forEachHeader (h : Refines pairs map) :
    (key, value) ∈ pairs.forEachHeader ↔ map key = some value := by
  unfold HeaderPair.forEachHeader
  rw [if_pos h.mode, mem_append, mem_commonPairs, StringMap.mem_pairs, h.uncommon]
  constructor
  · rintro (⟨idx, hidx, rfl, hlook⟩ | hlook)
    · rw [← h.common idx hidx]
      exact hlook
    split at hlook
    · exact hlook
    cases hlook
  intro hmap
  by_cases hcommon : matchCommonHeader key = .NotCommon
  · rw [if_pos hcommon]
    exact .inr hmap
  refine .inl ⟨matchCommonHeader key, hcommon, getCommonHeaderName_match hcommon, ?_⟩
  rw [h.common _ hcommon, getCommonHeaderName_match hcommon]
  exact hmap

theorem Refines.nodup_forEachHeader (h : Refines pairs map) :
    (pairs.forEachHeader.map Prod.fst).Nodup := by
  unfold HeaderPair.forEachHeader
  rw [if_pos h.mode, map_append, nodup_append]
  refine ⟨nodup_commonPairs pairs, StringMap.nodup_pairs _, ?_⟩
  intro name hname other hother heq
  obtain ⟨⟨name', value⟩, hmem, rfl⟩ := List.mem_map.1 hname
  obtain ⟨⟨other', value'⟩, hmem', rfl⟩ := List.mem_map.1 hother
  obtain ⟨idx, hidx, hname', -⟩ := mem_commonPairs.1 hmem
  have hlook := StringMap.mem_pairs.1 hmem'
  rw [h.uncommon, ← show name' = other' from heq, ← hname', matchCommonHeader_name hidx,
    if_neg hidx] at hlook
  cases hlook

theorem foldl_headerLine (fields : List (Bytes × Bytes)) (out : Bytes) :
    fields.foldl (fun out pair => out ++ HeaderPair.headerLine pair) out =
      out ++ (fields.map HeaderPair.headerLine).flatten := by
  induction fields generalizing out with
  | nil => exact (append_nil out).symm
  | cons pair fields ih =>
  rw [foldl_cons, ih, map_cons, flatten_cons, append_assoc]

theorem appendTo_eq (hmode : pairs.mode = .ServerSide) (out : Bytes) :
    pairs.appendTo out = out ++ (pairs.forEachHeader.map HeaderPair.headerLine).flatten := by
  unfold HeaderPair.appendTo HeaderPair.forEachHeader
  rw [foldl_headerLine, foldl_headerLine, if_pos hmode, map_append, flatten_append, append_assoc]

theorem Refines.toString_eq (h : Refines pairs map) :
    pairs.toString = (pairs.forEachHeader.map HeaderPair.headerLine).flatten := by
  unfold HeaderPair.toString
  split
  · next hempty =>
    have hnone : pairs.forEachHeader = [] := by
      rw [eq_nil_iff_forall_not_mem]
      rintro ⟨key, value⟩ hmem
      unfold HeaderPair.forEachHeader at hmem
      rw [if_pos h.mode, mem_append, mem_commonPairs, StringMap.mem_pairs] at hmem
      rcases hmem with ⟨idx, -, -, hlook⟩ | hlook
      · have hentry := AList.mem_lookup_iff.1 hlook
        rw [hempty.2] at hentry
        cases hentry
      have hentry := AList.mem_lookup_iff.1 hlook
      rw [hempty.1] at hentry
      cases hentry
    rw [hnone]
    rfl
  rw [appendTo_eq h.mode, nil_append]

theorem Refines.describes (h : Refines pairs map) : Describes pairs map where
  hasKey := h.hasKey
  getValue key := by
    unfold HeaderPair.getValue
    rw [h.getValuePtr]
  nodup := h.nodup_forEachHeader
  mem_forEachHeader key value := h.mem_forEachHeader
  toString := h.toString_eq

end Refines

/-! ## Every run -/

/-- Whether a call does what it is documented to do: `addHeaderPair` with the name of a common header
is not repeated, and the names given as normalized are in lower case. -/
def HeaderCall.Clean (pairs : HeaderPair) : HeaderCall → Prop
  | .addHeaderPair key _ =>
    matchCommonHeader (toLowerAscii key) ≠ .NotCommon → pairs.hasKey key = false
  | .addNormalizedHeaderPair key _ => hasUpperAscii key = false
  | _ => True

section Calls

variable {map : FieldMap} {call : HeaderCall}

theorem Refines.onCall (h : Refines pairs map) (hclean : call.Clean pairs) :
    Refines (call.onPairs pairs) (call.onMap map) := by
  cases call with
  | addHeaderPair key value => exact h.addHeaderPair hclean
  | addHeaderPairIfNotExist key value => exact h.addHeaderPairIfNotExist
  | addNormalizedHeaderPair key value => exact h.addNormalizedHeaderPair hclean
  | removeHeaderPair key => exact h.removeHeaderPair
  | clear => exact h.clear

theorem Refines.getValuePtr_repeated (h : Refines pairs map) (value : Bytes)
    (hcommon : matchCommonHeader (toLowerAscii key) ≠ .NotCommon) (hkey : pairs.hasKey key = true) :
    (pairs.addHeaderPair key value).getValuePtr key =
      some (pairs.getValue key ++ ascii ", " ++ value) := by
  obtain ⟨present, hpresent⟩ := Option.isSome_iff_exists.1 ((h.hasKey key).symm.trans hkey)
  have hlook := h.common _ hcommon
  rw [getCommonHeaderName_match hcommon, hpresent] at hlook
  have hadded : pairs.addHeaderPair key value =
      ⟨.ServerSide, pairs.commonHeaders.insert (matchCommonHeader (toLowerAscii key))
        (present ++ ascii ", " ++ value), pairs.headerPairs⟩ := by
    unfold HeaderPair.addHeaderPair
    rw [h.mode]
    dsimp only
    rw [normalized_eq, if_pos hcommon]
    unfold HeaderPair.setCommonHeader
    rw [hlook, h.mode]
  unfold HeaderPair.getValue
  rw [h.getValuePtr, hpresent, hadded]
  unfold HeaderPair.getValuePtr
  dsimp only
  rw [normalized_eq, if_pos ⟨rfl, hcommon⟩]
  exact AList.lookup_insert _

theorem Refines.not_describes (h : Refines pairs map) (hclean : ¬ call.Clean pairs) :
    ¬ Describes (call.onPairs pairs) (call.onMap map) := by
  intro hdescribes
  cases call with
  | addHeaderPair key value =>
    obtain ⟨hcommon, hkey⟩ := Classical.not_imp.1 hclean
    have hval := hdescribes.getValue key
    have hrepeated := h.getValuePtr_repeated value hcommon ((Bool.not_eq_false _).mp hkey)
    simp only [HeaderCall.onPairs, HeaderCall.onMap, HeaderPair.getValue, update_self,
      hrepeated, Option.getD_some] at hval
    have hlen := congrArg List.length hval
    simp only [length_append, show (ascii ", ").length = 2 from rfl] at hlen
    omega
  | addNormalizedHeaderPair key value =>
    have hupper : hasUpperAscii key = true := (Bool.not_eq_false _).mp hclean
    have hne : key ≠ toLowerAscii key := by
      intro heq
      rw [toLowerAscii_eq_self_iff.1 heq.symm] at hupper
      cases hupper
    have hmem : (key, value) ∈ (pairs.addNormalizedHeaderPair key value).forEachHeader := by
      unfold HeaderPair.addNormalizedHeaderPair
      dsimp only
      rw [if_neg fun hguard => hguard.2 (match_of_upper hupper)]
      exact mem_append_right _ (StringMap.mem_pairs.2 (AList.lookup_insert _))
    have hmap := (hdescribes.mem_forEachHeader key value).1 hmem
    simp only [HeaderCall.onMap, update_of_ne hne, h.map_of_upper hupper] at hmap
    cases hmap
  | addHeaderPairIfNotExist key value => exact hclean trivial
  | removeHeaderPair key => exact hclean trivial
  | clear => exact hclean trivial

end Calls

/-- All states of a run show the map that the calls make. -/
def DescribesRun (pairs : HeaderPair) (map : FieldMap) : List HeaderCall → Prop
  | [] => Describes pairs map
  | call :: calls =>
    Describes pairs map ∧ DescribesRun (call.onPairs pairs) (call.onMap map) calls

/-- All calls of a run are clean. -/
def CleanRun (pairs : HeaderPair) : List HeaderCall → Prop
  | [] => True
  | call :: calls => call.Clean pairs ∧ CleanRun (call.onPairs pairs) calls

theorem DescribesRun.describes {map : FieldMap}
    (h : DescribesRun pairs map calls) : Describes pairs map := by
  cases calls with
  | nil => exact h
  | cons call calls => exact h.1

theorem Refines.describesRun_iff {map : FieldMap} (h : Refines pairs map)
    (calls : List HeaderCall) : DescribesRun pairs map calls ↔ CleanRun pairs calls := by
  induction calls generalizing pairs map with
  | nil => exact ⟨fun _ => trivial, fun _ => h.describes⟩
  | cons call calls ih =>
  constructor
  · rintro ⟨-, hrun⟩
    by_cases hclean : call.Clean pairs
    · exact ⟨hclean, (ih (h.onCall hclean)).1 hrun⟩
    exact absurd hrun.describes (h.not_describes hclean)
  rintro ⟨hclean, hrun⟩
  exact ⟨h.describes, (ih (h.onCall hclean)).2 hrun⟩

theorem Refines.empty : Refines {} fun _ => none where
  mode := rfl
  notCommon := AList.lookup_empty _
  common idx _ := AList.lookup_empty idx
  uncommon key := by
    split <;> exact AList.lookup_empty key
  lower := nofun

/-- The fields show one map from names to values in every state of a run, with `addHeaderPair`
replacing a value, exactly when no call of the run repeats a common header by `addHeaderPair` or
passes a name in upper case as normalized. -/
theorem describesRun_iff_cleanRun (calls : List HeaderCall) :
    DescribesRun {} (fun _ => none) calls ↔ CleanRun {} calls :=
  Refines.empty.describesRun_iff calls

/-- No rule says what a repeated name is bound to: `host` ends with both values, `x-host` with the
second one. -/
theorem no_rule_for_repeated : ¬ ∃ rule : Bytes → Bytes → Bytes, ∀ key first second,
    ((({} : HeaderPair).addHeaderPair key first).addHeaderPair key second).getValue key =
      rule first second := by
  rintro ⟨rule, hrule⟩
  have hcommon := hrule (ascii "host") (ascii "a") (ascii "b")
  rw [← hrule (ascii "x-host") (ascii "a") (ascii "b")] at hcommon
  revert hcommon
  decide

end Galay.Http
