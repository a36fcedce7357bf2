import Mathlib.Algebra.Order.BigOperators.Group.List
import Mathlib.Algebra.Order.Ring.Nat
import Galay.Http.HeaderMap
import Galay.Http.RequestEscapes

/-!
# The request target there and back

A target is decoded and taken apart when it is read, and put together and escaped when it is written.
-/

namespace Galay.Http

open List

/-! ## Arguments -/

/-- A key ends at `=` and a value at `&`. -/
def ArgOk (pair : Bytes × Bytes) : Prop := 0x3d ∉ pair.1 ∧ 0x26 ∉ pair.2

theorem parseArgsLoop_key (hword : 0x3d ∉ word) (rest : Bytes) :
    parseArgsLoop argList key [] false (word ++ 0x3d :: rest) =
      parseArgsLoop argList (key ++ word) [] true rest := by
  induction word generalizing key with
  | nil =>
    rw [nil_append, append_nil, parseArgsLoop]
    rfl
  | cons c word ih =>
  rw [mem_cons, not_or] at hword
  rw [cons_append, parseArgsLoop]
  simp only [Bool.not_false, if_true, if_neg (Ne.symm hword.1)]
  rw [ih hword.2, append_assoc]
  rfl

theorem parseArgsLoop_value (hword : 0x26 ∉ word) (rest : Bytes) :
    parseArgsLoop argList key value true (word ++ 0x26 :: rest) =
      parseArgsLoop (argList.insert key (value ++ word)) [] [] false rest := by
  induction word generalizing value with
  | nil =>
    rw [nil_append, append_nil, parseArgsLoop]
    rfl
  | cons c word ih =>
  rw [mem_cons, not_or] at hword
  rw [cons_append, parseArgsLoop]
  have hrest : word ++ 0x26 :: rest ≠ [] :=
    append_ne_nil_of_right_ne_nil _ (cons_ne_nil _ _)
  simp only [Bool.not_true, Bool.false_eq_true, if_false, if_neg (Ne.symm hword.1), if_neg hrest]
  rw [ih hword.2, append_assoc]
  rfl

theorem parseArgsLoop_last (hword : 0x26 ∉ word) : parseArgsLoop argList key value true word =
      if word = [] then argList else argList.insert key (value ++ word) := by
  induction word generalizing value argList with
  | nil => rfl
  | cons c word ih =>
  rw [mem_cons, not_or] at hword
  rw [parseArgsLoop, if_neg (cons_ne_nil _ _)]
  simp only [Bool.not_true, Bool.false_eq_true, if_false, if_neg (Ne.symm hword.1)]
  rw [ih hword.2]
  by_cases hnil : word = []
  · rw [if_pos hnil, if_pos hnil, hnil]
  rw [if_neg hnil, if_neg hnil, append_assoc]
  rfl

/-- The pairs that come back: the last one is lost where its value is empty. -/
def keptPairs : List (Bytes × Bytes) → List (Bytes × Bytes)
  | [] => []
  | [pair] => if pair.2 = [] then [] else [pair]
  | pair :: pair' :: pairs => pair :: keptPairs (pair' :: pairs)

def insertPairs (argList : StringMap) (pairs : List (Bytes × Bytes)) : StringMap :=
  pairs.foldl (fun argList pair => argList.insert pair.1 pair.2) argList

variable {pairs : List (Bytes × Bytes)}

theorem parseArgsLoop_argString (hpairs : ∀ pair ∈ pairs, ArgOk pair) :
    parseArgsLoop argList [] [] false (argString pairs) =
      insertPairs argList (keptPairs pairs) := by
  induction pairs generalizing argList with
  | nil => rfl
  | cons pair pairs ih =>
  obtain ⟨hkey, hval⟩ := hpairs pair (mem_cons_self ..)
  cases pairs with
  | nil =>
    rw [argString, parseArgsLoop_key hkey, parseArgsLoop_last hval, keptPairs]
    split <;> rfl
  | cons pair' pairs =>
  rw [argString, append_assoc, cons_append, parseArgsLoop_key hkey,
    parseArgsLoop_value hval, ih fun pair hmem => hpairs pair (mem_cons_of_mem _ hmem)]
  rfl

/-! ## The map of the arguments -/

theorem lookup_insertPairs_of_notMem (hkey : key ∉ pairs.map Prod.fst) :
    (insertPairs argList pairs).lookup key = argList.lookup key := by
  induction pairs generalizing argList with
  | nil => rfl
  | cons pair pairs ih =>
  rw [map_cons, mem_cons, not_or] at hkey
  rw [insertPairs, foldl_cons]
  exact (ih hkey.2).trans (AList.lookup_insert_ne hkey.1)

theorem lookup_insertPairs (hnodup : (pairs.map Prod.fst).Nodup) (hmem : (key, value) ∈ pairs) :
    (insertPairs argList pairs).lookup key = some value := by
  induction pairs generalizing argList with
  | nil => cases hmem
  | cons pair pairs ih =>
  rw [map_cons, nodup_cons] at hnodup
  rw [insertPairs, foldl_cons]
  rcases List.mem_cons.1 hmem with rfl | hmem
  · exact (lookup_insertPairs_of_notMem hnodup.1).trans (AList.lookup_insert _)
  exact ih hnodup.2 hmem

theorem StringMap.pairwise_pairs (strings : StringMap) :
    strings.pairs.Pairwise fun a b => ¬ b.1 < a.1 := by
  have hsorted : strings.pairs.Pairwise fun a b => (!decide (b.1 < a.1)) = true := by
    apply pairwise_mergeSort
    · intro a b c hab hbc
      simp only [Bool.not_eq_true', decide_eq_false_iff_not] at hab hbc ⊢
      exact List.le_trans hab hbc
    intro a b
    simp only [Bool.or_eq_true, Bool.not_eq_true', decide_eq_false_iff_not]
    exact List.le_total a.1 b.1
  refine hsorted.imp ?_
  intro a b h
  rwa [Bool.not_eq_true', decide_eq_false_iff_not] at h

/-- Two maps with the same bindings are walked in the same way. -/
theorem StringMap.pairs_congr {strings strings' : StringMap}
    (h : ∀ key, strings.lookup key = strings'.lookup key) : strings.pairs = strings'.pairs := by
  have hperm : strings.pairs.Perm strings'.pairs := by
    rw [perm_ext_iff_of_nodup strings.nodup_pairs.of_map strings'.nodup_pairs.of_map]
    rintro ⟨key, value⟩
    rw [StringMap.mem_pairs, StringMap.mem_pairs, h]
  refine hperm.eq_of_pairwise ?_ strings.pairwise_pairs strings'.pairwise_pairs
  rintro ⟨key, value⟩ ⟨key', value'⟩ hmem hmem' hle hle'
  have hkey : key = key' := List.le_antisymm (List.not_lt.1 hle) (List.not_lt.1 hle')
  subst hkey
  have hlook := StringMap.mem_pairs.1 hmem
  rw [h, StringMap.mem_pairs.1 hmem'] at hlook
  cases hlook
  rfl

variable (argList : StringMap)

/-- The length of the arguments with their separators. -/
def argSize : Nat :=
  (argList.entries.map fun entry => entry.1.length + entry.2.length + 2).sum

theorem argSize_insert_le (key value : Bytes) :
    argSize (argList.insert key value) ≤ argSize argList + (key.length + value.length + 2) := by
  have hsublist := (kerase_sublist key argList.entries).map
    fun entry => entry.1.length + entry.2.length + 2
  have hle := hsublist.sum_le_sum fun _ _ => Nat.zero_le _
  rw [argSize, argSize, AList.entries_insert, map_cons, sum_cons]
  simp only
  omega

theorem argSize_parseArgsLoop_le (key value : Bytes) (status : Bool) (args : Bytes) :
    argSize (parseArgsLoop argList key value status args) ≤
      argSize argList + key.length + value.length + (if status then 1 else 0) + args.length + 1 := by
  induction args generalizing argList key value status with
  | nil =>
    rw [parseArgsLoop]
    omega
  | cons c args ih =>
  rw [parseArgsLoop, length_cons]
  cases status with
  | false =>
    simp only [Bool.not_false, if_true]
    split
    · have := ih argList key value true
      simp only [if_true] at this
      simp only [Bool.false_eq_true, if_false]
      omega
    have := ih argList (key ++ [c]) value false
    simp only [length_append, length_singleton] at this
    omega
  | true =>
  simp only [Bool.not_true, Bool.false_eq_true, if_false, if_true]
  split
  · have := ih (argList.insert key value) [] [] false
    have hinsert := argSize_insert_le argList key value
    simp only [length_nil, Bool.false_eq_true, if_false] at this
    omega
  split
  · rename_i hnil
    subst hnil
    rw [parseArgsLoop]
    have hinsert := argSize_insert_le argList key (value ++ [c])
    simp only [length_append, length_singleton] at hinsert
    simp only [length_nil]
    omega
  have := ih argList key (value ++ [c]) true
  simp only [length_append, length_singleton, if_true] at this
  omega

theorem argSize_eq :
    argSize argList = (argList.pairs.map fun pair => pair.1.length + pair.2.length + 2).sum := by
  have hperm : argList.pairs.Perm (argList.entries.map fun entry => (entry.1, entry.2)) :=
    mergeSort_perm ..
  rw [(hperm.map _).sum_eq, map_map]
  rfl

variable {argList}

theorem length_argString (pair : Bytes × Bytes) (pairs : List (Bytes × Bytes)) :
    (argString (pair :: pairs)).length + 1 =
      ((pair :: pairs).map fun pair => pair.1.length + pair.2.length + 2).sum := by
  induction pairs generalizing pair with
  | nil =>
    simp only [argString, length_append, length_cons, map_cons, map_nil, sum_cons, sum_nil]
    omega
  | cons pair' pairs ih =>
  have hrest := ih pair'
  rw [map_cons, sum_cons, ← hrest]
  simp only [argString, length_append, length_cons]
  omega

theorem pairs_ne_nil {argList : StringMap} (h : argList.entries ≠ []) : argList.pairs ≠ [] := by
  intro hnil
  have hlen : argList.pairs.length = argList.entries.length := by
    rw [StringMap.pairs, length_mergeSort, length_map]
  rw [hnil] at hlen
  exact h (eq_nil_of_length_eq_zero hlen.symm)

theorem length_uriString (uri : Bytes) (argList : StringMap) :
    (uriString uri argList).length = uri.length + argSize argList := by
  rw [uriString]
  split
  · rename_i hempty
    rw [argSize, hempty]
    rfl
  rename_i hents
  obtain ⟨pair, pairs, hpairs⟩ := exists_cons_of_ne_nil (pairs_ne_nil hents)
  rw [argSize_eq, hpairs, ← length_argString, length_append, length_cons]

theorem argOk_parseArgsLoop
    (hargs : ∀ key value, argList.lookup key = some value → ArgOk (key, value))
    (hkey : 0x3d ∉ key) (hval : 0x26 ∉ value)
    (h : (parseArgsLoop argList key value status args).lookup key' = some value') :
    ArgOk (key', value') := by
  have hinsert : ∀ {argList : StringMap} {key value : Bytes},
      (∀ key value, argList.lookup key = some value → ArgOk (key, value)) → ArgOk (key, value) →
      ∀ key' value', (argList.insert key value).lookup key' = some value' →
        ArgOk (key', value') := by
    intro argList key value hargs hpair key' value' h
    by_cases heq : key' = key
    · subst heq
      rw [AList.lookup_insert] at h
      cases h
      exact hpair
    rw [AList.lookup_insert_ne heq] at h
    exact hargs key' value' h
  induction args generalizing argList key value status with
  | nil => exact hargs key' value' h
  | cons c args ih =>
  rw [parseArgsLoop] at h
  cases status with
  | false =>
    simp only [Bool.not_false, if_true] at h
    split at h
    · exact ih hargs hkey hval h
    rename_i hc
    refine ih hargs ?_ hval h
    rw [mem_append, mem_singleton]
    exact fun hmem => hmem.elim hkey (Ne.symm hc)
  | true =>
  simp only [Bool.not_true, Bool.false_eq_true, if_false] at h
  split at h
  · exact ih (hinsert hargs ⟨hkey, hval⟩) not_mem_nil not_mem_nil h
  rename_i hc
  have hval' : 0x26 ∉ value ++ [c] := by
    rw [mem_append, mem_singleton]
    exact fun hmem => hmem.elim hval (Ne.symm hc)
  split at h
  · exact ih (hinsert hargs ⟨hkey, hval'⟩) hkey hval' h
  exact ih hargs hkey hval' h

/-! ## Taking a target apart -/

/-- The path and the arguments of a decoded target; a path that is empty is the whole target. -/
def splitTarget (fullUri : Bytes) : Bytes × StringMap :=
  if 0x3f ∈ fullUri then
    (if fullUri.takeWhile (· != 0x3f) = [] then fullUri else fullUri.takeWhile (· != 0x3f),
      parseArgsLoop ∅ [] [] false ((fullUri.dropWhile (· != 0x3f)).drop 1))
  else (fullUri, ∅)

theorem splitTarget_path (hmark : 0x3f ∉ uri) : splitTarget uri = (uri, ∅) :=
  if_neg hmark

theorem takeWhile_mark {uri : Bytes} (hmark : 0x3f ∉ uri) (args : Bytes) :
    (uri ++ 0x3f :: args).takeWhile (· != 0x3f) = uri ∧
      (uri ++ 0x3f :: args).dropWhile (· != 0x3f) = 0x3f :: args := by
  have hall : ∀ c ∈ uri, (c != 0x3f) = true := by
    intro c hmem
    rw [bne_iff_ne]
    rintro rfl
    exact hmark hmem
  constructor
  · rw [takeWhile_append_of_pos hall, takeWhile_cons_of_neg (by decide), append_nil]
  rw [dropWhile_append_of_pos hall, dropWhile_cons_of_neg (by decide)]

theorem splitTarget_append {uri : Bytes} (hmark : 0x3f ∉ uri) (huri : uri ≠ []) (args : Bytes) :
    splitTarget (uri ++ 0x3f :: args) = (uri, parseArgsLoop ∅ [] [] false args) := by
  obtain ⟨htake, hdrop⟩ := takeWhile_mark hmark args
  rw [splitTarget, if_pos (mem_append_right _ (mem_cons_self ..)), htake, hdrop, if_neg huri]
  rfl

theorem splitTarget_mark (args : Bytes) :
    splitTarget (0x3f :: args) = (0x3f :: args, parseArgsLoop ∅ [] [] false args) := by
  rw [splitTarget, if_pos (mem_cons_self ..)]
  rfl

/-- A target has a path in front of its arguments, or starts with them. -/
theorem target_cases (fullUri : Bytes) :
    0x3f ∉ fullUri ∨ (∃ args, fullUri = 0x3f :: args) ∨
      ∃ uri args, 0x3f ∉ uri ∧ uri ≠ [] ∧ fullUri = uri ++ 0x3f :: args := by
  by_cases hmark : 0x3f ∈ fullUri
  · obtain ⟨uri, args, rfl, hnot⟩ := eq_append_cons_of_mem hmark
    cases uri with
    | nil => exact .inr (.inl ⟨args, rfl⟩)
    | cons c uri => exact .inr (.inr ⟨c :: uri, args, hnot, cons_ne_nil _ _, rfl⟩)
  exact .inl hmark

/-- What is taken apart is at least as long as its parts. -/
theorem length_splitTarget_le {fullUri : Bytes} (hmark : (splitTarget fullUri).1.head? ≠ some 0x3f) :
    (splitTarget fullUri).1.length + argSize (splitTarget fullUri).2 ≤ fullUri.length := by
  rcases target_cases fullUri with hnot | ⟨args, rfl⟩ | ⟨uri, args, hnot, huri, rfl⟩
  · rw [splitTarget_path hnot]
    exact Nat.le_refl _
  · rw [splitTarget_mark] at hmark
    exact absurd rfl hmark
  rw [splitTarget_append hnot huri, length_append, length_cons]
  have hsize := argSize_parseArgsLoop_le ∅ [] [] false args
  have hempty : argSize ∅ = 0 := rfl
  simp only [length_nil, Bool.false_eq_true, if_false, hempty] at hsize
  simp only
  omega

theorem argOk_splitTarget (h : pair ∈ (splitTarget fullUri).2.pairs) : ArgOk pair := by
  rw [StringMap.mem_pairs, splitTarget] at h
  split at h
  · refine argOk_parseArgsLoop ?_ not_mem_nil not_mem_nil h
    intro key value hlook
    rw [AList.lookup_empty] at hlook
    cases hlook
  rw [AList.lookup_empty] at h
  cases h

/-! ## Which targets come back -/

theorem keptPairs_eq_self (hlast : ∀ last ∈ pairs.getLast?, last.2 ≠ []) :
    keptPairs pairs = pairs := by
  induction pairs with
  | nil => rfl
  | cons pair pairs ih =>
  cases pairs with
  | nil => exact if_neg (hlast pair rfl)
  | cons pair' pairs =>
  rw [keptPairs, ih]
  intro last hmem
  apply hlast last
  rw [getLast?_cons_cons]
  exact hmem

theorem keptPairs_of_empty (hlast : pairs.getLast? = some last) (hempty : last.2 = []) :
    pairs = keptPairs pairs ++ [last] := by
  induction pairs with
  | nil => cases hlast
  | cons pair pairs ih =>
  cases pairs with
  | nil =>
    have hpair : pair = last := Option.some.inj hlast
    subst hpair
    rw [keptPairs, if_pos hempty]
    rfl
  | cons pair' pairs =>
  rw [getLast?_cons_cons] at hlast
  rw [keptPairs, cons_append, ← ih hlast]

theorem lookup_insertPairs_pairs (argList : StringMap) (key : Bytes) :
    (insertPairs ∅ argList.pairs).lookup key = argList.lookup key := by
  cases hlook : argList.lookup key with
  | some value =>
    exact lookup_insertPairs argList.nodup_pairs (StringMap.mem_pairs.2 hlook)
  | none =>
  rw [lookup_insertPairs_of_notMem, AList.lookup_empty]
  intro hmem
  obtain ⟨⟨key', value⟩, hpair, rfl⟩ := List.mem_map.1 hmem
  rw [StringMap.mem_pairs.1 hpair] at hlook
  cases hlook

/-- A target without `%` that ends in a value, and that does not start with its arguments. -/
structure TargetOk (uri : Bytes) (argList : StringMap) : Prop where
  percent : 0x25 ∉ uri ∧ ∀ pair ∈ argList.pairs, 0x25 ∉ pair.1 ∧ 0x25 ∉ pair.2
  last : ∀ last ∈ argList.pairs.getLast?, last.2 ≠ []
  path : argList.entries = [] ∨ uri.head? ≠ some 0x3f

/-- The target is read as it was. -/
def TargetComesBack (uri : Bytes) (argList : StringMap) : Prop :=
  ∃ again, reread (uriString uri argList) = some again ∧ (splitTarget again).1 = uri ∧
    ∀ key, (splitTarget again).2.lookup key = argList.lookup key

theorem mem_argString (h : c ∈ argString pairs) :
    c = 0x3d ∨ c = 0x26 ∨ ∃ pair ∈ pairs, c ∈ pair.1 ∨ c ∈ pair.2 := by
  induction pairs with
  | nil => cases h
  | cons pair pairs ih =>
  have hhere : c ∈ pair.1 ++ 0x3d :: pair.2 →
      c = 0x3d ∨ c = 0x26 ∨ ∃ other ∈ pair :: pairs, c ∈ other.1 ∨ c ∈ other.2 := by
    intro hmem
    rcases List.mem_append.1 hmem with hmem | hmem
    · exact .inr (.inr ⟨pair, mem_cons_self .., .inl hmem⟩)
    rcases List.mem_cons.1 hmem with rfl | hmem
    · exact .inl rfl
    exact .inr (.inr ⟨pair, mem_cons_self .., .inr hmem⟩)
  cases pairs with
  | nil => exact hhere h
  | cons pair' pairs =>
  rw [argString] at h
  rcases List.mem_append.1 h with hmem | hmem
  · exact hhere hmem
  rcases List.mem_cons.1 hmem with rfl | hmem
  · exact .inr (.inl rfl)
  rcases ih hmem with heq | heq | ⟨other, hother, hmem⟩
  · exact .inl heq
  · exact .inr (.inl heq)
  exact .inr (.inr ⟨other, mem_cons_of_mem _ hother, hmem⟩)

theorem mem_argString_of_mem (hpair : pair ∈ pairs)
    (h : c ∈ pair.1 ∨ c ∈ pair.2) : c ∈ argString pairs := by
  induction pairs with
  | nil => cases hpair
  | cons first pairs ih =>
  have hfirst : pair = first → c ∈ first.1 ++ 0x3d :: first.2 := by
    rintro rfl
    rcases h with h | h
    · exact mem_append_left _ h
    exact mem_append_right _ (mem_cons_of_mem _ h)
  cases pairs with
  | nil => exact hfirst (List.mem_singleton.1 hpair)
  | cons pair' pairs =>
  rw [argString]
  rcases List.mem_cons.1 hpair with heq | hpair
  · exact mem_append_left _ (hfirst heq)
  exact mem_append_right _ (mem_cons_of_mem _ (ih hpair))

theorem pairs_eq_nil {argList : StringMap} (h : argList.entries = []) : argList.pairs = [] := by
  rw [StringMap.pairs, h, map_nil, mergeSort_nil]

theorem percent_notMem_uriString (uri : Bytes) (argList : StringMap) :
    0x25 ∉ uriString uri argList ↔
      0x25 ∉ uri ∧ ∀ pair ∈ argList.pairs, 0x25 ∉ pair.1 ∧ 0x25 ∉ pair.2 := by
  rw [uriString]
  split
  · rename_i hents
    rw [pairs_eq_nil hents]
    exact ⟨fun h => ⟨h, nofun⟩, And.left⟩
  constructor
  · intro h
    refine ⟨fun hmem => h (mem_append_left _ hmem), ?_⟩
    intro pair hpair
    have hargs : ¬ (0x25 ∈ pair.1 ∨ 0x25 ∈ pair.2) := fun hmem =>
      h (mem_append_right _ (mem_cons_of_mem _ (mem_argString_of_mem hpair hmem)))
    exact not_or.1 hargs
  rintro ⟨huri, hpairs⟩ hmem
  rcases List.mem_append.1 hmem with hmem | hmem
  · exact huri hmem
  rcases List.mem_cons.1 hmem with hmark | hmem
  · cases hmark
  rcases mem_argString hmem with heq | heq | ⟨pair, hpair, hmem⟩
  · cases heq
  · cases heq
  exact hmem.elim (hpairs pair hpair).1 (hpairs pair hpair).2

section

variable {uri : Bytes} {argList : StringMap}

/-- What is read of a path and its arguments. -/
theorem splitTarget_uriString (hmark : 0x3f ∉ uri) (huri : uri ≠ [])
    (hargs : ∀ pair ∈ argList.pairs, ArgOk pair) :
    (splitTarget (uriString uri argList)).1 = uri ∧
      ∀ key, (splitTarget (uriString uri argList)).2.lookup key =
        (insertPairs ∅ (keptPairs argList.pairs)).lookup key := by
  rw [uriString]
  split
  · rename_i hents
    rw [splitTarget_path hmark, pairs_eq_nil hents]
    exact ⟨rfl, fun _ => rfl⟩
  rw [splitTarget_append hmark huri, parseArgsLoop_argString hargs]
  exact ⟨rfl, fun _ => rfl⟩

/-- A last argument without a value is lost. -/
theorem last_of_kept
    (h : ∀ key, (insertPairs ∅ (keptPairs argList.pairs)).lookup key = argList.lookup key) :
    ∀ last ∈ argList.pairs.getLast?, last.2 ≠ [] := by
  intro last hlast hempty
  have hkept := keptPairs_of_empty hlast hempty
  have hnodup := argList.nodup_pairs
  have hmem : last ∈ argList.pairs := mem_of_getLast? hlast
  rw [hkept, map_append, nodup_append] at hnodup
  have hnot : last.1 ∉ (keptPairs argList.pairs).map Prod.fst :=
    fun hkey => hnodup.2.2 _ hkey last.1 (mem_cons_self ..) rfl
  have hlook := h last.1
  rw [lookup_insertPairs_of_notMem hnot, AList.lookup_empty,
    (StringMap.mem_pairs.1 hmem : argList.lookup last.1 = some last.2)] at hlook
  cases hlook

theorem path_comes_back_iff (hmark : 0x3f ∉ uri) (huri : uri ≠ [])
    (hargs : ∀ pair ∈ argList.pairs, ArgOk pair) :
    TargetComesBack uri argList ↔ TargetOk uri argList := by
  have hhead : uri.head? ≠ some 0x3f := fun h => hmark (mem_of_head? h)
  obtain ⟨hpath, hkept⟩ := splitTarget_uriString hmark huri hargs
  constructor
  · rintro ⟨again, hagain, hsame, hlook⟩
    have hpercent : 0x25 ∉ uriString uri argList := by
      intro hmem
      -- The escape makes the text shorter than its parts.
      have hlt := (length_reread hagain).2 hmem
      have hle := @length_splitTarget_le again (by rw [hsame]; exact hhead)
      rw [hsame, argSize_eq, StringMap.pairs_congr hlook, ← argSize_eq, ← length_uriString] at hle
      omega
    rw [reread_eq_self hpercent] at hagain
    cases hagain
    refine ⟨(percent_notMem_uriString uri argList).1 hpercent, ?_, .inr hhead⟩
    exact last_of_kept fun key => (hkept key).symm.trans (hlook key)
  intro hok
  refine ⟨_, reread_eq_self ((percent_notMem_uriString uri argList).2 hok.percent), hpath, ?_⟩
  intro key
  rw [hkept, keptPairs_eq_self hok.last]
  exact lookup_insertPairs_pairs argList key

theorem splitTarget_reread_mark {url : Bytes} (h : reread (0x3f :: url) = some again) :
    (splitTarget again).1 = again := by
  rw [reread_cons (by decide)] at h
  obtain ⟨rest, -, rfl⟩ := Option.map_eq_some_iff.1 h
  rw [splitTarget_mark]

/-- The arguments are written behind a path that has them already. -/
theorem mark_comes_back_iff (hargs : argList = parseArgsLoop ∅ [] [] false args) :
    TargetComesBack (0x3f :: args) argList ↔ TargetOk (0x3f :: args) argList := by
  by_cases hents : argList.entries = []
  · have hstring : uriString (0x3f :: args) argList = 0x3f :: args := if_pos hents
    rw [TargetComesBack, hstring]
    constructor
    · rintro ⟨again, hagain, hsame, -⟩
      rw [splitTarget_reread_mark hagain] at hsame
      rw [hsame] at hagain
      have hpercent : 0x25 ∉ (0x3f :: args : Bytes) :=
        fun hmem => Nat.lt_irrefl _ ((length_reread hagain).2 hmem)
      rw [← hstring, percent_notMem_uriString] at hpercent
      refine ⟨hpercent, ?_, .inl hents⟩
      rw [pairs_eq_nil hents]
      exact nofun
    intro hok
    refine ⟨_, reread_eq_self hok.percent.1, ?_, ?_⟩
    · rw [splitTarget_mark]
    rw [splitTarget_mark, hargs]
    exact fun _ => rfl
  constructor
  · rintro ⟨again, hagain, hsame, -⟩
    rw [uriString, if_neg hents] at hagain
    rw [splitTarget_reread_mark hagain] at hsame
    rw [hsame] at hagain
    exact absurd hagain (@reread_ne_front _ _ [] fun _ => nofun)
  intro hok
  rcases hok.path with hnil | hhead
  · exact absurd hnil hents
  exact absurd rfl hhead

end

/-- A target that has been read is read again as it was exactly when it has no `%`, ends in a value
and has a path in front of its arguments. -/
theorem target_comes_back_iff {fullUri : Bytes} (hne : fullUri ≠ []) :
    TargetComesBack (splitTarget fullUri).1 (splitTarget fullUri).2 ↔
      TargetOk (splitTarget fullUri).1 (splitTarget fullUri).2 := by
  have hargs : ∀ pair ∈ (splitTarget fullUri).2.pairs, ArgOk pair := fun _ => argOk_splitTarget
  rcases target_cases fullUri with hnot | ⟨args, rfl⟩ | ⟨uri, args, hnot, huri, rfl⟩
  · rw [splitTarget_path hnot] at hargs ⊢
    exact path_comes_back_iff hnot hne hargs
  · rw [splitTarget_mark]
    exact mark_comes_back_iff rfl
  rw [splitTarget_append hnot huri] at hargs ⊢
  exact path_comes_back_iff hnot huri hargs

end Galay.Http
