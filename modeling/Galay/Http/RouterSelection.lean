import Galay.Http.RouteTrie

/-!
# The router selects the preferred route

The trie of a method holds the fuzzy routes by their keys, so what the search prefers is what the
patterns prefer. Its parameters are the segments at the positions of the pattern, with two
exceptions: a route that ends with `**` gets none, and a segment with the text `:param` is taken for
the key of the parameters and gets lost.
-/

namespace Galay.Http

open List
open PatternSegment

variable {η : Type*}

/-! ## The two searches -/

theorem searchRoutePathRecursive_eq (node : RouteTrieNode η) (paramValues : List Bytes)
    (path : Bytes) :
    searchRoutePathRecursive node paramValues path =
      searchRouteDfs node paramValues (splitPath path) := by
  induction h : path.length using Nat.strong_induction_on generalizing node paramValues path with
  | _ length ih =>
  subst h
  rw [searchRoutePathRecursive, splitPath]
  split
  · rfl
  next segment next hnext =>
  have hlen := nextRouteSegment_length hnext
  have hih (child : RouteTrieNode η) (values : List Bytes) :=
    ih next.length hlen child values next rfl
  simp only [searchRouteDfs, hih]

theorem searchRoutePath_eq (root : RouteTrieNode η) (path : Bytes) :
    searchRoutePath root path = searchRoute root (splitPath path) :=
  searchRoutePathRecursive_eq root [] path

/-! ## Patterns of valid paths -/

namespace Pattern

/-- `**` comes last, and no text is a key of other segments. -/
def WellFormed : Pattern → Prop
  | [] => True
  | segment :: pattern =>
    (segment = .greedy → pattern = []) ∧
    (∀ text, segment = .literal text → text ≠ paramKey ∧ text ≠ wildcardKey ∧ text ≠ greedyKey) ∧
    WellFormed pattern

/-- The parameters with the segments at their positions. -/
def pairs : Pattern → List Bytes → List (Bytes × Bytes)
  | .param name :: pattern, segment :: segments => (name, segment) :: pairs pattern segments
  | _ :: pattern, _ :: segments => pairs pattern segments
  | _, _ => []

/-- `**` is found in the last attempt: what is left for it is not the text of the key. -/
def TakesRest : Pattern → List Bytes → Prop
  | .greedy :: _, segments => segments ≠ [greedyKey]
  | _ :: pattern, _ :: segments => TakesRest pattern segments
  | _, _ => False

/-- The values that the search collects. -/
def taken (pattern : Pattern) (segments : List Bytes) : List Bytes :=
  ((pairs pattern segments).filter fun pair => pair.2 ≠ paramKey).map (·.2)

variable {pattern : Pattern} {segments : List Bytes}

theorem matches_iff (hwf : WellFormed pattern) :
    pattern.Matches segments ↔ KeysMatch pattern.keys segments := by
  induction pattern generalizing segments with
  | nil => exact Iff.rfl
  | cons first pattern ih =>
  obtain ⟨hgreedy, hliteral, hrest⟩ := hwf
  cases segments with
  | nil =>
    cases first <;> exact Iff.rfl
  | cons segment segments =>
  have hkeys : Matches pattern segments ↔ KeysMatch (keys pattern) segments := ih hrest
  cases first with
  | literal text =>
    obtain ⟨hparam, hwildcard, hgreedy'⟩ := hliteral text rfl
    simp only [Matches, keys, map_cons, key, KeysMatch] at hkeys ⊢
    simp only [hkeys, hparam, hwildcard, hgreedy', false_and, or_false, false_or]
  | param name =>
    simp only [Matches, keys, map_cons, key, KeysMatch] at hkeys ⊢
    simp only [hkeys, (by decide : paramKey ≠ greedyKey), false_and, true_or, or_true, true_and,
      false_or]
  | wildcard =>
    simp only [Matches, keys, map_cons, key, KeysMatch] at hkeys ⊢
    simp only [hkeys, (by decide : wildcardKey ≠ greedyKey), false_and, or_true, true_and, false_or]
  | greedy =>
  rw [hgreedy rfl]
  simp only [Matches, keys, map_cons, key, KeysMatch, map_nil, and_self, true_or]

theorem keyRank_eq {segment : Bytes} (hwf : WellFormed (first :: pattern))
    (hmatches : Pattern.Matches (first :: pattern) (segment :: segments)) :
    keyRank first.key segment pattern.keys segments = first.rank segment segments := by
  have hmatch := (matches_iff hwf).1 hmatches
  obtain ⟨hgreedy, hliteral, hrest⟩ := hwf
  cases first with
  | literal text =>
    obtain ⟨rfl, hpattern⟩ := hmatches
    exact keyRank_eq_zero.2 ⟨rfl, (matches_iff hrest).1 hpattern⟩
  | param name =>
    have hkeys : KeysMatch pattern.keys segments := (matches_iff hrest).1 hmatches
    simp only [key, rank]
    split
    · next h => exact keyRank_eq_zero.2 ⟨h.symm, hkeys⟩
    next h =>
    rw [keyRank_of_pos fun hzero => h (keyRank_eq_zero.1 hzero).1.symm, if_pos rfl]
  | wildcard =>
    have hkeys : KeysMatch pattern.keys segments := (matches_iff hrest).1 hmatches
    simp only [key, rank]
    split
    · next h => exact keyRank_eq_zero.2 ⟨h.symm, hkeys⟩
    next h =>
    rw [keyRank_of_pos fun hzero => h (keyRank_eq_zero.1 hzero).1.symm, if_neg (by decide),
      if_pos rfl]
  | greedy =>
  have hpattern : pattern = [] := hmatches
  subst hpattern
  simp only [key, rank]
  split
  · next h => exact keyRank_eq_zero.2 ⟨h.1.symm, h.2⟩
  next h =>
  have hpos : keyRank greedyKey segment (keys []) segments ≠ 0 := by
    intro hzero
    obtain ⟨hseg, hsegments⟩ := keyRank_eq_zero.1 hzero
    exact h ⟨hseg.symm, hsegments⟩
  rw [keyRank_of_pos hpos, if_neg (by decide), if_neg (by decide)]

theorem preference_eq (hwf : WellFormed pattern) (hmatches : pattern.Matches segments) :
    pattern.preference segments = keyPreference pattern.keys segments := by
  induction pattern generalizing segments with
  | nil => cases segments <;> rfl
  | cons first pattern ih =>
  cases segments with
  | nil => cases first <;> rfl
  | cons segment segments =>
  have hrank := keyRank_eq hwf hmatches
  have hgreedy := hwf.1
  have hrest := hwf.2.2
  have hkeys : keys (first :: pattern) = first.key :: keys pattern := rfl
  rw [hkeys, keyPreference, hrank, preference]
  cases first with
  | literal text => rw [ih hrest hmatches.2]
  | param name => rw [ih hrest hmatches]
  | wildcard => rw [ih hrest hmatches]
  | greedy =>
  rw [hgreedy rfl]
  cases segments <;> rfl

theorem collect_eq (hwf : WellFormed pattern) (hmatches : pattern.Matches segments)
    (paramValues : List Bytes) :
    (pattern.TakesRest segments ∧ collect pattern.keys segments paramValues = none) ∨
    (¬ pattern.TakesRest segments ∧
      collect pattern.keys segments paramValues = some (paramValues ++ pattern.taken segments)) := by
  induction pattern generalizing segments paramValues with
  | nil =>
    refine .inr ⟨by cases segments <;> exact id, ?_⟩
    cases segments <;> exact congrArg some (append_nil _).symm
  | cons first pattern ih =>
  cases segments with
  | nil => exact absurd hmatches (by cases first <;> exact id)
  | cons segment segments =>
  have hrank := keyRank_eq hwf hmatches
  have hgreedy := hwf.1
  have hrest := hwf.2.2
  have hkeys : keys (first :: pattern) = first.key :: keys pattern := rfl
  rw [hkeys, collect, hrank]
  cases first with
  | literal text => exact ih hrest hmatches.2 paramValues
  | param name =>
    by_cases hparam : segment = paramKey
    · have htaken : taken (.param name :: pattern) (segment :: segments) =
          taken pattern segments := by
        simp [taken, pairs, hparam]
      simp only [rank, if_pos hparam, htaken]
      exact ih hrest hmatches paramValues
    have htaken : taken (.param name :: pattern) (segment :: segments) =
        segment :: taken pattern segments := by
      simp [taken, pairs, hparam]
    simp only [rank, if_neg hparam, htaken]
    have hnext := ih hrest hmatches (paramValues ++ [segment])
    rw [append_assoc] at hnext
    exact hnext
  | wildcard =>
    by_cases hwildcard : segment = wildcardKey
    · simp only [rank, if_pos hwildcard]
      exact ih hrest hmatches paramValues
    simp only [rank, if_neg hwildcard]
    exact ih hrest hmatches paramValues
  | greedy =>
  have hpattern : pattern = [] := hmatches
  subst hpattern
  by_cases hrest' : segment = greedyKey ∧ segments = []
  · obtain ⟨rfl, rfl⟩ := hrest'
    refine .inr ⟨fun htakes => htakes rfl, ?_⟩
    simp only [rank, and_self, if_true]
    exact congrArg some (append_nil _).symm
  refine .inl ⟨fun heq => hrest' ?_, by simp only [rank, if_neg hrest']⟩
  obtain ⟨rfl, rfl⟩ := List.cons.inj heq
  exact ⟨rfl, rfl⟩

end Pattern

open Pattern

theorem ofSegment_literal {segment : Bytes} (h : ofSegment segment = .literal text) :
    text ≠ paramKey ∧ text ≠ wildcardKey ∧ text ≠ greedyKey := by
  unfold ofSegment at h
  split at h
  · exact absurd h nofun
  split at h
  · exact absurd h nofun
  split at h
  · exact absurd h nofun
  next hwildcard hgreedy hcolon =>
  injection h with htext
  subst htext
  refine ⟨?_, hwildcard, hgreedy⟩
  rintro rfl
  exact hcolon rfl

theorem validateSegment_ok {segment : Bytes}
    (h : validateSegment paramNames hasWildcard isLast segment = .ok (paramNames', hasWildcard')) :
    (ofSegment segment = .greedy → isLast = true) ∧
    paramNames' = paramNames ++ (ofSegment segment).name?.toList ∧
    ∀ name, (ofSegment segment).name? = some name → name ∉ paramNames := by
  unfold validateSegment at h
  split at h
  · cases h
  next first paramName =>
  split at h
  · next hfirst =>
    have hparam : ofSegment (first :: paramName) = .param paramName := by
      subst hfirst
      unfold ofSegment
      rw [if_neg (by intro heq; exact absurd (List.cons.inj heq).1 (by decide)),
        if_neg (by intro heq; exact absurd (List.cons.inj heq).1 (by decide)), if_pos head?_cons]
      rfl
    rw [hparam]
    split at h
    · cases h
    split at h
    · cases h
    split at h
    · cases h
    split at h
    · cases h
    next hnew =>
    injection h with hpair
    obtain ⟨rfl, rfl⟩ := Prod.mk.inj hpair
    refine ⟨by rintro ⟨⟩, rfl, ?_⟩
    rintro name heq
    injection heq with heq
    subst heq
    exact hnew
  next hfirst =>
  have hname : (ofSegment (first :: paramName)).name? = none := by
    unfold ofSegment
    split
    · rfl
    split
    · rfl
    rw [if_neg (by simpa using hfirst)]
    rfl
  rw [hname]
  split at h
  · split at h
    · cases h
    split at h
    · cases h
    next hlast =>
    injection h with hpair
    obtain ⟨rfl, rfl⟩ := Prod.mk.inj hpair
    exact ⟨fun _ => by simpa using hlast, (append_nil _).symm, by rintro _ ⟨⟩⟩
  next hwildcard =>
  split at h
  · cases h
  injection h with hpair
  obtain ⟨rfl, rfl⟩ := Prod.mk.inj hpair
  refine ⟨fun hgreedy => absurd (.inr ?_) hwildcard, (append_nil _).symm, by rintro _ ⟨⟩⟩
  unfold ofSegment at hgreedy
  split at hgreedy
  · cases hgreedy
  split at hgreedy
  · next heq => exact heq
  split at hgreedy
  · cases hgreedy
  cases hgreedy

theorem validateSegments_ok (hnames : paramNames.Nodup)
    (h : (validateSegments paramNames hasWildcard segments).isOk = true) :
    WellFormed (segments.map ofSegment) ∧
    (paramNames ++ Pattern.names (segments.map ofSegment)).Nodup := by
  induction segments generalizing paramNames hasWildcard with
  | nil => exact ⟨trivial, by simpa [Pattern.names] using hnames⟩
  | cons segment segments ih =>
  unfold validateSegments at h
  cases hseg : validateSegment paramNames hasWildcard segments.isEmpty segment with
  | error message =>
    rw [hseg] at h
    cases h
  | ok found =>
  obtain ⟨paramNames', hasWildcard'⟩ := found
  rw [hseg] at h
  obtain ⟨hgreedy, rfl, hnew⟩ := validateSegment_ok hseg
  have hnodup : (paramNames ++ (ofSegment segment).name?.toList).Nodup := by
    cases hname : (ofSegment segment).name? with
    | none => simpa using hnames
    | some name =>
    rw [Option.toList_some, nodup_append]
    refine ⟨hnames, nodup_singleton _, ?_⟩
    intro other hother name' hname' heq
    rw [List.mem_singleton.1 hname'] at heq
    exact hnew name hname (heq ▸ hother)
  obtain ⟨hwf, hall⟩ := ih hnodup h
  refine ⟨⟨?_, fun text htext => ofSegment_literal htext, hwf⟩, ?_⟩
  · intro heq
    rw [List.isEmpty_iff.1 (hgreedy heq)]
    rfl
  rw [append_assoc] at hall
  have hcons : Pattern.names ((segment :: segments).map ofSegment) =
      (ofSegment segment).name?.toList ++ Pattern.names (segments.map ofSegment) := by
    rw [Pattern.names, map_cons, filterMap_cons]
    cases (ofSegment segment).name? <;> rfl
  rw [hcons]
  exact hall

theorem Route.Accepted.wellFormed {method : HttpMethod} {route : Route η}
    (h : route.Accepted method) : route.pattern.WellFormed ∧ route.pattern.names.Nodup := by
  obtain ⟨hvalid, -⟩ := h
  unfold validatePath at hvalid
  split at hvalid
  · exact absurd hvalid nofun
  split at hvalid
  · exact absurd hvalid nofun
  split at hvalid
  · exact absurd hvalid nofun
  simp only at hvalid
  split at hvalid
  · exact absurd hvalid nofun
  exact validateSegments_ok nodup_nil hvalid

end Galay.Http
