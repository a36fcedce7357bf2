import Galay.Http.RoutePattern

/-!
# The trie of the fuzzy routes

A trie is what it holds at the ends of its paths of keys. Insertion sets the end of one path, and the
search finds the path that is preferred among those that match.
-/

namespace Galay.Http

open List

variable {η : Type*}

namespace RouteTrieNode

/-- What the trie holds at the end of a path of keys. -/
def terminal : List Bytes → RouteTrieNode η → Option (RouteEnd η)
  | [], trie => trie.isEnd
  | key :: keys, trie => (trie.child key).bind (terminal keys)

theorem child_setChild (node : RouteTrieNode η) (key other : Bytes) (child : RouteTrieNode η) :
    (node.setChild key child).child other = if other = key then some child else node.child other := by
  unfold RouteTrieNode.child setChild
  simp only [children]
  by_cases h : other = key
  · subst h
    rw [find?_cons_of_pos (by simp), if_pos rfl, Option.map_some]
  rw [find?_cons_of_neg (by simpa using fun heq => h heq.symm), if_neg h, find?_filter]
  congr 1
  congr 1
  funext entry
  by_cases hentry : entry.1 = other
  · have hne : entry.1 ≠ key := fun heq => h (hentry.symm.trans heq)
    simp [hentry, h]
  simp [hentry]

theorem terminal_empty (keys : List Bytes) : (empty : RouteTrieNode η).terminal keys = none := by
  cases keys with
  | nil => rfl
  | cons key keys => rfl

theorem terminal_getD_child (node : RouteTrieNode η) (key : Bytes) (keys : List Bytes) :
    ((node.child key).getD .empty).terminal keys = node.terminal (key :: keys) := by
  cases h : node.child key with
  | none => rw [Option.getD_none, terminal_empty, terminal, h, Option.bind_none]
  | some child => rw [Option.getD_some, terminal, h, Option.bind_some]

end RouteTrieNode

open RouteTrieNode PatternSegment

/-! ## Insertion -/

theorem insertRoute_cons (handler : η) (paramNames : List Bytes) (segment : Bytes)
    (rest : List Bytes) (node : RouteTrieNode η) :
    insertRoute handler paramNames (segment :: rest) node =
      node.setChild (ofSegment segment).key
        (insertRoute handler (paramNames ++ (ofSegment segment).name?.toList) rest
          ((node.child (ofSegment segment).key).getD .empty)) := by
  rw [insertRoute]
  unfold ofSegment
  by_cases hwildcard : segment = wildcardKey
  · rw [if_pos (.inl hwildcard), if_pos hwildcard, hwildcard]
    simp only [key, name?, Option.toList_none, append_nil]
  by_cases hgreedy : segment = greedyKey
  · rw [if_pos (.inr hgreedy), if_neg hwildcard, if_pos hgreedy, hgreedy]
    simp only [key, name?, Option.toList_none, append_nil]
  rw [if_neg (not_or.2 ⟨hwildcard, hgreedy⟩), if_neg hwildcard, if_neg hgreedy]
  by_cases hparam : segment.head? = some colon
  · rw [if_pos hparam, if_pos hparam]
    rfl
  rw [if_neg hparam, if_neg hparam]
  simp only [key, name?, Option.toList_none, append_nil]

/-- The keys of the nodes for the segments of a pattern. -/
def Pattern.keys (pattern : Pattern) : List Bytes := pattern.map PatternSegment.key

theorem terminal_insertRoute (handler : η) (segments paramNames keys : List Bytes)
    (node : RouteTrieNode η) :
    (insertRoute handler paramNames segments node).terminal keys =
      if keys = Pattern.keys (segments.map ofSegment) then
        some ⟨handler, paramNames ++ Pattern.names (segments.map ofSegment)⟩
      else node.terminal keys := by
  induction segments generalizing paramNames keys node with
  | nil =>
    cases keys with
    | nil => simp [insertRoute, terminal, RouteTrieNode.isEnd, Pattern.keys, Pattern.names]
    | cons key keys =>
    rw [if_neg (by simp [Pattern.keys])]
    rfl
  | cons segment rest ih =>
  rw [insertRoute_cons]
  cases keys with
  | nil =>
    rw [if_neg (by simp [Pattern.keys])]
    rfl
  | cons first keys =>
  rw [terminal, child_setChild]
  by_cases hfirst : first = (ofSegment segment).key
  · rw [if_pos hfirst, Option.bind_some, ih, terminal_getD_child, hfirst]
    have hnames : paramNames ++ (ofSegment segment).name?.toList ++
        Pattern.names (rest.map ofSegment) =
        paramNames ++ Pattern.names ((segment :: rest).map ofSegment) := by
      rw [append_assoc, Pattern.names, Pattern.names, map_cons, filterMap_cons]
      cases (ofSegment segment).name? with
      | none => rfl
      | some name => rfl
    rw [hnames]
    by_cases hkeys : keys = Pattern.keys (rest.map ofSegment)
    · rw [if_pos hkeys, if_pos (by rw [hkeys]; rfl)]
    have hne : (ofSegment segment).key :: keys ≠
        Pattern.keys ((segment :: rest).map ofSegment) :=
      fun heq => hkeys (List.cons.inj heq).2
    rw [if_neg hkeys, if_neg hne]
  have hne : first :: keys ≠ Pattern.keys ((segment :: rest).map ofSegment) :=
    fun heq => hfirst (List.cons.inj heq).1
  rw [if_neg hfirst, if_neg hne, terminal]

/-! ## Search -/

/-- A path of keys that the search can follow for the segments. -/
def KeysMatch : List Bytes → List Bytes → Prop
  | [], segments => segments = []
  | _ :: _, [] => False
  | key :: keys, segment :: segments =>
    (key = greedyKey ∧ keys = []) ∨
    ((key = segment ∨ key = paramKey ∨ key = wildcardKey) ∧ KeysMatch keys segments)

instance decidableKeysMatch : (keys segments : List Bytes) → Decidable (KeysMatch keys segments)
  | [], segments => inferInstanceAs (Decidable (segments = []))
  | _ :: _, [] => .isFalse nofun
  | key :: keys, segment :: segments =>
    have := decidableKeysMatch keys segments
    inferInstanceAs (Decidable ((key = greedyKey ∧ keys = []) ∨
      ((key = segment ∨ key = paramKey ∨ key = wildcardKey) ∧ KeysMatch keys segments)))

/-- In which of its four attempts the search comes to the child with the key. -/
def keyRank (key segment : Bytes) (keys segments : List Bytes) : Nat :=
  if key = segment ∧ KeysMatch keys segments then 0
  else if key = paramKey then 1
  else if key = wildcardKey then 2
  else 3

def keyPreference : List Bytes → List Bytes → List Nat
  | key :: keys, segment :: segments =>
    keyRank key segment keys segments :: keyPreference keys segments
  | _, _ => []

/-- The values that the search has collected at the end of the path of keys; there are none when the
path ends with `**`. -/
def collect : List Bytes → List Bytes → List Bytes → Option (List Bytes)
  | key :: keys, segment :: segments, paramValues =>
    match keyRank key segment keys segments with
    | 0 => collect keys segments paramValues
    | 1 => collect keys segments (paramValues ++ [segment])
    | 2 => collect keys segments paramValues
    | _ => none
  | _, _, paramValues => some paramValues

/-- The path of keys leads to an end of the trie, and none that does is preferred to it. -/
structure Finds (node : RouteTrieNode η) (segments keys : List Bytes) (last : RouteEnd η) :
    Prop where
  keysMatch : KeysMatch keys segments
  terminal : node.terminal keys = some last
  preferred : ∀ other, KeysMatch other segments → node.terminal other ≠ none →
    Precedes (keyPreference keys segments) (keyPreference other segments)

/-- The parameters for the values that the search has collected. -/
def boundParams (last : RouteEnd η) (paramValues : Option (List Bytes)) : RouteParams :=
  match paramValues with
  | some paramValues => bindParams last.paramNames paramValues
  | none => []

/-- Nothing is found and nothing matches, or what is found is preferred. -/
def Searches (node : RouteTrieNode η) (paramValues segments : List Bytes)
    (result : Option (η × RouteParams)) : Prop :=
  (result = none ∧ ∀ keys, KeysMatch keys segments → node.terminal keys = none) ∨
  ∃ keys last, Finds node segments keys last ∧
    result = some (last.handler, boundParams last (collect keys segments paramValues))

theorem searches_child {node : RouteTrieNode η} (key : Bytes) (paramValues : List Bytes)
    (ih : ∀ child : RouteTrieNode η, Searches child paramValues segments (searchRouteDfs child paramValues segments)) :
    (((node.child key).bind fun child => searchRouteDfs child paramValues segments) = none ∧
      ∀ keys, KeysMatch keys segments → node.terminal (key :: keys) = none) ∨
    ∃ keys last, KeysMatch keys segments ∧ node.terminal (key :: keys) = some last ∧
      (∀ other, KeysMatch other segments → node.terminal (key :: other) ≠ none →
        Precedes (keyPreference keys segments) (keyPreference other segments)) ∧
      ((node.child key).bind fun child => searchRouteDfs child paramValues segments) =
        some (last.handler, boundParams last (collect keys segments paramValues)) := by
  simp only [RouteTrieNode.terminal]
  cases hchild : node.child key with
  | none => exact .inl ⟨rfl, fun _ _ => rfl⟩
  | some child =>
  simp only [Option.bind_some]
  rcases ih child with hnone | ⟨keys, last, hfinds, hres⟩
  · exact .inl hnone
  exact .inr ⟨keys, last, hfinds.keysMatch, hfinds.terminal, hfinds.preferred, hres⟩

section KeyRank

variable {key segment : Bytes} {keys segments : List Bytes}

theorem keyRank_eq_zero : keyRank key segment keys segments = 0 ↔
    key = segment ∧ KeysMatch keys segments := by
  unfold keyRank
  split
  · next h => exact iff_of_true rfl h
  next h =>
  refine iff_of_false ?_ h
  split
  · nofun
  split <;> nofun

theorem keyRank_of_pos (h : keyRank key segment keys segments ≠ 0) :
    keyRank key segment keys segments = if key = paramKey then 1 else if key = wildcardKey then 2
      else 3 := by
  rw [Ne, keyRank_eq_zero] at h
  unfold keyRank
  rw [if_neg h]

section

variable (h : KeysMatch (key :: keys) (segment :: segments))
include h

/-- What each attempt of the search comes to. -/
theorem keyRank_cases :
    (keyRank key segment keys segments = 0 ∧ key = segment ∧ KeysMatch keys segments) ∨
    (keyRank key segment keys segments = 1 ∧ key = paramKey ∧ KeysMatch keys segments) ∨
    (keyRank key segment keys segments = 2 ∧ key = wildcardKey ∧ KeysMatch keys segments) ∨
    (keyRank key segment keys segments = 3 ∧ key = greedyKey ∧ keys = []) := by
  by_cases hzero : keyRank key segment keys segments = 0
  · exact .inl ⟨hzero, keyRank_eq_zero.1 hzero⟩
  have hrank := keyRank_of_pos hzero
  rw [keyRank_eq_zero] at hzero
  rcases h with ⟨rfl, hkeys⟩ | ⟨hkey, hkeys⟩
  · rw [if_neg (by decide), if_neg (by decide)] at hrank
    exact .inr (.inr (.inr ⟨hrank, rfl, hkeys⟩))
  rcases hkey with rfl | rfl | rfl
  · exact absurd ⟨rfl, hkeys⟩ hzero
  · rw [if_pos rfl] at hrank
    exact .inr (.inl ⟨hrank, rfl, hkeys⟩)
  rw [if_neg (by decide), if_pos rfl] at hrank
  exact .inr (.inr (.inl ⟨hrank, rfl, hkeys⟩))

theorem keyRank_eq_one (hrank : keyRank key segment keys segments = 1) :
    key = paramKey ∧ KeysMatch keys segments := by
  rcases keyRank_cases h with ⟨hother, -⟩ | ⟨-, hparam⟩ | ⟨hother, -⟩ | ⟨hother, -⟩
  · omega
  · exact hparam
  · omega
  omega

theorem keyRank_eq_two (hrank : keyRank key segment keys segments = 2) :
    key = wildcardKey ∧ KeysMatch keys segments := by
  rcases keyRank_cases h with ⟨hother, -⟩ | ⟨hother, -⟩ | ⟨-, hwildcard⟩ | ⟨hother, -⟩
  · omega
  · omega
  · exact hwildcard
  omega

end

theorem keyRank_paramKey : keyRank paramKey segment keys segments ≤ 1 := by
  by_cases hzero : keyRank paramKey segment keys segments = 0
  · omega
  rw [keyRank_of_pos hzero, if_pos rfl]

theorem keyRank_wildcardKey : keyRank wildcardKey segment keys segments ≤ 2 := by
  by_cases hzero : keyRank wildcardKey segment keys segments = 0
  · omega
  rw [keyRank_of_pos hzero, if_neg (by decide), if_pos rfl]

/-- Two paths of keys that are found in the same attempt go to the same child. -/
theorem eq_of_keyRank_eq (hmatch : KeysMatch (key :: keys) (segment :: segments))
    (hmatch' : KeysMatch (key' :: keys') (segment :: segments))
    (h : keyRank key segment keys segments = keyRank key' segment keys' segments) :
    key = key' ∧ ((keys = [] ∧ keys' = []) ∨
      (KeysMatch keys segments ∧ KeysMatch keys' segments)) := by
  have hcases := keyRank_cases hmatch
  have hcases' := keyRank_cases hmatch'
  rw [← h] at hcases'
  grind

end KeyRank

variable {node : RouteTrieNode η}

/-- A path of keys whose first key no attempt before comes to. -/
theorem finds_cons {key segment : Bytes} {keys : List Bytes}
    (hmatch : KeysMatch (key :: keys) (segment :: segments))
    (hterminal : node.terminal (key :: keys) = some last)
    (hfirst : ∀ key' keys', KeysMatch (key' :: keys') (segment :: segments) → node.terminal (key' :: keys') ≠ none → keyRank key segment keys segments ≤ keyRank key' segment keys' segments)
    (hrest : ∀ other, KeysMatch other segments → node.terminal (key :: other) ≠ none → keys = [] ∧ other = [] ∨ Precedes (keyPreference keys segments) (keyPreference other segments))
    : Finds node (segment :: segments) (key :: keys) last where
  keysMatch := hmatch
  terminal := hterminal
  preferred other hmatch' hterminal' := by
    cases other with
    | nil => exact absurd hmatch' nofun
    | cons key' keys' =>
    rw [keyPreference, keyPreference]
    rcases Nat.lt_or_eq_of_le (hfirst key' keys' hmatch' hterminal') with hlt | heq
    · exact .inl hlt
    refine .inr ⟨heq, ?_⟩
    obtain ⟨rfl, ⟨rfl, rfl⟩ | ⟨-, hkeys'⟩⟩ := eq_of_keyRank_eq hmatch hmatch' heq
    · exact Precedes.refl _
    rcases hrest keys' hkeys' hterminal' with ⟨rfl, rfl⟩ | hle
    · exact Precedes.refl _
    exact hle

/-- The attempts before one have come to no path of keys that leads to an end. -/
def Past (node : RouteTrieNode η) (segment : Bytes) (segments : List Bytes) (rank : Nat) : Prop :=
  ∀ key keys, KeysMatch (key :: keys) (segment :: segments) → node.terminal (key :: keys) ≠ none →
    rank ≤ keyRank key segment keys segments

/-- One of the first three attempts. -/
theorem searches_attempt {segment : Bytes} (paramValues : List Bytes) (rank : Nat) (key : Bytes)
    (values : List Bytes)
    (ih : ∀ child : RouteTrieNode η, Searches child values segments (searchRouteDfs child values segments))
    (hpast : Past node segment segments rank)
    (hkey : ∀ keys, KeysMatch keys segments → KeysMatch (key :: keys) (segment :: segments) ∧ keyRank key segment keys segments ≤ rank)
    (honly : ∀ key' keys', KeysMatch (key' :: keys') (segment :: segments) → keyRank key' segment keys' segments = rank → key' = key ∧ KeysMatch keys' segments)
    (hcollect : ∀ keys, keyRank key segment keys segments = rank → collect (key :: keys) (segment :: segments) paramValues = collect keys segments values)
    : (((node.child key).bind fun child => searchRouteDfs child values segments) = none ∧
      Past node segment segments (rank + 1)) ∨
    ∃ keys last, Finds node (segment :: segments) keys last ∧
      ((node.child key).bind fun child => searchRouteDfs child values segments) =
        some (last.handler, boundParams last (collect keys (segment :: segments) paramValues)) := by
  rcases searches_child key values ih with
    ⟨hnone, hnone'⟩ | ⟨keys, last, hmatch, hterminal, hbest, hres⟩
  · refine .inl ⟨hnone, ?_⟩
    intro key' keys' hmatch' hterminal'
    refine Nat.lt_of_le_of_ne (hpast key' keys' hmatch' hterminal') fun heq => ?_
    obtain ⟨rfl, hkeys'⟩ := honly key' keys' hmatch' heq.symm
    exact hterminal' (hnone' keys' hkeys')
  obtain ⟨hmatch', hle⟩ := hkey keys hmatch
  have hge := hpast key keys hmatch' (by rw [hterminal]; nofun)
  have hrank := Nat.le_antisymm hle hge
  refine .inr ⟨key :: keys, last, finds_cons hmatch' hterminal ?_ ?_, ?_⟩
  · rw [hrank]
    exact hpast
  · exact fun other h h' => .inr (hbest other h h')
  rw [hres, hcollect keys hrank]

theorem searches_greedy {segment : Bytes} (hpast : Past node segment segments 3) :
    Searches node paramValues (segment :: segments) ((node.child greedyKey).bind fun greedy =>
      greedy.isEnd.map fun last => (last.handler, [])) := by
  have hend : ((node.child greedyKey).bind fun greedy =>
      greedy.isEnd.map fun last => (last.handler, ([] : RouteParams))) =
      (node.terminal [greedyKey]).map fun last => (last.handler, []) := by
    simp only [RouteTrieNode.terminal, Option.map_bind]
    rfl
  -- the keys that lead to an end can only be `**`
  have honly : ∀ keys, KeysMatch keys (segment :: segments) → node.terminal keys ≠ none →
      keys = [greedyKey] ∧ keyPreference keys (segment :: segments) = [3] ∧
      collect keys (segment :: segments) paramValues = none := by
    intro keys hmatch hterminal
    cases keys with
    | nil => exact absurd hmatch nofun
    | cons key keys =>
    have hrank := hpast key keys hmatch hterminal
    rcases keyRank_cases hmatch with ⟨h, -⟩ | ⟨h, -⟩ | ⟨h, -⟩ | ⟨h, rfl, rfl⟩
    · omega
    · omega
    · omega
    exact ⟨rfl, by rw [keyPreference, h]; rfl, by simp only [collect, h]⟩
  rw [hend]
  cases hterminal : node.terminal [greedyKey] with
  | none =>
    refine .inl ⟨rfl, fun keys hmatch => ?_⟩
    by_contra hne
    rw [(honly keys hmatch hne).1] at hne
    exact hne hterminal
  | some last =>
  have hmatch : KeysMatch [greedyKey] (segment :: segments) := .inl ⟨rfl, rfl⟩
  obtain ⟨-, hpreference, hcollect⟩ := honly _ hmatch (by rw [hterminal]; nofun)
  refine .inr ⟨[greedyKey], last, ⟨hmatch, hterminal, ?_⟩, ?_⟩
  · intro other hmatch' hterminal'
    rw [hpreference, (honly other hmatch' hterminal').2.1]
    exact Precedes.refl _
  rw [hcollect]
  rfl

theorem searches_dfs (segments : List Bytes) (node : RouteTrieNode η) (paramValues : List Bytes) :
    Searches node paramValues segments (searchRouteDfs node paramValues segments) := by
  induction segments generalizing node paramValues with
  | nil =>
    unfold searchRouteDfs
    cases hend : node.isEnd with
    | none =>
      refine .inl ⟨rfl, ?_⟩
      intro keys hmatch
      cases keys with
      | nil => exact hend
      | cons key keys => exact absurd hmatch id
    | some last =>
    refine .inr ⟨[], last, ⟨rfl, hend, ?_⟩, rfl⟩
    intro other hmatch _
    cases other with
    | nil => exact Precedes.refl _
    | cons key keys => exact absurd hmatch id
  | cons segment segments ih =>
  unfold searchRouteDfs
  have hpast : Past node segment segments 0 := fun _ _ _ _ => Nat.zero_le _
  rcases searches_attempt paramValues 0 segment paramValues (fun child => ih child paramValues) hpast
    (fun keys hkeys => ⟨.inr ⟨.inl rfl, hkeys⟩, Nat.le_of_eq (keyRank_eq_zero.2 ⟨rfl, hkeys⟩)⟩)
    (fun key' keys' _ hrank => keyRank_eq_zero.1 hrank)
    (fun keys hrank => by simp only [collect, hrank]) with
    ⟨hexact, hpast⟩ | ⟨keys, last, hfinds, hexact⟩
  swap
  · exact .inr ⟨keys, last, hfinds, by rw [hexact, Option.some_or]⟩
  rw [hexact, Option.none_or]
  rcases searches_attempt paramValues 1 paramKey (paramValues ++ [segment])
    (fun child => ih child (paramValues ++ [segment])) hpast
    (fun keys hkeys => ⟨.inr ⟨.inr (.inl rfl), hkeys⟩, keyRank_paramKey⟩)
    (fun key' keys' hmatch hrank => keyRank_eq_one hmatch hrank)
    (fun keys hrank => by simp only [collect, hrank]) with
    ⟨hparam, hpast⟩ | ⟨keys, last, hfinds, hparam⟩
  swap
  · exact .inr ⟨keys, last, hfinds, by rw [hparam, Option.some_or]⟩
  rw [hparam, Option.none_or]
  rcases searches_attempt paramValues 2 wildcardKey paramValues (fun child => ih child paramValues) hpast
    (fun keys hkeys => ⟨.inr ⟨.inr (.inr rfl), hkeys⟩, keyRank_wildcardKey⟩)
    (fun key' keys' hmatch hrank => keyRank_eq_two hmatch hrank)
    (fun keys hrank => by simp only [collect, hrank]) with
    ⟨hwildcard, hpast⟩ | ⟨keys, last, hfinds, hwildcard⟩
  swap
  · exact .inr ⟨keys, last, hfinds, by rw [hwildcard, Option.some_or]⟩
  rw [hwildcard, Option.none_or]
  exact searches_greedy hpast

end Galay.Http
