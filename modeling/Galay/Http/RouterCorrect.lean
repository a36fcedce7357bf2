import Mathlib.Data.List.Induction
import Galay.Http.RouterSelection

/-!
# What the router finds

`findHandler` against the patterns: it finds a handler for the paths that some route matches, and it
is the handler of the selected route. The parameters are the right ones unless the route ends with
`**` or a segment of the path has the text of the key of parameters.
-/

namespace Galay.Http

open List
open Pattern

variable {η : Type*}

/-! ## The maps of the router -/

/-- The route is kept in the map of paths, for the path. -/
def ExactFor (method : HttpMethod) (path : Bytes) (route : Route η) : Prop :=
  route.Accepted method ∧ isFuzzyPattern route.path = false ∧ route.path = path

instance (method : HttpMethod) (path : Bytes) (route : Route η) :
    Decidable (ExactFor method path route) :=
  inferInstanceAs (Decidable (_ ∧ _))

/-- The route is kept in the trie, at the end of the keys. -/
def FuzzyFor (method : HttpMethod) (keys : List Bytes) (route : Route η) : Prop :=
  route.Accepted method ∧ isFuzzyPattern route.path = true ∧ route.pattern.keys = keys

instance (method : HttpMethod) (keys : List Bytes) (route : Route η) :
    Decidable (FuzzyFor method keys route) :=
  inferInstanceAs (Decidable (_ ∧ _))

namespace HttpRouter

variable (router : HttpRouter η)

def exactHandler (method : HttpMethod) (path : Bytes) : Option η :=
  (router.exactRoutes.lookup method).bind fun methodRoutes => methodRoutes.lookup path

def fuzzyEnd (method : HttpMethod) (keys : List Bytes) :
    Option (RouteEnd η) :=
  (router.fuzzyRoutes.lookup method).bind fun root => root.terminal keys

variable (route : Route η)

/-- The end of the keys of a route. -/
def endOf : RouteEnd η := ⟨route.handler, route.pattern.names⟩

/-- The call for a route. -/
def add : HttpRouter η :=
  router.addHandlerInternal route.method route.path route.handler

theorem exactHandler_add (method : HttpMethod) (path : Bytes) :
    (router.add route).exactHandler method path =
      if ExactFor method path route then some route.handler else router.exactHandler method path := by
  unfold add addHandlerInternal
  split
  · next hinv =>
    rw [if_neg]
    rintro ⟨⟨hvalid, -⟩, -⟩
    rw [hinv] at hvalid
    exact absurd hvalid nofun
  next hvalid =>
  split
  · next hfuzzy =>
    rw [if_neg]
    · rfl
    rintro ⟨-, hexact, -⟩
    exact absurd (hfuzzy.symm.trans hexact) nofun
  next hfuzzy =>
  simp only [exactHandler]
  by_cases hmethod : method = route.method
  · subst hmethod
    rw [AList.lookup_insert, Option.bind_some]
    by_cases hpath : path = route.path
    · subst hpath
      rw [AList.lookup_insert, if_pos]
      exact ⟨⟨by rw [hvalid]; rfl, rfl⟩, Bool.eq_false_iff.2 hfuzzy, rfl⟩
    rw [AList.lookup_insert_ne hpath, if_neg fun h => hpath h.2.2.symm]
    cases router.exactRoutes.lookup route.method with
    | none => rfl
    | some methodRoutes => rfl
  rw [AList.lookup_insert_ne hmethod, if_neg fun h => hmethod h.1.2.symm]

theorem fuzzyEnd_add (method : HttpMethod) (keys : List Bytes) :
    (router.add route).fuzzyEnd method keys =
      if FuzzyFor method keys route then some (endOf route) else router.fuzzyEnd method keys := by
  unfold add addHandlerInternal
  split
  · next hinv =>
    rw [if_neg]
    rintro ⟨⟨hvalid, -⟩, -⟩
    rw [hinv] at hvalid
    exact absurd hvalid nofun
  next hvalid =>
  split
  swap
  · next hexact =>
    rw [if_neg]
    · rfl
    rintro ⟨-, hfuzzy, -⟩
    exact hexact hfuzzy
  next hfuzzy =>
  simp only [fuzzyEnd]
  by_cases hmethod : method = route.method
  · subst hmethod
    rw [AList.lookup_insert, Option.bind_some, terminal_insertRoute]
    by_cases hkeys : keys = Pattern.keys ((splitPath route.path).map PatternSegment.ofSegment)
    · rw [if_pos hkeys, if_pos]
      · rfl
      exact ⟨⟨by rw [hvalid]; rfl, rfl⟩, hfuzzy, hkeys.symm⟩
    rw [if_neg hkeys, if_neg fun h => hkeys h.2.2.symm]
    cases router.fuzzyRoutes.lookup route.method with
    | none => exact RouteTrieNode.terminal_empty keys
    | some root => rfl
  rw [AList.lookup_insert_ne hmethod, if_neg fun h => hmethod h.1.2.symm]

end HttpRouter

open HttpRouter

theorem value_ofRoutes [DecidablePred p] (read : HttpRouter η → Option β) (hempty : read {} = none)
    (hadd : ∀ router route, read (HttpRouter.add router route) =
      if p route then some (f route) else read router) (routes : List (Route η)) :
    read (.ofRoutes routes) = ((routes.filter fun route => p route).getLast?).map f := by
  induction routes using List.reverseRecOn with
  | nil => exact hempty
  | append_singleton routes route ih =>
  have hlast : HttpRouter.ofRoutes (routes ++ [route]) = (HttpRouter.ofRoutes routes).add route := by
    unfold HttpRouter.ofRoutes
    rw [foldl_append]
    rfl
  rw [hlast, hadd, filter_append]
  by_cases hp : p route
  · rw [if_pos hp, filter_cons_of_pos (by simpa using hp), filter_nil, getLast?_concat]
    rfl
  rw [if_neg hp, filter_cons_of_neg (by simpa using hp), filter_nil, append_nil, ih]

theorem exactHandler_ofRoutes (routes : List (Route η)) (method : HttpMethod) (path : Bytes) :
    (HttpRouter.ofRoutes routes).exactHandler method path =
      ((routes.filter fun route => ExactFor method path route).getLast?).map (·.handler) :=
  value_ofRoutes (fun router => router.exactHandler method path) rfl
    (fun router route => exactHandler_add router route method path) routes

theorem fuzzyEnd_ofRoutes (routes : List (Route η)) (method : HttpMethod) (keys : List Bytes) :
    (HttpRouter.ofRoutes routes).fuzzyEnd method keys =
      ((routes.filter fun route => FuzzyFor method keys route).getLast?).map endOf :=
  value_ofRoutes (fun router => router.fuzzyEnd method keys) rfl
    (fun router route => fuzzyEnd_add router route method keys) routes

/-! ## The selected route -/

section Selected

variable {routes : List (Route η)} {method : HttpMethod} {path : Bytes}

variable {route : Route η}

theorem mem_matchingRoutes : route ∈ matchingRoutes routes method path ↔
    route ∈ routes ∧ route.Accepted method ∧ route.Matches path := by
  unfold matchingRoutes
  rw [mem_filter, decide_eq_true_eq]

theorem selectedRoute_eq [DecidablePred p]
    (h : ∀ route ∈ routes, p route ↔ (route.Accepted method ∧ route.Matches path) ∧
      ∀ other ∈ matchingRoutes routes method path,
        Precedes (route.preference path) (other.preference path)) :
    selectedRoute routes method path = (routes.filter fun route => p route).getLast? := by
  unfold selectedRoute
  conv_lhs => rw [matchingRoutes, filter_filter]
  congr 1
  apply filter_congr
  intro route hmem
  rw [Bool.eq_iff_iff, Bool.and_eq_true, decide_eq_true_eq, decide_eq_true_eq, decide_eq_true_eq,
    h route hmem]
  exact and_comm

theorem selectedRoute_eq_none (h : matchingRoutes routes method path = []) :
    selectedRoute routes method path = none := by
  unfold selectedRoute
  rw [h]
  rfl

/-- The keys of paths that are found in the same attempts are the same. -/
theorem keys_eq_of_keyPreference_eq {keys : List Bytes}
    (hkeys : KeysMatch keys segments) (hother : KeysMatch other segments)
    (h : keyPreference keys segments = keyPreference other segments) : keys = other := by
  induction keys generalizing other segments with
  | nil =>
    obtain rfl : segments = [] := hkeys
    cases other with
    | nil => rfl
    | cons key other => exact absurd hother id
  | cons key keys ih =>
  cases segments with
  | nil => exact absurd hkeys id
  | cons segment segments =>
  cases other with
  | nil => exact absurd hother nofun
  | cons key' other =>
  obtain ⟨hrank, hrest⟩ := List.cons.inj h
  obtain ⟨rfl, ⟨rfl, rfl⟩ | ⟨hkeys', hother'⟩⟩ := eq_of_keyRank_eq hkeys hother hrank
  · rfl
  rw [ih hkeys' hother' hrest]

theorem Route.matches_fuzzy (hacc : route.Accepted method)
    (hfuzzy : isFuzzyPattern route.path = true) :
    route.Matches path ↔ KeysMatch route.pattern.keys (splitPath path) := by
  rw [← matches_iff hacc.wellFormed.1]
  unfold Route.Matches
  rw [if_pos hfuzzy]

theorem Route.preference_fuzzy (hacc : route.Accepted method)
    (hfuzzy : isFuzzyPattern route.path = true) (hmatches : route.Matches path) :
    route.preference path = 1 :: keyPreference route.pattern.keys (splitPath path) := by
  have hpattern := hmatches
  unfold Route.Matches at hpattern
  rw [if_pos hfuzzy] at hpattern
  unfold Route.preference
  rw [if_pos hfuzzy, preference_eq hacc.wellFormed.1 hpattern]

/-- A path in the map of paths comes first. -/
theorem selectedRoute_exact (hmem : route ∈ routes) (hroute : ExactFor method path route) :
    selectedRoute routes method path =
      (routes.filter fun route => ExactFor method path route).getLast? := by
  have hmatches {other : Route η} (hother : ExactFor method path other) : other.Matches path := by
    unfold Route.Matches
    rw [if_neg (by rw [hother.2.1]; nofun)]
    exact hother.2.2
  have hpreference {other : Route η} (hother : isFuzzyPattern other.path = false) :
      other.preference path = [0] := by
    unfold Route.preference
    rw [if_neg (by rw [hother]; nofun)]
  apply selectedRoute_eq
  intro other _
  constructor
  · intro hother
    refine ⟨⟨hother.1, hmatches hother⟩, ?_⟩
    intro third _
    rw [hpreference hother.2.1]
    unfold Route.preference
    split
    · exact .inl Nat.zero_lt_one
    exact Precedes.refl _
  rintro ⟨⟨hacc, hother⟩, hfirst⟩
  have hle := hfirst route (mem_matchingRoutes.2 ⟨hmem, hroute.1, hmatches hroute⟩)
  rw [hpreference hroute.2.1] at hle
  have hexact : isFuzzyPattern other.path = false := by
    by_contra hfuzzy
    rw [Bool.not_eq_false] at hfuzzy
    unfold Route.preference at hle
    rw [if_pos hfuzzy] at hle
    rcases hle with hlt | ⟨heq, -⟩
    · omega
    omega
  unfold Route.Matches at hother
  rw [if_neg (by rw [hexact]; nofun)] at hother
  exact ⟨hacc, hexact, hother⟩

theorem selectedRoute_fuzzy {keys : List Bytes}
    (hexact : ∀ route ∈ routes, ¬ ExactFor method path route)
    (hroot : (HttpRouter.ofRoutes routes).fuzzyRoutes.lookup method = some root)
    (hfinds : Finds root (splitPath path) keys last) : selectedRoute routes method path =
      (routes.filter fun route => FuzzyFor method keys route).getLast? := by
  -- the keys of every fuzzy route lead to an end
  have hend {route : Route η} (hmem : route ∈ routes) (hfuzzy : isFuzzyPattern route.path = true)
      (hacc : route.Accepted method) : root.terminal route.pattern.keys ≠ none := by
    have hval := fuzzyEnd_ofRoutes routes method route.pattern.keys
    rw [fuzzyEnd, hroot, Option.bind_some] at hval
    rw [hval, Ne, Option.map_eq_none_iff, getLast?_eq_none_iff, filter_eq_nil_iff]
    intro hnone
    exact hnone route hmem (decide_eq_true ⟨hacc, hfuzzy, rfl⟩)
  have hfuzzy {route : Route η} (hmem : route ∈ routes) (hacc : route.Accepted method)
      (hmatches : route.Matches path) : isFuzzyPattern route.path = true := by
    by_contra hnot
    rw [Bool.not_eq_true] at hnot
    unfold Route.Matches at hmatches
    rw [if_neg (by rw [hnot]; nofun)] at hmatches
    exact hexact route hmem ⟨hacc, hnot, hmatches⟩
  -- the route that is found
  obtain ⟨found, hfound, hfoundFor⟩ : ∃ found ∈ routes, FuzzyFor method keys found := by
    have hval := fuzzyEnd_ofRoutes routes method keys
    rw [fuzzyEnd, hroot, Option.bind_some, hfinds.terminal, eq_comm, Option.map_eq_some_iff] at hval
    obtain ⟨found, hlast, -⟩ := hval
    obtain ⟨hmem, hfor⟩ := List.mem_filter.1 (mem_of_getLast? hlast)
    exact ⟨found, hmem, of_decide_eq_true hfor⟩
  have hmatchesFor {route : Route η} (hfor : FuzzyFor method keys route) : route.Matches path := by
    rw [Route.matches_fuzzy hfor.1 hfor.2.1, hfor.2.2]
    exact hfinds.keysMatch
  apply selectedRoute_eq
  intro route hmem
  constructor
  · intro hfor
    refine ⟨⟨hfor.1, hmatchesFor hfor⟩, ?_⟩
    intro other hother
    obtain ⟨hmem', hacc', hmatches'⟩ := mem_matchingRoutes.1 hother
    have hfuzzy' := hfuzzy hmem' hacc' hmatches'
    rw [Route.preference_fuzzy hfor.1 hfor.2.1 (hmatchesFor hfor),
      Route.preference_fuzzy hacc' hfuzzy' hmatches', hfor.2.2]
    exact .inr ⟨rfl, hfinds.preferred _ ((Route.matches_fuzzy hacc' hfuzzy').1 hmatches')
      (hend hmem' hfuzzy' hacc')⟩
  rintro ⟨⟨hacc, hmatches⟩, hfirst⟩
  have hfuzzy' := hfuzzy hmem hacc hmatches
  have hkeys := (Route.matches_fuzzy hacc hfuzzy').1 hmatches
  have hle := hfirst found (mem_matchingRoutes.2 ⟨hfound, hfoundFor.1, hmatchesFor hfoundFor⟩)
  rw [Route.preference_fuzzy hacc hfuzzy' hmatches,
    Route.preference_fuzzy hfoundFor.1 hfoundFor.2.1 (hmatchesFor hfoundFor), hfoundFor.2.2] at hle
  have hle' := hle.resolve_left (Nat.lt_irrefl 1)
  have hge := hfinds.preferred _ hkeys (hend hmem hfuzzy' hacc)
  refine ⟨hacc, hfuzzy', ?_⟩
  exact keys_eq_of_keyPreference_eq hkeys hfinds.keysMatch (Precedes.antisymm hle'.2 hge)

/-- The parameters for the selected route. -/
def matchParams (route : Route η) (path : Bytes) : RouteParams :=
  if isFuzzyPattern route.path then
    boundParams (endOf route) (collect route.pattern.keys (splitPath path) [])
  else []

theorem findHandler_ofRoutes (routes : List (Route η)) (method : HttpMethod) (path : Bytes) :
    (HttpRouter.ofRoutes routes).findHandler method path =
      match selectedRoute routes method path with
      | some route => { handler := some route.handler, params := matchParams route path }
      | none => {} := by
  have hhandler := exactHandler_ofRoutes routes method path
  unfold findHandler
  unfold exactHandler at hhandler
  rw [hhandler]
  cases hlast : (routes.filter fun route => ExactFor method path route).getLast? with
  | some route =>
    obtain ⟨hmem, hfor⟩ := List.mem_filter.1 (mem_of_getLast? hlast)
    have hexact := of_decide_eq_true hfor
    rw [selectedRoute_exact hmem hexact, hlast]
    simp only [Option.map_some, matchParams, hexact.2.1]
    rfl
  | none =>
  have hexact : ∀ route ∈ routes, ¬ ExactFor method path route := by
    intro route hmem hfor
    rw [getLast?_eq_none_iff, filter_eq_nil_iff] at hlast
    exact hlast route hmem (decide_eq_true hfor)
  -- with no keys that match there is no route that matches
  have hnothing (hends : ∀ keys, KeysMatch keys (splitPath path) →
      (HttpRouter.ofRoutes routes).fuzzyEnd method keys = none) :
      selectedRoute routes method path = none := by
    refine selectedRoute_eq_none (List.eq_nil_iff_forall_not_mem.2 fun route hroute => ?_)
    obtain ⟨hmem, hacc, hmatches⟩ := mem_matchingRoutes.1 hroute
    by_cases hfuzzy : isFuzzyPattern route.path = true
    · have hend := hends _ ((Route.matches_fuzzy hacc hfuzzy).1 hmatches)
      rw [fuzzyEnd_ofRoutes, Option.map_eq_none_iff, getLast?_eq_none_iff,
        filter_eq_nil_iff] at hend
      exact hend route hmem (decide_eq_true ⟨hacc, hfuzzy, rfl⟩)
    unfold Route.Matches at hmatches
    rw [if_neg hfuzzy] at hmatches
    exact hexact route hmem ⟨hacc, Bool.eq_false_iff.2 hfuzzy, hmatches⟩
  simp only [Option.map_none]
  cases hroot : (HttpRouter.ofRoutes routes).fuzzyRoutes.lookup method with
  | none =>
    rw [hnothing fun keys _ => by rw [fuzzyEnd, hroot]; rfl]
    rfl
  | some root =>
  rw [Option.bind_some, searchRoutePath_eq]
  rcases searches_dfs (splitPath path) root [] with ⟨hnone, hends⟩ | ⟨keys, last, hfinds, hres⟩
  · rw [searchRoute, hnone, hnothing fun keys hmatch => by
      rw [fuzzyEnd, hroot, Option.bind_some, hends keys hmatch]]
  have hval := fuzzyEnd_ofRoutes routes method keys
  rw [fuzzyEnd, hroot, Option.bind_some, hfinds.terminal, eq_comm, Option.map_eq_some_iff] at hval
  obtain ⟨route, hroute, rfl⟩ := hval
  obtain ⟨hmem, hfor⟩ := List.mem_filter.1 (mem_of_getLast? hroute)
  obtain ⟨-, hfuzzy, rfl⟩ := of_decide_eq_true hfor
  rw [searchRoute, hres, selectedRoute_fuzzy hexact hroot hfinds, hroute]
  simp only [matchParams, hfuzzy, if_true]
  rfl

end Selected

/-! ## Parameters -/

variable {params : RouteParams}

theorem emplace_of_not_mem (h : name ∉ params.map (·.1)) :
    RouteParams.emplace name value params = params ++ [(name, value)] := by
  induction params with
  | nil => rfl
  | cons entry params ih =>
  rw [map_cons, mem_cons, not_or] at h
  rw [RouteParams.emplace, if_neg fun heq => h.1 heq.symm, ih h.2]
  rfl

/-- Distinct names are bound one after the other. -/
theorem bindParams_eq {names : List Bytes} (hnames : names.Nodup) :
    bindParams names values = names.zip values := by
  suffices h : ∀ params : RouteParams, (∀ name ∈ names, name ∉ params.map (·.1)) →
      (names.zip values).foldl (fun params pair => RouteParams.emplace pair.1 pair.2 params) params =
        params ++ names.zip values from h [] fun _ _ => not_mem_nil
  induction names generalizing values with
  | nil => exact fun params _ => (append_nil params).symm
  | cons name names ih =>
  intro params hparams
  cases values with
  | nil => exact (append_nil params).symm
  | cons value values =>
  obtain ⟨hnew, hrest⟩ := List.nodup_cons.1 hnames
  rw [zip_cons_cons, foldl_cons,
    emplace_of_not_mem (hparams name mem_cons_self), ih hrest, append_assoc]
  · rfl
  intro other hother
  rw [map_append, mem_append, not_or]
  refine ⟨hparams other (mem_cons_of_mem _ hother), ?_⟩
  rw [map_singleton, mem_singleton]
  rintro rfl
  exact hnew hother

theorem find_eq_some (hnames : (params.map (·.1)).Nodup)
    (hmem : (name, value) ∈ params) : params.find name = some value := by
  induction params with
  | nil => exact absurd hmem not_mem_nil
  | cons entry params ih =>
  obtain ⟨hnew, hrest⟩ := List.nodup_cons.1 hnames
  unfold RouteParams.find
  rcases List.mem_cons.1 hmem with rfl | hmem
  · rw [find?_cons_of_pos (by simp)]
    rfl
  have hne : entry.1 ≠ name := by
    rintro rfl
    exact hnew (List.mem_map.2 ⟨_, hmem, rfl⟩)
  rw [find?_cons_of_neg (by simpa using hne)]
  exact ih hrest hmem

theorem find_eq_none (h : name ∉ params.map (·.1)) : params.find name = none := by
  unfold RouteParams.find
  rw [Option.map_eq_none_iff, find?_eq_none]
  intro entry hmem heq
  exact h (List.mem_map.2 ⟨entry, hmem, of_decide_eq_true heq⟩)

namespace Pattern

variable {pattern : Pattern} {segments : List Bytes}

theorem mem_names : name ∈ pattern.names ↔ ∃ i : Nat, pattern[i]? = some (.param name) := by
  have hname (segment : PatternSegment) : segment.name? = some name ↔ segment = .param name := by
    cases segment <;> simp [PatternSegment.name?]
  unfold names
  rw [mem_filterMap]
  simp only [hname, exists_eq_right, mem_iff_getElem?]

theorem pairs_spec (hmatches : pattern.Matches segments) :
    (pattern.pairs segments).map (·.1) = pattern.names ∧
    ∀ (i : Nat) (name : Bytes), pattern[i]? = some (.param name) →
      ∃ segment, segments[i]? = some segment ∧ (name, segment) ∈ pattern.pairs segments := by
  induction pattern generalizing segments with
  | nil => exact ⟨by cases segments <;> rfl, by rintro _ _ ⟨⟩⟩
  | cons first pattern ih =>
  cases segments with
  | nil => exact absurd hmatches (by cases first <;> exact id)
  | cons segment segments =>
  -- the segments after the first one
  have hnext (hrest : Matches pattern segments) (hfirst : first.name? = none) :
      (pairs pattern segments).map (·.1) = names (first :: pattern) ∧
      ∀ (i : Nat) (name : Bytes), (first :: pattern)[i]? = some (.param name) →
        ∃ found, (segment :: segments)[i]? = some found ∧
          (name, found) ∈ pairs pattern segments := by
    obtain ⟨hnames, hpairs⟩ := ih hrest
    refine ⟨?_, ?_⟩
    · rw [hnames, names, names, filterMap_cons, hfirst]
    intro i name hi
    cases i with
    | zero =>
      rw [getElem?_cons_zero] at hi
      injection hi with hi
      rw [hi] at hfirst
      cases hfirst
    | succ i => exact hpairs i name hi
  cases first with
  | literal text => exact hnext hmatches.2 rfl
  | wildcard => exact hnext hmatches rfl
  | greedy =>
    have hpattern : pattern = [] := hmatches
    subst hpattern
    refine ⟨by cases segments <;> rfl, ?_⟩
    intro i name hi
    cases i with
    | zero => cases hi
    | succ i => cases hi
  | param name =>
  obtain ⟨hnames, hpairs⟩ := ih hmatches
  refine ⟨by rw [pairs, map_cons, hnames]; rfl, ?_⟩
  intro i other hi
  cases i with
  | zero =>
    rw [getElem?_cons_zero] at hi
    injection hi with hi
    injection hi with hi
    subst hi
    exact ⟨segment, rfl, mem_cons_self⟩
  | succ i =>
  obtain ⟨found, hfound, hmem⟩ := hpairs i other hi
  exact ⟨found, hfound, mem_cons_of_mem _ hmem⟩

/-- No segment gets lost: the route does not end with a `**` that stands for the rest, and no
parameter is for a segment with the text of their key. -/
def Clean (pattern : Pattern) (segments : List Bytes) : Prop :=
  pattern.names = [] ∨
  (¬ pattern.TakesRest segments ∧ ∀ pair ∈ pattern.pairs segments, pair.2 ≠ paramKey)

theorem bindsTo_of_names_eq_nil (h : pattern.names = []) (params : RouteParams) :
    pattern.BindsTo segments params := by
  intro i name hi
  have hmem := mem_names.2 ⟨i, hi⟩
  rw [h] at hmem
  exact absurd hmem not_mem_nil

theorem not_bindsTo (hmatches : pattern.Matches segments)
    (hname : name ∈ pattern.names) (hfind : params.find name = none) :
    ¬ pattern.BindsTo segments params := by
  intro hbinds
  obtain ⟨i, hi⟩ := mem_names.1 hname
  obtain ⟨segment, hseg, -⟩ := (pairs_spec hmatches).2 i name hi
  have hval := hbinds i name hi
  rw [hfind, hseg] at hval
  exact absurd hval nofun

theorem bindsTo_iff {last : RouteEnd η} (hwf : pattern.WellFormed) (hnames : pattern.names.Nodup)
    (hmatches : pattern.Matches segments) (hlast : last.paramNames = pattern.names) :
    pattern.BindsTo segments (boundParams last (collect pattern.keys segments [])) ↔
      pattern.Clean segments := by
  by_cases hnone : pattern.names = []
  · exact iff_of_true (bindsTo_of_names_eq_nil hnone _) (.inl hnone)
  obtain ⟨hfirst, hpairs⟩ := pairs_spec hmatches
  rcases collect_eq hwf hmatches [] with ⟨htakes, hcollect⟩ | ⟨htakes, hcollect⟩
  · obtain ⟨name, hname⟩ := exists_mem_of_ne_nil _ hnone
    refine iff_of_false ?_ fun hclean => (hclean.resolve_left hnone).1 htakes
    rw [hcollect]
    exact not_bindsTo hmatches hname rfl
  rw [hcollect, boundParams, hlast, nil_append, bindParams_eq hnames]
  by_cases hkeys : ∀ pair ∈ pattern.pairs segments, pair.2 ≠ paramKey
  · refine iff_of_true ?_ (.inr ⟨htakes, hkeys⟩)
    have htaken : pattern.taken segments = (pattern.pairs segments).map (·.2) := by
      unfold taken
      rw [List.filter_eq_self.2 fun pair hmem => decide_eq_true (hkeys pair hmem)]
    rw [← zip_of_prod hfirst htaken.symm]
    intro i name hi
    obtain ⟨segment, hseg, hmem⟩ := hpairs i name hi
    rw [hseg, find_eq_some (hfirst ▸ hnames) hmem]
  refine iff_of_false ?_ fun hclean => hkeys (hclean.resolve_left hnone).2
  -- there are fewer values than names
  have hlen : (pattern.taken segments).length < pattern.names.length := by
    unfold taken
    rw [← hfirst, length_map, length_map, length_filter_lt_length_iff_exists]
    obtain ⟨pair, hmem, hpair⟩ : ∃ pair ∈ pattern.pairs segments, pair.2 = paramKey := by
      simpa using hkeys
    exact ⟨pair, hmem, by simpa using hpair⟩
  refine not_bindsTo hmatches (getElem_mem hlen) (find_eq_none ?_)
  intro hmem
  obtain ⟨pair, hpair, heq⟩ := List.mem_map.1 hmem
  obtain ⟨j, hj, rfl⟩ := getElem_of_mem hpair
  rw [length_zip] at hj
  rw [getElem_zip] at heq
  have hindex := (List.Nodup.getElem_inj_iff hnames).1 heq
  omega

end Pattern

/-! ## Requests -/

theorem mem_of_mem_splitPath {segment : Bytes} (hseg : segment ∈ splitPath path)
    (hbyte : byte ∈ segment) : byte ∈ path := by
  induction h : path.length using Nat.strong_induction_on generalizing path with
  | _ length ih =>
  subst h
  rw [splitPath] at hseg
  split at hseg
  · exact absurd hseg not_mem_nil
  next first rest hnext =>
  have hlen := nextRouteSegment_length hnext
  -- both parts are made of bytes of the path
  have hparts : (byte ∈ first → byte ∈ path) ∧ (byte ∈ rest → byte ∈ path) := by
    unfold nextRouteSegment at hnext
    split at hnext
    · exact absurd hnext nofun
    next initial tail heq =>
    obtain ⟨rfl, rfl⟩ := Prod.mk.inj (Option.some.inj hnext)
    have hskipped : ∀ other ∈ initial :: tail, other ∈ path := by
      rw [← heq]
      exact (dropWhile_suffix _).subset
    exact ⟨fun hmem => hskipped byte (( takeWhile_prefix _).subset hmem),
      fun hmem => hskipped byte ((dropWhile_suffix _).subset hmem)⟩
  rcases List.mem_cons.1 hseg with rfl | hseg
  · exact hparts.1 hbyte
  exact hparts.2 (ih rest.length hlen hseg rfl)

theorem Route.names_eq_nil {route : Route η} (h : isFuzzyPattern route.path = false) :
    route.pattern.names = [] := by
  rw [eq_nil_iff_forall_not_mem]
  intro name hname
  obtain ⟨i, hi⟩ := mem_names.1 hname
  obtain ⟨segment, hseg, heq⟩ := List.mem_map.1 (mem_of_getElem? hi)
  have hcolon : colon ∈ segment := by
    unfold PatternSegment.ofSegment at heq
    split at heq
    · exact absurd heq nofun
    split at heq
    · exact absurd heq nofun
    split at heq
    · next hhead => exact mem_of_mem_head? hhead
    exact absurd heq nofun
  have hmem := mem_of_mem_splitPath hseg hcolon
  unfold isFuzzyPattern at h
  rw [Bool.or_eq_false_iff] at h
  exact absurd (List.contains_iff_mem.2 hmem) (by rw [h.1]; nofun)

/-- What the router should do with a request: find a handler if and only if some route matches, bind
the parameters of the selected route, and find the same with both of its searches. -/
structure RoutesRight (routes : List (Route η)) (method : HttpMethod) (path : Bytes) : Prop where
  found : ((HttpRouter.ofRoutes routes).findHandler method path).handler.isSome = true ↔
    ∃ route ∈ routes, route.Accepted method ∧ route.Matches path
  bound : ∀ route, selectedRoute routes method path = some route →
    ((HttpRouter.ofRoutes routes).findHandler method path).handler = some route.handler ∧
    route.pattern.BindsTo (splitPath path)
      ((HttpRouter.ofRoutes routes).findHandler method path).params
  agree : ∀ root, (HttpRouter.ofRoutes routes).fuzzyRoutes.lookup method = some root →
    searchRoutePath root path = searchRoute root (splitPath path)

theorem exists_selectedRoute {route : Route η} (h : selectedRoute routes method path = some route) :
    route ∈ routes ∧ route.Accepted method ∧ route.Matches path :=
  mem_matchingRoutes.1 (List.mem_filter.1 (mem_of_getLast? h)).1

theorem matchingRoutes_eq_nil {routes : List (Route η)}
    (h : selectedRoute routes method path = none) : matchingRoutes routes method path = [] := by
  have hleast (list : List (Route η)) (hne : list ≠ []) :
      ∃ route ∈ list, ∀ other ∈ list, Precedes (route.preference path) (other.preference path) := by
    induction list with
    | nil => exact absurd rfl hne
    | cons first rest ih =>
    by_cases hrest : rest = []
    · subst hrest
      refine ⟨first, mem_cons_self, fun other hother => ?_⟩
      rw [List.mem_singleton.1 hother]
      exact Precedes.refl _
    obtain ⟨route, hroute, hfirst⟩ := ih hrest
    rcases Precedes.total (first.preference path) (route.preference path) with hle | hle
    · refine ⟨first, mem_cons_self, fun other hother => ?_⟩
      rcases List.mem_cons.1 hother with rfl | hother
      · exact Precedes.refl _
      exact Precedes.trans hle (hfirst other hother)
    refine ⟨route, mem_cons_of_mem _ hroute, fun other hother => ?_⟩
    rcases List.mem_cons.1 hother with rfl | hother
    · exact hle
    exact hfirst other hother
  by_contra hne
  obtain ⟨route, hroute, hfirst⟩ := hleast _ hne
  unfold selectedRoute at h
  rw [getLast?_eq_none_iff, filter_eq_nil_iff] at h
  exact h route hroute (decide_eq_true hfirst)

/-- The router does what it should exactly for the requests for which the selected route loses no
segment. -/
theorem routesRight_iff (routes : List (Route η)) (method : HttpMethod) (path : Bytes) :
    RoutesRight routes method path ↔ ∀ route, selectedRoute routes method path = some route →
      route.pattern.Clean (splitPath path) := by
  have hfind := findHandler_ofRoutes routes method path
  have hbinds {route : Route η} (hselected : selectedRoute routes method path = some route) :
      route.pattern.BindsTo (splitPath path) (matchParams route path) ↔
        route.pattern.Clean (splitPath path) := by
    obtain ⟨-, hacc, hmatches⟩ := exists_selectedRoute hselected
    unfold matchParams
    split
    · next hfuzzy =>
      obtain ⟨hwf, hnames⟩ := hacc.wellFormed
      unfold Route.Matches at hmatches
      rw [if_pos hfuzzy] at hmatches
      exact bindsTo_iff hwf hnames hmatches rfl
    next hexact =>
    have hnames := Route.names_eq_nil (Bool.eq_false_iff.2 hexact)
    exact iff_of_true (bindsTo_of_names_eq_nil hnames _) (.inl hnames)
  constructor
  · intro hright route hselected
    have hbound := (hright.bound route hselected).2
    rw [hfind, hselected] at hbound
    exact (hbinds hselected).1 hbound
  intro hclean
  refine ⟨?_, ?_, fun root _ => searchRoutePath_eq root path⟩
  · rw [hfind]
    cases hselected : selectedRoute routes method path with
    | none =>
      refine iff_of_false nofun ?_
      rintro ⟨route, hmem, hroute⟩
      have hmatching := mem_matchingRoutes.2 ⟨hmem, hroute⟩
      rw [matchingRoutes_eq_nil hselected] at hmatching
      exact absurd hmatching not_mem_nil
    | some route =>
      obtain ⟨hmem, hroute⟩ := exists_selectedRoute hselected
      exact iff_of_true rfl ⟨route, hmem, hroute⟩
  intro route hselected
  rw [hfind, hselected]
  exact ⟨rfl, (hbinds hselected).2 (hclean route hselected)⟩

/-- The parameter of a route that ends with `**` gets lost, and so does a segment with the text of the
key. -/
theorem routes_with_lost_params :
    (¬ RoutesRight [⟨.GET, ascii "/:user/**", 1⟩] .GET (ascii "/bob/a/b")) ∧
    ¬ RoutesRight [⟨.GET, ascii "/:a/:b", 1⟩] .GET (ascii "/:param/y") := by
  constructor
  · intro hright
    obtain ⟨-, hbinds⟩ := hright.bound ⟨.GET, ascii "/:user/**", 1⟩ (by decide +kernel)
    exact absurd (hbinds 0 (ascii "user") (by decide +kernel)) (by decide +kernel)
  intro hright
  obtain ⟨-, hbinds⟩ := hright.bound ⟨.GET, ascii "/:a/:b", 1⟩ (by decide +kernel)
  exact absurd (hbinds 0 (ascii "a") (by decide +kernel)) (by decide +kernel)

end Galay.Http
