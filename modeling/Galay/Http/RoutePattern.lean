import Galay.Http.Router

/-!
# Patterns and the paths they match

What routing is for, without a trie: a pattern matches paths segment by segment, one of the patterns
that match is preferred, and its parameters stand for segments of the path.
-/

namespace Galay.Http

/-! ## Preferences -/

/-- At the first place where they differ, the number of the first list is the smaller one. -/
def Precedes : List Nat → List Nat → Prop
  | [], _ => True
  | _ :: _, [] => False
  | a :: as, b :: bs => a < b ∨ a = b ∧ Precedes as bs

namespace Precedes

instance decidable : (as bs : List Nat) → Decidable (Precedes as bs)
  | [], _ => .isTrue trivial
  | _ :: _, [] => .isFalse nofun
  | a :: as, b :: bs =>
    have := decidable as bs
    inferInstanceAs (Decidable (a < b ∨ a = b ∧ Precedes as bs))

theorem refl (as : List Nat) : Precedes as as := by
  induction as with
  | nil => trivial
  | cons a as ih => exact .inr ⟨rfl, ih⟩

theorem total (as bs : List Nat) : Precedes as bs ∨ Precedes bs as := by
  induction as generalizing bs with
  | nil => exact .inl trivial
  | cons a as ih =>
  cases bs with
  | nil => exact .inr trivial
  | cons b bs =>
  rcases Nat.lt_trichotomy a b with hlt | rfl | hlt
  · exact .inl (.inl hlt)
  · exact (ih bs).imp (fun h => .inr ⟨rfl, h⟩) (fun h => .inr ⟨rfl, h⟩)
  exact .inr (.inl hlt)

theorem trans (h : Precedes as bs) (h' : Precedes bs cs) : Precedes as cs := by
  induction as generalizing bs cs with
  | nil => trivial
  | cons a as ih =>
  cases bs with
  | nil => exact absurd h nofun
  | cons b bs =>
  cases cs with
  | nil => exact absurd h' nofun
  | cons c cs =>
  rcases h with hlt | ⟨rfl, h⟩
  · rcases h' with hlt' | ⟨rfl, -⟩
    · exact .inl (Nat.lt_trans hlt hlt')
    exact .inl hlt
  exact h'.imp id (And.imp_right (ih h))

theorem antisymm (h : Precedes as bs) (h' : Precedes bs as) : as = bs := by
  induction as generalizing bs with
  | nil =>
    cases bs with
    | nil => rfl
    | cons b bs => exact absurd h' nofun
  | cons a as ih =>
  cases bs with
  | nil => exact absurd h nofun
  | cons b bs =>
  rcases h with hlt | ⟨rfl, h⟩
  · rcases h' with hlt' | ⟨rfl, -⟩
    · exact absurd hlt' (Nat.lt_asymm hlt)
    exact absurd hlt (Nat.lt_irrefl b)
  rcases h' with hlt' | ⟨-, h'⟩
  · exact absurd hlt' (Nat.lt_irrefl a)
  rw [ih h h']

end Precedes

/-! ## Patterns -/

inductive PatternSegment
  | literal (text : Bytes)
  | param (name : Bytes)
  | wildcard
  | greedy
  deriving DecidableEq, Repr

namespace PatternSegment

def ofSegment (segment : Bytes) : PatternSegment :=
  if segment = wildcardKey then .wildcard
  else if segment = greedyKey then .greedy
  else if segment.head? = some colon then .param (segment.drop 1)
  else .literal segment

/-- The key of the node for the segment. -/
def key : PatternSegment → Bytes
  | .literal text => text
  | .param _ => paramKey
  | .wildcard => wildcardKey
  | .greedy => greedyKey

def name? : PatternSegment → Option Bytes
  | .param name => some name
  | _ => none

/-- How late a segment of a pattern is considered for a segment of a path with the segments after
it. A segment with the text of a key is taken for the key. -/
def rank : PatternSegment → Bytes → List Bytes → Nat
  | .literal _, _, _ => 0
  | .param _, segment, _ => if segment = paramKey then 0 else 1
  | .wildcard, segment, _ => if segment = wildcardKey then 0 else 2
  | .greedy, segment, segments => if segment = greedyKey ∧ segments = [] then 0 else 3

end PatternSegment

open PatternSegment

abbrev Pattern := List PatternSegment

namespace Pattern

/-- `**` stands for all segments that are left, of which there is at least one. -/
def Matches : Pattern → List Bytes → Prop
  | [], segments => segments = []
  | _ :: _, [] => False
  | .literal text :: pattern, segment :: segments => text = segment ∧ Matches pattern segments
  | .param _ :: pattern, _ :: segments => Matches pattern segments
  | .wildcard :: pattern, _ :: segments => Matches pattern segments
  | .greedy :: pattern, _ :: _ => pattern = []

instance decidableMatches : (pattern : Pattern) → (segments : List Bytes) →
    Decidable (pattern.Matches segments)
  | [], segments => inferInstanceAs (Decidable (segments = []))
  | _ :: _, [] => .isFalse nofun
  | .literal text :: pattern, segment :: segments =>
    have := decidableMatches pattern segments
    inferInstanceAs (Decidable (text = segment ∧ Matches pattern segments))
  | .param _ :: pattern, _ :: segments => decidableMatches pattern segments
  | .wildcard :: pattern, _ :: segments => decidableMatches pattern segments
  | .greedy :: pattern, _ :: _ => inferInstanceAs (Decidable (pattern = []))

/-- The smaller the numbers, the more a pattern is preferred for the segments that it matches. -/
def preference : Pattern → List Bytes → List Nat
  | first :: pattern, segment :: segments =>
    first.rank segment segments :: preference pattern segments
  | _, _ => []

/-- The names of the parameters, in order. -/
def names (pattern : Pattern) : List Bytes := pattern.filterMap name?

/-- Every parameter is bound to the segment at its position. -/
def BindsTo (pattern : Pattern) (segments : List Bytes) (params : RouteParams) : Prop :=
  ∀ (i : Nat) (name : Bytes), pattern[i]? = some (.param name) → params.find name = segments[i]?

end Pattern

namespace Route

variable {η : Type*}

def pattern (route : Route η) : Pattern := (splitPath route.path).map ofSegment

/-- The route is one of the method, and its path is valid. -/
def Accepted (method : HttpMethod) (route : Route η) : Prop :=
  (validatePath route.path).isOk = true ∧ route.method = method

instance (method : HttpMethod) (route : Route η) : Decidable (route.Accepted method) :=
  inferInstanceAs (Decidable (_ ∧ _))

/-- A path without parameters and wildcards matches itself only. -/
def Matches (route : Route η) (path : Bytes) : Prop :=
  if isFuzzyPattern route.path then route.pattern.Matches (splitPath path) else route.path = path

instance (route : Route η) (path : Bytes) : Decidable (route.Matches path) :=
  inferInstanceAs (Decidable (if isFuzzyPattern route.path then
    route.pattern.Matches (splitPath path) else route.path = path))

/-- Paths without parameters and wildcards are preferred to all others. -/
def preference (route : Route η) (path : Bytes) : List Nat :=
  if isFuzzyPattern route.path then 1 :: route.pattern.preference (splitPath path) else [0]

end Route

/-! ## The route for a path -/

section Selection

variable {η : Type*}

/-- The routes that match. -/
def matchingRoutes (routes : List (Route η)) (method : HttpMethod) (path : Bytes) :
    List (Route η) :=
  routes.filter fun route => route.Accepted method ∧ route.Matches path

/-- The route for a path: the one added last of those that match and that no other is preferred
to. -/
def selectedRoute (routes : List (Route η)) (method : HttpMethod) (path : Bytes) :
    Option (Route η) :=
  ((matchingRoutes routes method path).filter fun route =>
    ∀ other ∈ matchingRoutes routes method path,
      Precedes (route.preference path) (other.preference path)).getLast?

end Selection

end Galay.Http
