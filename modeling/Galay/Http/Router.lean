import Galay.Http.Header

/-!
# The router (`galay-http/server/http_router.cc`, `galay-http/server/route_params.h`)

`HttpRouter` keeps routes without parameters and wildcards in a map of paths, and the others in one
trie for each method. A `std::string_view` with an offset is here the part of the path from the
offset on. Handlers are values of any type.
-/

namespace Galay.Http

/-! ## `RouteParams` -/

/-- The pairs in the order in which the inline array and the overflow vector hold them. -/
abbrev RouteParams := List (Bytes × Bytes)

namespace RouteParams

/-- The answer of the source is always `true`. -/
def emplace (name value : Bytes) : RouteParams → RouteParams
  | [] => [(name, value)]
  | entry :: params =>
    if entry.1 = name then (name, value) :: params else entry :: emplace name value params

def find (params : RouteParams) (name : Bytes) : Option Bytes :=
  (params.find? fun entry => entry.1 = name).map (·.2)

end RouteParams

/-! ## Tries -/

/-- What a node with `isEnd` holds. -/
structure RouteEnd (η : Type*) where
  handler : η
  paramNames : List Bytes

inductive RouteTrieNode (η : Type*)
  | node (children : List (Bytes × RouteTrieNode η)) (isEnd : Option (RouteEnd η))

namespace RouteTrieNode

variable {η : Type*}

def empty : RouteTrieNode η := .node [] none

def children : RouteTrieNode η → List (Bytes × RouteTrieNode η)
  | .node children _ => children

def isEnd : RouteTrieNode η → Option (RouteEnd η)
  | .node _ isEnd => isEnd

def child (node : RouteTrieNode η) (key : Bytes) : Option (RouteTrieNode η) :=
  (node.children.find? fun entry => entry.1 = key).map (·.2)

def setChild (node : RouteTrieNode η) (key : Bytes) (child : RouteTrieNode η) : RouteTrieNode η :=
  .node ((key, child) :: node.children.filter fun entry => entry.1 ≠ key) node.isEnd

end RouteTrieNode

/-! ## Paths -/

def slash : UInt8 := 47

def colon : UInt8 := 58

def asterisk : UInt8 := 42

/-- The next segment and what is left of the path after it. -/
def nextRouteSegment (path : Bytes) : Option (Bytes × Bytes) :=
  match path.dropWhile (· = slash) with
  | [] => none
  | byte :: rest =>
    some ((byte :: rest).takeWhile (· ≠ slash), (byte :: rest).dropWhile (· ≠ slash))

theorem nextRouteSegment_length {segment : Bytes}
    (h : nextRouteSegment path = some (segment, rest)) : rest.length < path.length := by
  unfold nextRouteSegment at h
  have hskipped := (List.dropWhile_suffix (l := path) (· = slash)).length_le
  split at h
  · exact absurd h nofun
  next byte tail heq =>
  have hbyte : byte ≠ slash := by
    intro hslash
    have hnot := List.head?_dropWhile_not (fun byte => decide (byte = slash)) path
    rw [heq, hslash] at hnot
    simp at hnot
  obtain ⟨-, rfl⟩ := Prod.mk.inj (Option.some.inj h)
  rw [List.dropWhile_cons_of_pos (by simpa using hbyte)]
  have hrest := (List.dropWhile_suffix (l := tail) (· ≠ slash)).length_le
  rw [heq, List.length_cons] at hskipped
  omega

def splitPath (path : Bytes) : List Bytes :=
  match h : nextRouteSegment path with
  | none => []
  | some (segment, rest) => segment :: splitPath rest
termination_by path.length
decreasing_by exact nextRouteSegment_length h

/-- A path parameter or a wildcard. -/
def isFuzzyPattern (path : Bytes) : Bool := path.contains colon || path.contains asterisk

def isAlpha (byte : UInt8) : Bool := (65 ≤ byte && byte ≤ 90) || (97 ≤ byte && byte ≤ 122)

def isAlnum (byte : UInt8) : Bool := isAlpha byte || (48 ≤ byte && byte ≤ 57)

section ValidatePath

def isParamNameChar (byte : UInt8) : Bool := isAlnum byte || byte = 95

def isSegmentChar (byte : UInt8) : Bool :=
  isAlnum byte || byte = 45 || byte = 95 || byte = 46 || byte = 126

/-- The turn of one segment in the loop of `validatePath`, with the names found before it. -/
def validateSegment (paramNames : List Bytes) (hasWildcard isLast : Bool) (segment : Bytes) :
    Except Bytes (List Bytes × Bool) :=
  match segment with
  | [] => .error (ascii "Path contains empty segment")
  | first :: paramName =>
    if first = colon then
      match paramName with
      | [] => .error (ascii "Parameter name cannot be empty (found ':' without name)")
      | initial :: _ =>
        if !isAlpha initial && initial ≠ 95 then
          .error (ascii "Parameter name '" ++ paramName ++
            ascii "' must start with a letter or underscore")
        else match paramName.find? fun byte => !isParamNameChar byte with
        | some byte =>
          .error (ascii "Parameter name '" ++ paramName ++ ascii "' contains invalid character '" ++
            [byte] ++ ascii "'")
        | none =>
          if paramName ∈ paramNames then
            .error (ascii "Duplicate parameter name: '" ++ paramName ++ ascii "'")
          else .ok (paramNames ++ [paramName], hasWildcard)
    else if segment = [asterisk] ∨ segment = [asterisk, asterisk] then
      if hasWildcard then .error (ascii "Path can only contain one wildcard")
      else if !isLast then
        .error (ascii "Wildcard '" ++ segment ++ ascii "' must be the last segment")
      else .ok (paramNames, true)
    else match segment.find? fun byte => !isSegmentChar byte with
    | some byte =>
      .error (ascii "Segment '" ++ segment ++ ascii "' contains invalid character '" ++
        [byte] ++ ascii "'")
    | none => .ok (paramNames, hasWildcard)

def validateSegments (paramNames : List Bytes) (hasWildcard : Bool) :
    List Bytes → Except Bytes Unit
  | [] => .ok ()
  | segment :: rest => do
    let (paramNames, hasWildcard) ←
      validateSegment paramNames hasWildcard rest.isEmpty segment
    validateSegments paramNames hasWildcard rest

def validatePath (path : Bytes) : Except Bytes Unit :=
  if path = [] then .error (ascii "Path cannot be empty")
  else if path.head? ≠ some slash then .error (ascii "Path must start with '/'")
  else if 2048 < path.length then .error (ascii "Path is too long (max 2048 characters)")
  else
    let segments := splitPath path
    if segments = [] ∧ path ≠ [slash] then .error (ascii "Invalid path format")
    else validateSegments [] false segments

end ValidatePath

/-! ## Insertion and search -/

/-- The key that all parameters share. -/
def paramKey : Bytes := ascii ":param"

def wildcardKey : Bytes := ascii "*"

def greedyKey : Bytes := ascii "**"

variable {η : Type*}

def insertRoute (handler : η) (paramNames : List Bytes) :
    List Bytes → RouteTrieNode η → RouteTrieNode η
  | [], node => .node node.children (some ⟨handler, paramNames⟩)
  | segment :: rest, node =>
    if segment = wildcardKey ∨ segment = greedyKey then
      node.setChild segment
        (insertRoute handler paramNames rest ((node.child segment).getD .empty))
    else if segment.head? = some colon then
      node.setChild paramKey (insertRoute handler (paramNames ++ [segment.drop 1]) rest
        ((node.child paramKey).getD .empty))
    else
      node.setChild segment
        (insertRoute handler paramNames rest ((node.child segment).getD .empty))

/-- The loop that binds the names of a route to the values collected. -/
def bindParams (paramNames paramValues : List Bytes) : RouteParams :=
  (paramNames.zip paramValues).foldl (fun params pair => RouteParams.emplace pair.1 pair.2 params) []

/-- The recursion of `searchRoute`. -/
def searchRouteDfs (node : RouteTrieNode η) (paramValues : List Bytes) :
    List Bytes → Option (η × RouteParams)
  | [] => node.isEnd.map fun last => (last.handler, bindParams last.paramNames paramValues)
  | segment :: rest =>
    ((node.child segment).bind fun exact => searchRouteDfs exact paramValues rest).or
    (((node.child paramKey).bind fun param =>
      searchRouteDfs param (paramValues ++ [segment]) rest).or
    (((node.child wildcardKey).bind fun wildcard => searchRouteDfs wildcard paramValues rest).or
    ((node.child greedyKey).bind fun greedy =>
      greedy.isEnd.map fun last => (last.handler, []))))

def searchRoute (root : RouteTrieNode η) (segments : List Bytes) : Option (η × RouteParams) :=
  searchRouteDfs root [] segments

def searchRoutePathRecursive (node : RouteTrieNode η) (paramValues : List Bytes) (path : Bytes) :
    Option (η × RouteParams) :=
  match h : nextRouteSegment path with
  | none => node.isEnd.map fun last => (last.handler, bindParams last.paramNames paramValues)
  | some (segment, next) =>
    ((node.child segment).bind fun exact => searchRoutePathRecursive exact paramValues next).or
    (((node.child paramKey).bind fun param =>
      searchRoutePathRecursive param (paramValues ++ [segment]) next).or
    (((node.child wildcardKey).bind fun wildcard =>
      searchRoutePathRecursive wildcard paramValues next).or
    ((node.child greedyKey).bind fun greedy =>
      greedy.isEnd.map fun last => (last.handler, []))))
termination_by path.length
decreasing_by all_goals exact nextRouteSegment_length h

def searchRoutePath (root : RouteTrieNode η) (path : Bytes) : Option (η × RouteParams) :=
  searchRoutePathRecursive root [] path

/-! ## `HttpRouter` -/

structure RouteMatch (η : Type*) where
  handler : Option η := none
  params : RouteParams := []

structure HttpRouter (η : Type*) where
  exactRoutes : AList fun _ : HttpMethod => AList fun _ : Bytes => η := ∅
  fuzzyRoutes : AList fun _ : HttpMethod => RouteTrieNode η := ∅
  routeCount : Nat := 0

namespace HttpRouter

variable (router : HttpRouter η)

/-- A path that is not valid is only logged. -/
def addHandlerInternal (method : HttpMethod) (path : Bytes) (handler : η) : HttpRouter η :=
  match validatePath path with
  | .error _ => router
  | .ok () =>
    if isFuzzyPattern path then
      let root := (router.fuzzyRoutes.lookup method).getD .empty
      { router with
        fuzzyRoutes := router.fuzzyRoutes.insert method (insertRoute handler [] (splitPath path) root)
        routeCount := router.routeCount + 1 }
    else
      let methodRoutes := (router.exactRoutes.lookup method).getD ∅
      let isNewRoute := (methodRoutes.lookup path).isNone
      { router with
        exactRoutes := router.exactRoutes.insert method (methodRoutes.insert path handler)
        routeCount := if isNewRoute then router.routeCount + 1 else router.routeCount }

def findHandler (method : HttpMethod) (path : Bytes) : RouteMatch η :=
  match (router.exactRoutes.lookup method).bind fun methodRoutes => methodRoutes.lookup path with
  | some handler => { handler := some handler }
  | none =>
    match (router.fuzzyRoutes.lookup method).bind fun root => searchRoutePath root path with
    | some (handler, params) => { handler := some handler, params }
    | none => {}

end HttpRouter

/-- A call of `addHandler` for one method. -/
structure Route (η : Type*) where
  method : HttpMethod
  path : Bytes
  handler : η
  deriving DecidableEq, Repr

/-- The router after the calls. -/
def HttpRouter.ofRoutes (routes : List (Route η)) : HttpRouter η :=
  routes.foldl (fun router route => router.addHandlerInternal route.method route.path route.handler) {}

end Galay.Http
