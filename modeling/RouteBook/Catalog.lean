import RouteBook.Pairs
import RouteBook.Route

/-!
# The catalog of routes

A catalog lists every route in loaded order and finds a path by name. When a name is
declared more than once, the later path wins and a redefinition is noted; a strict catalog
refuses such a list instead and says which names are repeated.
-/

namespace RouteBook

/-- A path for each name: every name once, in the order in which names first appear. -/
abbrev NamedPaths := List (String × String)

/-- Adds a route to the named paths, if it has a name. -/
def NamedPaths.add (paths : NamedPaths) (route : Route) : NamedPaths :=
  match route.name with
  | none => paths
  | some name => Pairs.put paths name route.path

/-- A name that was declared again: its path before, and the path that replaced it. -/
structure Redefinition where
  name : String
  previous : String
  path : String
deriving DecidableEq, Repr

/-- The redefinition that a route makes, given the paths named before it. -/
def Redefinition.of? (paths : NamedPaths) (route : Route) : Option Redefinition := do
  let name ← route.name
  let previous ← paths.lookup name
  some { name, previous, path := route.path }

/-- The redefinitions made by routes that follow those which gave `paths`, in order. -/
def redefinitionsFrom (paths : NamedPaths) : List Route → List Redefinition
  | [] => []
  | r :: rs => (Redefinition.of? paths r).toList ++ redefinitionsFrom (paths.add r) rs

/-- The redefinitions within a list of routes, in order, as `build` of `RouteIndex` reports them. -/
def redefinitions (routes : List Route) : List Redefinition :=
  redefinitionsFrom [] routes

/-- The names that a strict catalog refuses (`DuplicateNames`). -/
structure RepeatedNames where
  /-- Each repeated name once, in the order of the second occurrences. -/
  names : List String
deriving DecidableEq, Repr

/-- The wording of the refusal. -/
def RepeatedNames.message (r : RepeatedNames) : String :=
  "duplicate route names: " ++ ", ".intercalate r.names

/-- The names of a list of routes, in order and with repetitions. -/
def namesOf (routes : List Route) : List String :=
  routes.filterMap Route.name

/-- Of names that follow the names `earlier`, those that occur here for the second time. -/
def secondOccurrences (earlier : List String) : List String → List String
  | [] => []
  | n :: ns =>
    let rest := secondOccurrences (n :: earlier) ns
    if earlier.count n = 1 then n :: rest else rest

/-- The names that several routes share, each once, by its second occurrence. -/
def repeatedNames (routes : List Route) : List String :=
  secondOccurrences [] (namesOf routes)

/-- Routes in loaded order, with the path that each name stands for (`RouteIndex`). -/
structure Catalog where
  routes : List Route
  paths : NamedPaths
deriving DecidableEq, Repr

namespace Catalog

/-- The catalog of a list of routes (`build` of `RouteIndex`). Of routes with one name, the last
gives the path. -/
def ofRoutes (routes : List Route) : Catalog :=
  { routes, paths := routes.foldl NamedPaths.add [] }

/-- The catalog of a list of routes whose names are distinct (`build_strict` of `RouteIndex`). -/
def ofDistinct (routes : List Route) : Except RepeatedNames Catalog :=
  match repeatedNames routes with
  | [] => .ok (ofRoutes routes)
  | names => .error { names }

/-- The catalog of a list of routes, strict about names or not. -/
def build (strict : Bool) (routes : List Route) : Except RepeatedNames Catalog :=
  if strict then ofDistinct routes else .ok (ofRoutes routes)

/-- The path that a name stands for (`path_for`). -/
def pathOf? (catalog : Catalog) (name : String) : Option String :=
  catalog.paths.lookup name

/-- The names that can be looked up, each once. -/
def names (catalog : Catalog) : List String :=
  catalog.paths.map Prod.fst

/-- The number of routes, named or not (`len`). -/
def size (catalog : Catalog) : Nat :=
  catalog.routes.length

/-- A catalog that lists no route (`is_empty`). -/
def isEmpty (catalog : Catalog) : Bool :=
  catalog.routes.isEmpty

end Catalog

end RouteBook
