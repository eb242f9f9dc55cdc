/-!
# Routes

The unit that annotations declare, the artifact stores and the index looks up.

Here and in the other modules, a name in parentheses behind what a definition is, as `RouteRecord`
below, is the one under which the programs call it.
-/

namespace RouteBook

/-- One declared route (`RouteRecord`). `methods` absent means unspecified, which differs from a
list with no entries; order and repetitions of methods are kept. -/
structure Route where
  /-- The path template, such as `/foo/baz/:id`. -/
  path : String
  methods : Option (List String) := none
  /-- The name under which the path can be looked up. -/
  name : Option String := none
deriving DecidableEq, Repr

namespace Route

/-- A structural defect of the route at a position of a list (`ValidationError`). -/
inductive Defect where
  | emptyPath (index : Nat)
  | emptyMethods (index : Nat)
deriving DecidableEq, Repr

/-- The wording of a defect. -/
def Defect.message : Defect → String
  | .emptyPath i => s!"route #{i} has an empty path"
  | .emptyMethods i => s!"route #{i} has an empty methods list"

/-- The defects of one route, seen at position `i`: its path first, then its methods. -/
def defectsAt (i : Nat) (r : Route) : List Defect :=
  (if r.path.isEmpty then [.emptyPath i] else []) ++
    (if r.methods = some [] then [.emptyMethods i] else [])

/-- The defects of the routes from position `i` on. -/
def defectsFrom (i : Nat) : List Route → List Defect
  | [] => []
  | r :: rs => r.defectsAt i ++ defectsFrom (i + 1) rs

/-- All defects of a list of routes, by position (`validate_records`). -/
def defects (routes : List Route) : List Defect :=
  defectsFrom 0 routes

end Route

end RouteBook
