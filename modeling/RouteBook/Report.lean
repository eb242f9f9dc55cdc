import RouteBook.FileTree
import RouteBook.Json.Fault
import RouteBook.Json.Layout
import RouteBook.Resolution

/-!
# What is reported

Every operation reports the events it gives rise to, in order, and the marks that metrics
are made of. Both are plain data: an operation returns them beside its result, and whoever
runs it adds them to a journal and to the metrics. An artifact that is refused is reported with the
reason: it can be unreadable as a file, malformed as JSON, made of defective routes, or, where names
must be distinct, in conflict with itself.
-/

namespace RouteBook

/-! ## Refused artifacts -/

namespace Artifact

/-- The reasons for which an artifact cannot be read or written (`ArtifactError`). -/
inductive Failure where
  | file (fault : FileFault)
  | json (fault : Json.Fault)
  | defective (defects : List Route.Defect)
  | repeated (names : RepeatedNames)
deriving DecidableEq, Repr

/-- The wording of a failure. -/
def Failure.message : Failure → String
  | .file fault => "IO error: " ++ fault.message
  | .json fault => "JSON error: " ++ fault.message
  | .defective defects => "Invalid routes: " ++ ", ".intercalate (defects.map Route.Defect.message)
  | .repeated names => names.message

/-- A failure that wraps another error, as all do but defects of routes. -/
def Failure.hasCause : Failure → Bool
  | .defective _ => false
  | _ => true

end Artifact

/-! ## Events -/

/-- How weighty an event is. -/
inductive Level where
  | error
  | warn
  | info
  | debug
  | trace
deriving DecidableEq, Repr

/-- What can be worth an entry in a journal. -/
inductive Event where
  | redefined (redefinition : Redefinition)
  | sourceScanned (path : String) (routes : Nat)
  | artifactLoaded (path : String) (routes : Nat)
  | artifactWritten (path : String) (routes : Nat) (layout : Json.Layout)
  | resolutionRefused (refusal : Refusal)
  | published (routes : Nat)
  | reloadFailed (path : String) (failure : Artifact.Failure)
  | watchStarted (path : String)
  | changeSeen (path : String)
  | updateRejected (failure : Artifact.Failure)
  /-- The scraper has read its inputs; none are counted where it reads standard input. -/
  | inputsScanned (routes inputs : Nat)
deriving DecidableEq, Repr

/-- A value that an event shows. -/
inductive Field where
  | text (s : String)
  | number (n : Nat)
  | flag (b : Bool)
deriving DecidableEq, Repr

namespace Event

/-- The weight of an event. -/
def level : Event → Level
  | redefined _ | sourceScanned _ _ | resolutionRefused _ => .debug
  | artifactLoaded _ _ | artifactWritten _ _ _ | published _ | watchStarted _ | changeSeen _
  | inputsScanned _ _ => .info
  | reloadFailed _ _ | updateRejected _ => .error

/-- The wording of an event. -/
def message : Event → String
  | redefined _ => "Route name redefined; later path wins"
  | sourceScanned _ _ => "Parsed source file"
  | artifactLoaded _ _ => "Loaded route artifact"
  | artifactWritten _ _ _ => "Wrote route artifact"
  | resolutionRefused _ => "Route resolution failed"
  | published _ => "Route index published"
  | reloadFailed _ _ => "Failed to reload routes. Keeping current index."
  | watchStarted _ => "Route artifact watcher started"
  | changeSeen _ => "Route artifact change detected, reloading..."
  | updateRejected failure =>
    "Failed to reload routes: " ++ failure.message ++ ". Keeping current index."
  | inputsScanned _ _ => "Parsed route annotations"

/-- The values that an event shows, by name. -/
def fields : Event → List (String × Field)
  | redefined r =>
    [("name", .text r.name), ("previous", .text r.previous), ("path", .text r.path)]
  | sourceScanned path routes | artifactLoaded path routes =>
    [("path", .text path), ("routes", .number routes)]
  | artifactWritten path routes layout =>
    [("path", .text path), ("routes", .number routes), ("pretty", .flag (layout = .indented))]
  | resolutionRefused refusal =>
    [("name", .text refusal.route), ("error", .text refusal.message)]
  | published routes => [("routes", .number routes)]
  | reloadFailed path failure => [("path", .text path), ("error", .text failure.message)]
  | watchStarted path => [("path", .text (Text.Quoted.quote path))]
  | changeSeen path => [("path", .text path)]
  | updateRejected _ => []
  | inputsScanned routes inputs => [("routes", .number routes), ("inputs", .number inputs)]

/-- Where an event comes from: the library, or the scraper itself. -/
def target : Event → String
  | inputsScanned _ _ => "route_parser"
  | _ => "route_list"

end Event

/-! ## Metrics -/

/-- What metrics count. -/
inductive Mark where
  /-- A catalog with this many routes was published. -/
  | published (routes : Nat)
  /-- A resolution was refused. -/
  | refused (kind : Refusal.Kind)
deriving DecidableEq, Repr

/-- How often catalogs were published, how many routes the latest had, and how often
resolutions were refused, by kind. -/
structure Metrics where
  loads : Nat := 0
  routes : Option Nat := none
  refusals : Refusal.Kind → Nat := fun _ => 0

namespace Metrics

/-- Counts one mark (`record_index_loaded`, `record_resolve_failure`). -/
def count (m : Metrics) : Mark → Metrics
  | .published routes => { m with loads := m.loads + 1, routes := some routes }
  | .refused kind =>
    { m with refusals := fun k => if k = kind then m.refusals k + 1 else m.refusals k }

/-- Counts marks in order. -/
def countAll (m : Metrics) (marks : List Mark) : Metrics :=
  marks.foldl count m

/-- The metrics that have ever been touched, by key. -/
def entries (m : Metrics) : List (String × Nat) :=
  (if m.loads = 0 then [] else [("route_list_index_loads_total", m.loads)]) ++
    (m.routes.map fun n => ("route_list_index_routes", n)).toList ++
    [Refusal.Kind.unknownRoute, .missingValue, .tooFewValues, .tooManyValues].filterMap fun kind =>
      if m.refusals kind = 0 then none
      else
        let key := "route_list_resolve_failures_total\x7bkind=" ++ kind.label ++ "\x7d"
        some (key, m.refusals kind)

end Metrics

/-! ## Reports -/

/-- What an operation reports beside its result. -/
structure Report where
  events : List Event := []
  marks : List Mark := []
deriving DecidableEq, Repr

/-- One report after another. -/
def Report.append (a b : Report) : Report :=
  { events := a.events ++ b.events, marks := a.marks ++ b.marks }

instance : Append Report := ⟨Report.append⟩

end RouteBook
