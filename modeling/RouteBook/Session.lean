import RouteBook.Config.Reading
import RouteBook.Annotations
import RouteBook.Watch

/-!
# Sessions

A session is a run of operations on files, on at most one registry, on catalogs kept from
it, and on the metrics. Each operation is one step from a state to the next, with an answer
and a report, so that what holds of every step holds of every run.
-/

namespace RouteBook.Session
open Json (Layout)

/-- The state between two operations. -/
structure State where
  tree : FileTree := {}
  registry : Option Registry := none
  /-- The catalogs that were kept, in the order in which they were. -/
  kept : List Catalog := []
  metrics : Metrics := {}

/-- An operation. -/
inductive Step where
  | write (path : String) (content : List UInt8)
  | makeFolder (path : String)
  | delete (path : String)
  | read (path : String)
  | scan (paths : List String)
  | save (path : String) (layout : Layout) (routes : List Route)
  | loadRoutes (path : String)
  | loadCatalog (path : String) (strict : Bool)
  | loadConfig (path : String)
  | openWith (config : Config)
  | openText (text : String)
  | useRoutes (routes : List Route)
  | setScriptName (enabled : Bool)
  | describe
  | resolve (name : String) (values : Option Values)
  | resolveMounted (scriptName name : String) (values : Option Values)
  | listRoutes
  | publish (routes : List Route)
  | reload
  | keep
  | inspect (number : Nat) (query : Option (String × Option Values))
  | showMetrics
  | watch (watcher : Watcher)

/-- What an operation answers. -/
inductive Answer where
  | done
  | text (content : Option String)
  | routes (routes : List Route)
  | catalog (catalog : Catalog)
  | config (config : Config)
  | registry (registry : Registry)
  | resolved (result : Except Refusal String)
  | kept (number : Nat)
  | inspected (catalog : Catalog) (result : Option (Except Refusal String))
  | metrics (metrics : Metrics)
  | watched (path : String) (started : Bool)
  | fileFault (fault : FileFault)
  | artifactFailure (failure : Artifact.Failure)
  | configFailure (failure : Config.Failure)
  /-- The operation needs a registry, and there is none. -/
  | noRegistry
  /-- No catalog was kept under that number. -/
  | notKept

/-- An answer that reports a failed reading or writing. -/
def answerOf {α : Type} (ok : α → Answer) : Except Artifact.Failure α → Answer
  | .ok a => ok a
  | .error failure => .artifactFailure failure

/-- Opens a registry in place of the one that is there, which stays if that fails. -/
def openRegistry (s : State) (config : Config) : State × Answer × Report :=
  match Registry.openWith s.tree config with
  | (.ok registry, report) => ({ s with registry := some registry }, .registry registry, report)
  | (.error failure, report) => (s, .artifactFailure failure, report)

/-- Makes a catalog of routes, leniently, with the events that this gives rise to. -/
def makeCatalog (routes : List Route) : Catalog × Report :=
  (Catalog.ofRoutes routes, { events := (redefinitions routes).map .redefined })

/-- An operation on the registry that is there. -/
def withRegistry (s : State) (act : Registry → State × Answer × Report) :
    State × Answer × Report :=
  match s.registry with
  | none => (s, .noRegistry, {})
  | some registry => act registry

/-- One operation, its marks not yet counted. -/
def act (s : State) : Step → State × Answer × Report
  | .write path content => ({ s with tree := (s.tree.save path content).1 }, .done, {})
  | .makeFolder path =>
    ({ s with tree := (s.tree.makeFolders (Path.ofString path)).1 }, .done, {})
  | .delete path => ({ s with tree := s.tree.delete path }, .done, {})
  | .read path => (s, .text (s.tree.readText path).toOption, {})
  | .scan paths =>
    match Source.scan s.tree paths with
    | (.ok routes, events) => (s, .routes routes, { events })
    | (.error fault, events) => (s, .fileFault fault, { events })
  | .save path layout routes =>
    let (result, tree, events) := Artifact.save s.tree path layout routes
    ({ s with tree }, answerOf (fun _ => .done) result, { events })
  | .loadRoutes path => (s, answerOf .routes (Artifact.load s.tree path), {})
  | .loadCatalog path strict =>
    let (result, events) := Catalog.load s.tree path strict
    (s, answerOf .catalog result, { events })
  | .loadConfig path =>
    match Config.load s.tree path with
    | .ok config => (s, .config config, {})
    | .error failure => (s, .configFailure failure, {})
  | .openWith config => openRegistry s config
  | .openText text =>
    match Config.ofText text with
    | .ok config => openRegistry s config
    | .error failure => (s, .configFailure failure, {})
  | .useRoutes routes =>
    let (catalog, report) := makeCatalog routes
    let registry := Registry.ofCatalog catalog
    ({ s with registry := some registry }, .registry registry, report)
  | .setScriptName enabled =>
    withRegistry s fun registry =>
      ({ s with registry := some (registry.withScriptName enabled) }, .done, {})
  | .describe => withRegistry s fun registry => (s, .registry registry, {})
  | .resolve name values =>
    withRegistry s fun registry =>
      let (result, report) := registry.resolve name values
      (s, .resolved result, report)
  | .resolveMounted scriptName name values =>
    withRegistry s fun registry =>
      let (result, report) := registry.resolveMounted scriptName name values
      (s, .resolved result, report)
  | .listRoutes => withRegistry s fun registry => (s, .routes registry.catalog.routes, {})
  | .publish routes =>
    withRegistry s fun registry =>
      let (catalog, first) := makeCatalog routes
      let (registry, second) := registry.publish catalog
      ({ s with registry := some registry }, .done, first ++ second)
  | .reload =>
    withRegistry s fun registry =>
      let (registry, result, report) := registry.reload s.tree
      ({ s with registry := some registry }, answerOf (fun _ => .done) result, report)
  | .keep =>
    withRegistry s fun registry =>
      ({ s with kept := s.kept ++ [registry.catalog] }, .kept s.kept.length, {})
  | .inspect number query =>
    match s.kept[number]? with
    | none => (s, .notKept, {})
    | some catalog =>
      let result := query.map fun (name, values) => catalog.resolve name values
      (s, .inspected catalog result, {})
  | .showMetrics => (s, .metrics s.metrics, {})
  | .watch watcher =>
    let (started, events) := watcher.start s.tree
    (s, .watched watcher.path started, { events })

/-- One operation, its marks counted. -/
def step (s : State) (op : Step) : State × Answer × Report :=
  let (s, answer, report) := act s op
  ({ s with metrics := s.metrics.countAll report.marks }, answer, report)

/-- The answers and reports of operations in order, and the state after them. -/
def run (s : State) : List Step → State × List (Answer × Report)
  | [] => (s, [])
  | op :: ops =>
    let (s, answer, report) := step s op
    let (s, rest) := run s ops
    (s, (answer, report) :: rest)

end RouteBook.Session
