import RouteBook.Registry

/-!
# Watching an artifact

A watcher reads the artifact again at every change that it sees, and appends each catalog
that can be loaded to a queue; one that cannot be loaded is reported and leaves no other
trace. The loop beside it takes the oldest catalog from the queue, publishes it and prints
a summary. The two may take turns in any way.
-/

namespace RouteBook

/-! ## Summaries -/

namespace Catalog

/-- The methods of a route in a summary: with bars between them, in a column that is ten
characters wide and never cuts; a star where none are given. -/
def methodColumn (r : Route) : String :=
  let shown := (r.methods.map fun ms => "|".intercalate ms).getD "*"
  shown ++ String.ofList (List.replicate (10 - shown.length) ' ')

/-- The line of a route in a summary. -/
def summaryLine (r : Route) : String :=
  "  " ++ methodColumn r ++ " " ++ r.path ++ (r.name.map fun n => " [" ++ n ++ "]").getD ""

/-- The lines that show a catalog: how many routes and names it has, then every route
(`print_summary`). -/
def summary (catalog : Catalog) : List String :=
  s!"{catalog.size} routes, {catalog.names.length} named" :: catalog.routes.map summaryLine

end Catalog

/-! ## The watcher -/

/-- What a watcher looks at, and how strict it is about names (`ArtifactWatcher`). -/
structure Watcher where
  path : String
  strict : Bool
deriving DecidableEq, Repr

namespace Watcher

/-- A watcher starts if there is something at its path (`run` of `ArtifactWatcher`). It goes by
the path from the root, which must not be too long either. -/
def start (watcher : Watcher) (tree : FileTree) : Bool × List Event :=
  if tree.holds watcher.path && (Path.ofString (tree.fromRoot watcher.path)).fault?.isNone then
    (true, [.watchStarted watcher.path])
  else (false, [])

/-- What the watcher forwards when it finds the artifact as it is in `tree` (`reload_into`). -/
def reload (watcher : Watcher) (tree : FileTree) : Option Catalog × List Event :=
  match Catalog.load tree watcher.path watcher.strict with
  | (.ok catalog, events) => (some catalog, events)
  | (.error failure, events) => (none, events ++ [.updateRejected failure])

end Watcher

/-! ## The loop -/

/-- A registry that is kept up to date: the catalogs that wait, oldest first, and the summaries
that have been printed, latest first (`Watch` of `Commands`). -/
structure WatchLoop where
  registry : Registry
  watcher : Watcher
  waiting : List Catalog := []
  printed : List (List String) := []
deriving DecidableEq, Repr

namespace WatchLoop

/-- The loop as it starts: the summary of the catalog at hand is printed. -/
def start (registry : Registry) (path : String) : WatchLoop :=
  { registry, watcher := ⟨path, registry.strictNames⟩, printed := [registry.catalog.summary] }

/-- One turn of either party. -/
inductive Turn where
  /-- The watcher sees a change, and finds the files so. -/
  | change (tree : FileTree)
  /-- The loop takes the oldest catalog that waits, if any does. -/
  | take
deriving DecidableEq, Repr

/-- The watcher's turn. -/
def change (loop : WatchLoop) (tree : FileTree) : WatchLoop × Report :=
  let (found, events) := loop.watcher.reload tree
  ({ loop with waiting := loop.waiting ++ found.toList },
    { events := .changeSeen loop.watcher.path :: events })

/-- The loop's turn. -/
def take (loop : WatchLoop) : WatchLoop × Report :=
  match loop.waiting with
  | [] => (loop, {})
  | catalog :: waiting =>
    let (registry, report) := loop.registry.publish catalog
    ({ loop with registry, waiting, printed := catalog.summary :: loop.printed }, report)

/-- Carries out a turn. -/
def turn (loop : WatchLoop) : Turn → WatchLoop × Report
  | .change tree => loop.change tree
  | .take => loop.take

/-- Carries out turns in order. -/
def run (loop : WatchLoop) : List Turn → WatchLoop × Report
  | [] => (loop, {})
  | t :: ts =>
    let (loop, first) := loop.turn t
    let (loop, rest) := run loop ts
    (loop, first ++ rest)

end WatchLoop

end RouteBook
