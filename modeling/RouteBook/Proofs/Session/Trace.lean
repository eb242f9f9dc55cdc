import RouteBook.Proofs.Catalog.Strict
import RouteBook.Proofs.Session.Agreement
import RouteBook.Proofs.Session.Counting

/-!
# What loading reports

Whoever loads a catalog reports what it redefines and that it was loaded, and whoever publishes one
reports that; a reading again that fails reports this and nothing else (`reload_trace`). In a session,
an operation announces the catalog that it loads, and then the one that it publishes
(`step_announced`): so these reports are as many as the operations that succeed in doing so, and no
operation that fails makes one. Main statement: `loading_traced`.
-/

namespace RouteBook

/-! ## Announcements -/

namespace Event

/-- The event announces a catalog that was loaded or published. -/
def announces : Event → Bool
  | artifactLoaded _ _ | published _ => true
  | _ => false

/-- How many of the events have this wording. -/
def tellings (wording : String) (events : List Event) : Nat :=
  events.countP fun e => e.message = wording

/-- The one wording that is not fixed begins as no announcement does. -/
theorem head?_updateRejected (failure : Artifact.Failure) :
    (updateRejected failure).message.toList.head? = some 'F' := by
  unfold message
  simp

theorem message_eq_published_iff {e : Event} :
    e.message = "Route index published" ↔ ∃ n, e = .published n := by
  constructor
  · intro h
    cases e with
    | published n => exact ⟨n, rfl⟩
    | updateRejected failure =>
      have hfirst := head?_updateRejected failure
      rw [h] at hfirst
      simp at hfirst
    | _ =>
      unfold message at h
      simp at h
  · rintro ⟨n, rfl⟩
    rfl

theorem message_eq_loaded_iff {e : Event} :
    e.message = "Loaded route artifact" ↔ ∃ path n, e = .artifactLoaded path n := by
  constructor
  · intro h
    cases e with
    | artifactLoaded path n => exact ⟨path, n, rfl⟩
    | updateRejected failure =>
      have hfirst := head?_updateRejected failure
      rw [h] at hfirst
      simp at hfirst
    | _ =>
      unfold message at h
      simp at h
  · rintro ⟨path, n, rfl⟩
    rfl

theorem tellings_append (wording : String) (a b : List Event) :
    tellings wording (a ++ b) = tellings wording a + tellings wording b :=
  List.countP_append

/-- A wording that only announcements have is counted among them. -/
theorem tellings_filter {wording : String} (h : ∀ e : Event, e.message = wording → e.announces = true)
    (events : List Event) :
    tellings wording (events.filter announces) = tellings wording events := by
  unfold tellings
  rw [List.countP_filter]
  apply List.countP_congr
  intro e _
  by_cases he : e.message = wording
  · simp [he, h e he]
  · simp [he]

end Event

namespace Catalog

theorem filter_redefined (ds : List Redefinition) :
    (ds.map Event.redefined).filter Event.announces = [] := by
  simp [Event.announces]

theorem filter_loadEvents (catalog : Catalog) (path : String) :
    (catalog.loadEvents path).filter Event.announces = [.artifactLoaded path catalog.size] := by
  simp [loadEvents, filter_redefined, Event.announces]

/-- What is announced when a catalog is loaded: that, if it succeeds. -/
theorem filter_load (tree : FileTree) (path : String) (strict : Bool) :
    (load tree path strict).2.filter Event.announces =
      ((Artifact.loadCatalog tree path strict).toOption.map fun catalog =>
        Event.artifactLoaded path catalog.size).toList := by
  unfold load
  cases h : Artifact.loadCatalog tree path strict with
  | error failure => simp [Except.toOption]
  | ok catalog => simp [Except.toOption, filter_loadEvents]

end Catalog

/-! ## Reading again -/

namespace Registry

/-- What is reported when a registry reads the artifact at a path again. -/
structure ReloadTrace (r : Registry) (path : String) (tree : FileTree) : Prop where
  /-- On success: what the loaded routes redefine, nothing if this is refused; then that they were
  loaded, and that they were published, both with the number of routes that there are now. -/
  succeeded : (r.reload tree).2.1 = .ok () → ∃ routes loaded published,
    Artifact.load tree path = .ok routes ∧
    (r.reload tree).1.catalog.routes = routes ∧
    (r.reload tree).2.2.events = (redefinitions routes).map .redefined ++ [loaded, published] ∧
    InOrder (Repeats routes) (RedefinesAt routes) (redefinitions routes) ∧
    (r.strictNames = true → redefinitions routes = []) ∧
    (∀ d ∈ redefinitions routes, (Event.redefined d).level = .debug) ∧
    (loaded.level = .info ∧ loaded.message = "Loaded route artifact" ∧
      loaded.fields = [("path", .text path), ("routes", .number (r.reload tree).1.catalog.size)]) ∧
    (published.level = .info ∧ published.message = "Route index published" ∧
      published.fields = [("routes", .number (r.reload tree).1.catalog.size)])
  /-- On failure: one error, with the path and the wording of the failure. -/
  failed : ∀ failure, (r.reload tree).2.1 = .error failure → ∃ event,
    (r.reload tree).2.2.events = [event] ∧ event.level = .error ∧
    event.message = "Failed to reload routes. Keeping current index." ∧
    event.fields = [("path", .text path), ("error", .text failure.message)]

theorem reload_of_loads {r : Registry} {path : String} (hpath : r.artifact = some path)
    {tree : FileTree} {routes : List Route} (h : Artifact.Loads tree path r.strictNames routes) :
    (r.reload tree).1.catalog = Catalog.ofRoutes routes ∧
      (r.reload tree).2.2.events = (redefinitions routes).map .redefined ++
        [.artifactLoaded path routes.length, .published routes.length] := by
  have hload := Artifact.loadCatalog_of_loads h
  simp [reload, hpath, Catalog.load, hload, publish, Catalog.loadEvents, Catalog.ofRoutes, Catalog.size]

theorem reload_of_refused {r : Registry} {path : String} (hpath : r.artifact = some path)
    {tree : FileTree} {failure : Artifact.Failure}
    (h : Artifact.Refused tree path r.strictNames failure) :
    (r.reload tree).2.1 = .error failure ∧
      (r.reload tree).2.2.events = [.reloadFailed path failure] := by
  have hload := Artifact.loadCatalog_of_refused h
  simp [reload, hpath, Catalog.load, hload]

theorem redefinitions_of_loads {tree : FileTree} {path : String} {strict : Bool} {routes : List Route}
    (h : Artifact.Loads tree path strict routes) (hstrict : strict = true) :
    redefinitions routes = [] := by
  obtain ⟨_, _, _, _, hnames⟩ := h
  exact redefinitions_of_distinct (hnames hstrict)

theorem reload_trace {r : Registry} {path : String} (hpath : r.artifact = some path)
    (tree : FileTree) : r.ReloadTrace path tree := by
  rcases Artifact.loads_or_refused tree path r.strictNames with ⟨routes, h⟩ | ⟨failure, h⟩
  · obtain ⟨hcatalog, hevents⟩ := reload_of_loads hpath h
    have hsize : (r.reload tree).1.catalog.size = routes.length := by rw [hcatalog]; rfl
    refine ⟨fun _ => ⟨routes, _, _, Artifact.load_of_loads h, by rw [hcatalog]; rfl, hevents,
      inOrder_redefinitions routes, redefinitions_of_loads h, fun _ _ => rfl, ?_, ?_⟩,
      fun failure hfail => ?_⟩
    · exact ⟨rfl, rfl, by simp [Event.fields, hsize]⟩
    · exact ⟨rfl, rfl, by simp [Event.fields, hsize]⟩
    · rw [reload_result hpath, Artifact.loadCatalog_of_loads h] at hfail
      cases hfail
  · obtain ⟨hresult, hevents⟩ := reload_of_refused hpath h
    refine ⟨fun hok => ?_, fun failure' hfail => ⟨_, hevents, rfl, rfl, ?_⟩⟩
    · rw [hresult] at hok
      cases hok
    · rw [hresult] at hfail
      obtain rfl := Except.error.inj hfail
      rfl

/-- Where no artifact stands behind a registry, nothing is reported. -/
theorem reload_unbacked {r : Registry} (h : r.artifact = none) (tree : FileTree) :
    r.reload tree = (r, .ok (), {}) := by
  simp [reload, h]

end Registry

/-! ## One step of a session -/

namespace Session

/-- The catalog that an operation loads, with the path from which it does. -/
def loaded? (s : State) : Step → Option (String × Catalog)
  | .loadCatalog path strict =>
    (Artifact.loadCatalog s.tree path strict).toOption.map fun catalog => (path, catalog)
  | .openWith config => configured? s.tree config
  | .openText text => (Config.ofText text).toOption.bind (configured? s.tree)
  | .reload =>
    s.registry.bind fun r => r.artifact.bind fun path =>
      (Artifact.loadCatalog s.tree path r.strictNames).toOption.map fun catalog => (path, catalog)
  | _ => none
where
  /-- What a configuration names, if it can be loaded. -/
  configured? (tree : FileTree) (config : Config) : Option (String × Catalog) :=
    (Artifact.loadCatalog tree config.artifactPath config.strictNames).toOption.map fun catalog =>
      (config.artifactPath, catalog)

/-- What an operation announces: what it loads, and then what it publishes in place of another. -/
def announcements (s : State) (op : Step) : List Event :=
  ((loaded? s op).map fun (path, catalog) => Event.artifactLoaded path catalog.size).toList ++
    ((replaced? s op).map fun catalog => Event.published catalog.size).toList

theorem openRegistry_announced (s : State) (config : Config) :
    (openRegistry s config).2.2.events.filter Event.announces =
      ((loaded?.configured? s.tree config).map fun (path, catalog) =>
        Event.artifactLoaded path catalog.size).toList := by
  have hload := Catalog.filter_load s.tree config.artifactPath config.strictNames
  unfold openRegistry Registry.openWith loaded?.configured?
  cases h : Artifact.loadCatalog s.tree config.artifactPath config.strictNames with
  | error failure => simp [Catalog.load, h, Except.toOption]
  | ok catalog => simpa [Catalog.load, h, Except.toOption] using hload

theorem reload_announced {r : Registry} {path : String} (hpath : r.artifact = some path)
    (tree : FileTree) :
    (r.reload tree).2.2.events.filter Event.announces =
      ((Artifact.loadCatalog tree path r.strictNames).toOption.map fun catalog =>
        [Event.artifactLoaded path catalog.size, Event.published catalog.size]).getD [] := by
  cases h : Artifact.loadCatalog tree path r.strictNames with
  | error failure =>
    simp [Registry.reload, hpath, Catalog.load, h, Except.toOption, Event.announces]
  | ok catalog =>
    simp [Registry.reload, hpath, Catalog.load, h, Except.toOption, Registry.publish,
      Catalog.filter_loadEvents, Event.announces]

theorem scan_announced (tree : FileTree) (paths : List String) :
    (Source.scan tree paths).2.filter Event.announces = [] := by
  induction paths with
  | nil => rfl
  | cons path paths ih =>
    unfold Source.scan
    cases tree.read path with
    | error fault => rfl
    | ok content => simpa [Event.announces] using ih

theorem resolve_announced (r : Registry) (name : String) (values : Option Values) :
    (r.resolve name values).2.events.filter Event.announces = [] := by
  unfold Registry.resolve
  split <;> simp [Event.announces]

theorem save_announced (tree : FileTree) (path : String) (layout : Json.Layout) (routes : List Route) :
    (Artifact.save tree path layout routes).2.2.filter Event.announces = [] := by
  unfold Artifact.save
  split <;> simp [Event.announces]

theorem start_announced (watcher : Watcher) (tree : FileTree) :
    (watcher.start tree).2.filter Event.announces = [] := by
  unfold Watcher.start
  split <;> simp [Event.announces]

/-- **One step**: an operation announces the catalog that it loads and the one that it publishes, and
no others. -/
theorem step_announced (s : State) (op : Step) :
    (step s op).2.2.events.filter Event.announces = announcements s op := by
  change (act s op).2.2.events.filter Event.announces = _
  unfold announcements
  cases op with
  | openWith config => simpa [act, loaded?, replaced?] using openRegistry_announced s config
  | openText text =>
    cases hc : Config.ofText text with
    | error failure => simp [act, loaded?, replaced?, hc, Except.toOption]
    | ok config =>
      simpa [act, loaded?, replaced?, hc, Except.toOption] using openRegistry_announced s config
  | loadCatalog path strict =>
    simpa [act, loaded?, replaced?, Function.comp_def] using Catalog.filter_load s.tree path strict
  | useRoutes routes => simp [act, makeCatalog, loaded?, replaced?, Catalog.filter_redefined]
  | publish routes =>
    cases hr : s.registry with
    | none => simp [act, withRegistry, loaded?, replaced?, hr]
    | some r =>
      simp [act, withRegistry, loaded?, replaced?, hr, makeCatalog, Registry.publish,
        Catalog.filter_redefined, Event.announces]
  | reload =>
    cases hr : s.registry with
    | none => simp [act, withRegistry, loaded?, replaced?, hr]
    | some r =>
      cases hpath : r.artifact with
      | none => simp [act, withRegistry, loaded?, replaced?, hr, hpath, Registry.reload_unbacked]
      | some path =>
        simp only [act, withRegistry, hr, reload_announced hpath, loaded?, replaced?, hpath,
          Option.bind_some]
        cases Artifact.loadCatalog s.tree path r.strictNames <;> simp [Except.toOption]
  | scan paths =>
    have hscan := scan_announced s.tree paths
    simp only [act, loaded?, replaced?]
    split <;> simp_all
  | save path layout routes =>
    simp only [act, loaded?, replaced?, save_announced]
    rfl
  | watch watcher =>
    simp only [act, loaded?, replaced?, start_announced]
    rfl
  | resolve name values | resolveMounted _ name values =>
    cases hr : s.registry with
    | none => simp [act, withRegistry, loaded?, replaced?, hr]
    | some r =>
      have hresolve := resolve_announced r name values
      simpa [act, withRegistry, loaded?, replaced?, hr, Registry.resolveMounted] using hresolve
  | setScriptName _ | describe | listRoutes | keep =>
    cases hr : s.registry <;> simp [act, withRegistry, loaded?, replaced?, hr]
  | inspect _ _ | loadConfig _ =>
    simp only [act, loaded?, replaced?]
    split <;> simp
  | _ => simp [act, loaded?, replaced?]

/-! ## Operations that succeed -/

/-- An answer that tells of success, and nothing more. -/
def Answer.isDone : Answer → Bool
  | .done => true
  | _ => false

/-- An answer that is a catalog. -/
def Answer.isCatalog : Answer → Bool
  | .catalog _ => true
  | _ => false

/-- An answer that is a registry. -/
def Answer.isRegistry : Answer → Bool
  | .registry _ => true
  | _ => false

/-- Routes are published in the registry that is there. -/
def publishes (s : State) : Step → Bool
  | .publish routes => (step s (.publish routes)).2.1.isDone
  | _ => false

/-- The registry that is there reads its artifact again, and succeeds. -/
def rereads (s : State) : Step → Bool
  | .reload => (s.registry.bind (·.artifact)).isSome && (step s .reload).2.1.isDone
  | _ => false

/-- A catalog is loaded for its own sake. -/
def loads (s : State) : Step → Bool
  | .loadCatalog path strict => (step s (.loadCatalog path strict)).2.1.isCatalog
  | _ => false

/-- A registry is opened. -/
def opens (s : State) : Step → Bool
  | .openWith config => (step s (.openWith config)).2.1.isRegistry
  | .openText text => (step s (.openText text)).2.1.isRegistry
  | _ => false

/-- An answer that reports an error. -/
def Answer.IsError : Answer → Prop
  | .fileFault _ | .artifactFailure _ | .configFailure _ | .noRegistry | .notKept => True
  | .resolved (.error _) | .inspected _ (some (.error _)) => True
  | _ => False

theorem Answer.IsError.not_success {a : Answer} (h : a.IsError) :
    a.isDone = false ∧ a.isCatalog = false ∧ a.isRegistry = false := by
  cases a with
  | done | catalog _ | registry _ => exact h.elim
  | _ => exact ⟨rfl, rfl, rfl⟩

/-- An operation that reports an error does none of these. -/
theorem none_of_error {s : State} {op : Step} (h : (step s op).2.1.IsError) :
    publishes s op = false ∧ rereads s op = false ∧ loads s op = false ∧ opens s op = false := by
  obtain ⟨hdone, hcatalog, hregistry⟩ := h.not_success
  cases op with
  | publish _ => exact ⟨hdone, rfl, rfl, rfl⟩
  | reload => exact ⟨rfl, by simp [rereads, hdone], rfl, rfl⟩
  | loadCatalog _ _ => exact ⟨rfl, rfl, hcatalog, rfl⟩
  | openWith _ | openText _ => exact ⟨rfl, rfl, rfl, hregistry⟩
  | _ => exact ⟨rfl, rfl, rfl, rfl⟩

/-- Reading again succeeds where it puts a catalog in place of another. -/
theorem rereads_reload (s : State) : rereads s .reload = (replaced? s .reload).isSome := by
  unfold rereads replaced?
  cases hr : s.registry with
  | none => rfl
  | some r =>
    cases hpath : r.artifact with
    | none => simp [hpath]
    | some path =>
      have hanswer := step_reload_answer hr hpath
      cases h : Artifact.loadCatalog s.tree path r.strictNames with
      | error failure =>
        simp [hpath, hanswer, h, Except.toOption, Except.map, answerOf, Answer.isDone]
      | ok catalog =>
        simp [hpath, hanswer, h, Except.toOption, Except.map, answerOf, Answer.isDone]

theorem loaded?_reload (s : State) : (loaded? s .reload).isSome = (replaced? s .reload).isSome := by
  unfold loaded? replaced?
  cases s.registry with
  | none => rfl
  | some r => cases h : r.artifact <;> simp [h]

theorem openRegistry_isRegistry (s : State) (config : Config) :
    (openRegistry s config).2.1.isRegistry = (loaded?.configured? s.tree config).isSome := by
  unfold loaded?.configured? openRegistry Registry.openWith
  cases h : Artifact.loadCatalog s.tree config.artifactPath config.strictNames with
  | error failure => simp [Catalog.load, h, Except.toOption, Answer.isRegistry]
  | ok catalog => simp [Catalog.load, h, Except.toOption, Answer.isRegistry]

theorem length_toList {α : Type} (o : Option α) : o.toList.length = o.isSome.toNat := by
  cases o <;> rfl

theorem length_replaced (s : State) (op : Step) :
    (replaced? s op).toList.length = (publishes s op).toNat + (rereads s op).toNat := by
  rw [length_toList]
  cases op with
  | publish routes =>
    cases hr : s.registry <;>
      simp [replaced?, publishes, rereads, step, act, withRegistry, hr, Answer.isDone]
  | reload => simp [publishes, rereads_reload]
  | _ => simp [replaced?, publishes, rereads]

theorem length_loaded (s : State) (op : Step) :
    (loaded? s op).toList.length =
      (loads s op).toNat + (opens s op).toNat + (rereads s op).toNat := by
  rw [length_toList]
  cases op with
  | loadCatalog path strict =>
    cases h : Artifact.loadCatalog s.tree path strict <;>
      simp [loaded?, loads, opens, rereads, step, act, Catalog.load, h, Except.toOption, answerOf,
        Answer.isCatalog]
  | openWith config =>
    simp [loaded?, loads, opens, rereads, step, act, openRegistry_isRegistry]
  | openText text =>
    cases hc : Config.ofText text with
    | error failure =>
      simp [loaded?, loads, opens, rereads, step, act, hc, Except.toOption, Answer.isRegistry]
    | ok config =>
      simp [loaded?, loads, opens, rereads, step, act, hc, Except.toOption, openRegistry_isRegistry]
  | reload => simp [loads, opens, rereads_reload, loaded?_reload]
  | _ => simp [loaded?, loads, opens, rereads]

/-! ## Counting announcements -/

theorem step_published (s : State) (op : Step) :
    Event.tellings "Route index published" (step s op).2.2.events =
      (publishes s op).toNat + (rereads s op).toNat := by
  have hannounce : ∀ e : Event, e.message = "Route index published" → e.announces = true := by
    intro e he
    obtain ⟨n, rfl⟩ := Event.message_eq_published_iff.1 he
    rfl
  rw [← Event.tellings_filter hannounce, step_announced, announcements, Event.tellings_append,
    ← length_replaced]
  cases loaded? s op <;> cases replaced? s op <;> rfl

theorem step_loaded (s : State) (op : Step) :
    Event.tellings "Loaded route artifact" (step s op).2.2.events =
      (loads s op).toNat + (opens s op).toNat + (rereads s op).toNat := by
  have hannounce : ∀ e : Event, e.message = "Loaded route artifact" → e.announces = true := by
    intro e he
    obtain ⟨path, n, rfl⟩ := Event.message_eq_loaded_iff.1 he
    rfl
  rw [← Event.tellings_filter hannounce, step_announced, announcements, Event.tellings_append,
    ← length_loaded]
  cases loaded? s op <;> cases replaced? s op <;> rfl

/-- An operation that reports an error neither loads nor publishes. -/
theorem step_of_error {s : State} {op : Step} (h : (step s op).2.1.IsError) :
    Event.tellings "Route index published" (step s op).2.2.events = 0 ∧
      Event.tellings "Loaded route artifact" (step s op).2.2.events = 0 := by
  obtain ⟨hpublishes, hrereads, hloads, hopens⟩ := none_of_error h
  rw [step_published, step_loaded, hpublishes, hrereads, hloads, hopens]
  exact ⟨rfl, rfl⟩

/-- All events of a run, in order. -/
def journal (s : State) (ops : List Step) : List Event :=
  (run s ops).2.flatMap fun entry => entry.2.events

/-- How many operations of a run are such. -/
def tally (p : State → Step → Bool) (s : State) : List Step → Nat
  | [] => 0
  | op :: ops => (p s op).toNat + tally p (step s op).1 ops

theorem journal_cons (s : State) (op : Step) (ops : List Step) :
    journal s (op :: ops) = (step s op).2.2.events ++ journal (step s op).1 ops := rfl

theorem run_published (s : State) (ops : List Step) :
    Event.tellings "Route index published" (journal s ops) =
      tally publishes s ops + tally rereads s ops := by
  induction ops generalizing s with
  | nil => rfl
  | cons op ops ih =>
    rw [journal_cons, Event.tellings_append, step_published, ih, tally, tally]
    omega

theorem run_loaded (s : State) (ops : List Step) :
    Event.tellings "Loaded route artifact" (journal s ops) =
      tally loads s ops + tally opens s ops + tally rereads s ops := by
  induction ops generalizing s with
  | nil => rfl
  | cons op ops ih =>
    rw [journal_cons, Event.tellings_append, step_loaded, ih, tally, tally, tally]
    omega

/-- **The trace of loading**: in every state of the files, a registry that an artifact stands behind
reports of a reading again what `ReloadTrace` says and nothing else, and any other registry reports
nothing. Along every session, the publications that are reported are as many as the operations that
publish routes or read the artifact again with success, and the loadings that are reported as many as
those that load, open or read again with success. An operation that reports an error makes no such
report. -/
theorem loading_traced :
    (∀ (r : Registry) path, r.artifact = some path → ∀ tree, r.ReloadTrace path tree) ∧
    (∀ r : Registry, r.artifact = none → ∀ tree, (r.reload tree).2.2.events = []) ∧
    ∀ s ops,
      Event.tellings "Route index published" (journal s ops) =
        tally publishes s ops + tally rereads s ops ∧
      Event.tellings "Loaded route artifact" (journal s ops) =
        tally loads s ops + tally opens s ops + tally rereads s ops ∧
      ∀ op, (step (run s ops).1 op).2.1.IsError →
        Event.tellings "Route index published" (step (run s ops).1 op).2.2.events = 0 ∧
        Event.tellings "Loaded route artifact" (step (run s ops).1 op).2.2.events = 0 := by
  refine ⟨fun r path hpath tree => Registry.reload_trace hpath tree, fun r hnone tree => ?_,
    fun s ops => ⟨run_published s ops, run_loaded s ops, fun op h => step_of_error h⟩⟩
  rw [Registry.reload_unbacked hnone]

/-- A registry is opened and read again, then routes are published by hand, and after the artifact was
cut short the reading again fails. -/
def openedAndSpoiled : List Step :=
  [.openWith {}, .reload, .publish [{ path := "/b" }], .write "routes.json" [0x5B], .reload]

/-- Two publications and two loadings are reported, and the last reading again reports its failure
alone. -/
theorem loading_traced_openedAndSpoiled :
    Event.tellings "Route index published" (journal { tree := oneRouteFile } openedAndSpoiled) = 2 ∧
    Event.tellings "Loaded route artifact" (journal { tree := oneRouteFile } openedAndSpoiled) = 2 ∧
    (∃ event, (Registry.reload { catalog := ⟨[], []⟩, artifact := some "routes.json" } {}).2.2.events =
        [event] ∧ event.level = .error) ∧
    (Registry.reload { catalog := ⟨[], []⟩ } {}).2.2.events = [] ∧
    (step (run { tree := oneRouteFile } openedAndSpoiled).1 (.inspect 0 none)).2.1.IsError ∧
    Event.tellings "Loaded route artifact"
      (step (run { tree := oneRouteFile } openedAndSpoiled).1 (.inspect 0 none)).2.2.events = 0 := by
  obtain ⟨hbacked, hunbacked, hruns⟩ := loading_traced
  obtain ⟨hpublished, hloaded, herror⟩ := hruns { tree := oneRouteFile } openedAndSpoiled
  have hnotKept : (step (run { tree := oneRouteFile } openedAndSpoiled).1 (.inspect 0 none)).2.1.IsError :=
    trivial
  obtain ⟨event, hevents, hlevel, _⟩ :=
    (hbacked { catalog := ⟨[], []⟩, artifact := some "routes.json" } "routes.json" rfl {}).failed
      (.file .notFound) rfl
  exact ⟨hpublished.trans rfl, hloaded.trans rfl, ⟨event, hevents, hlevel⟩, hunbacked _ rfl _, hnotKept,
    (herror _ hnotKept).2⟩

end Session

end RouteBook
