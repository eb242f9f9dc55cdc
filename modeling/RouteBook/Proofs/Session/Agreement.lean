import RouteBook.Proofs.Artifact.Loading
import RouteBook.Proofs.Session.Publication
import RouteBook.Proofs.Watch.Updates

/-!
# All ways of loading agree

An artifact is loaded when a registry is opened, when the registry reads it again, for its own
sake, and by a watcher. A registry keeps the path and the rule about names with which it was
opened, whatever is done with it (`run_making`), so that its reading again and an opening with the
same configuration come to the same, in every state of the files. Main statement:
`loadings_agree`.
-/

namespace RouteBook

theorem Catalog.load_fst (tree : FileTree) (path : String) (strict : Bool) :
    (Catalog.load tree path strict).1 = Artifact.loadCatalog tree path strict := by
  cases h : Artifact.loadCatalog tree path strict with
  | error failure => simp [load, h]
  | ok catalog => simp [load, h]

namespace Registry

/-! ## Reading again -/

/-- Reading the artifact again publishes the catalog: it succeeds and reports a publication, and
the catalog is the current one after it. Nothing else of the registry changes. -/
structure Publishes (r : Registry) (tree : FileTree) (catalog : Catalog) : Prop where
  succeeds : (r.reload tree).2.1 = .ok ()
  current : (r.reload tree).1 = { r with catalog }
  reported : .published catalog.size ∈ (r.reload tree).2.2.events

/-- The registry reads what the configuration names, under its rule about names. -/
structure Follows (r : Registry) (config : Config) : Prop where
  artifact : r.artifact = some config.artifactPath
  strictNames : r.strictNames = config.strictNames

section
variable {r : Registry} {config : Config} {tree : FileTree}

theorem Follows.reload_of_ok (h : r.Follows config) {catalog : Catalog}
    (hl : Artifact.loadCatalog tree config.artifactPath config.strictNames = .ok catalog) :
    r.reload tree = ({ r with catalog }, .ok (),
      { events := catalog.loadEvents config.artifactPath } ++ (r.publish catalog).2) := by
  simp [reload, h.artifact, h.strictNames, Catalog.load, hl, publish]

theorem Follows.reload_of_error (h : r.Follows config) {failure : Artifact.Failure}
    (hl : Artifact.loadCatalog tree config.artifactPath config.strictNames = .error failure) :
    r.reload tree = (r, .error failure,
      { events := [.reloadFailed config.artifactPath failure] }) := by
  simp [reload, h.artifact, h.strictNames, Catalog.load, hl]

/-- What is published is what the artifact gives. -/
theorem Follows.publishes_iff (h : r.Follows config) {catalog : Catalog} :
    r.Publishes tree catalog ↔
      Artifact.loadCatalog tree config.artifactPath config.strictNames = .ok catalog := by
  constructor
  · rintro ⟨hok, hcurrent, _⟩
    cases hl : Artifact.loadCatalog tree config.artifactPath config.strictNames with
    | error failure =>
      rw [h.reload_of_error hl] at hok
      cases hok
    | ok found =>
      rw [h.reload_of_ok hl] at hcurrent
      have hfound : found = catalog := congrArg Registry.catalog hcurrent
      rw [hfound]
  · intro hl
    have hr := h.reload_of_ok hl
    refine ⟨by rw [hr], by rw [hr], ?_⟩
    rw [hr, Report.append_events]
    exact List.mem_append_right _ (List.mem_singleton.2 rfl)

theorem opens_catalog_iff {catalog : Catalog} :
    (∃ r, (openWith tree config).1 = .ok r ∧ r.catalog = catalog) ↔
      Artifact.loadCatalog tree config.artifactPath config.strictNames = .ok catalog := by
  rw [openWith_fst]
  cases Artifact.loadCatalog tree config.artifactPath config.strictNames with
  | error failure => simp [Except.map]
  | ok found => simp [Except.map]

theorem openWith_eq_error {failure : Artifact.Failure}
    (hl : Artifact.loadCatalog tree config.artifactPath config.strictNames = .error failure) :
    (openWith tree config).1 = .error failure := by
  rw [openWith_fst, hl]
  rfl

/-! ## Agreement -/

/-- All ways of loading what the configuration names come to the same as reading again. -/
structure Agrees (r : Registry) (config : Config) (tree : FileTree) : Prop where
  follows : r.Follows config
  /-- What is published is what a file gives that can be loaded, for a reason of its own. -/
  published : ∀ catalog, r.Publishes tree catalog ↔ ∃ routes,
    Artifact.Loads tree config.artifactPath config.strictNames routes ∧
      catalog = Catalog.ofRoutes routes
  opened : ∀ catalog, r.Publishes tree catalog ↔
    ∃ fresh, (openWith tree config).1 = .ok fresh ∧ fresh.catalog = catalog
  loaded : ∀ catalog, r.Publishes tree catalog ↔
    (Catalog.load tree config.artifactPath config.strictNames).1 = .ok catalog
  forwarded : ∀ catalog path, r.artifact = some path →
    (r.Publishes tree catalog ↔ (Watcher.reload ⟨path, r.strictNames⟩ tree).1 = some catalog)
  /-- Where nothing is published, all fail for one reason, and the watcher forwards nothing. -/
  failed : (∀ catalog, ¬ r.Publishes tree catalog) → ∃ failure,
    Artifact.Refused tree config.artifactPath config.strictNames failure ∧
    (r.reload tree).2.1 = .error failure ∧ (r.reload tree).1 = r ∧
    (openWith tree config).1 = .error failure ∧
    (Catalog.load tree config.artifactPath config.strictNames).1 = .error failure ∧
    ∀ path, r.artifact = some path → (Watcher.reload ⟨path, r.strictNames⟩ tree).1 = none
  /-- While the file stays the same, reading it once more publishes the same. -/
  again : ∀ catalog tree', tree'.read config.artifactPath = tree.read config.artifactPath →
    r.Publishes tree catalog → (r.reload tree).1.Publishes tree' catalog
  /-- What was published by hand has no effect on what is read. -/
  replaced : ∀ other,
    (∀ catalog, (r.publish other).1.Publishes tree catalog ↔ r.Publishes tree catalog) ∧
    ((r.publish other).1.reload tree).2.1 = (r.reload tree).2.1

theorem Follows.of_settings (h : r.Follows config) {r' : Registry} (ha : r'.artifact = r.artifact)
    (hs : r'.strictNames = r.strictNames) : r'.Follows config :=
  ⟨ha.trans h.artifact, hs.trans h.strictNames⟩

theorem Follows.watcher_reload (h : r.Follows config) {path : String} (hp : r.artifact = some path) :
    (Watcher.reload ⟨path, r.strictNames⟩ tree).1 =
      (Artifact.loadCatalog tree config.artifactPath config.strictNames).toOption := by
  obtain rfl : config.artifactPath = path := Option.some.inj (h.artifact.symm.trans hp)
  rw [Watcher.reload_fst, h.strictNames]

theorem Follows.result_eq (h : r.Follows config) :
    (r.reload tree).2.1 =
      (Artifact.loadCatalog tree config.artifactPath config.strictNames).map fun _ => () := by
  rw [reload_result h.artifact, h.strictNames]

theorem Follows.agrees (h : r.Follows config) (tree : FileTree) : r.Agrees config tree where
  follows := h
  published catalog := by rw [h.publishes_iff, Artifact.loadCatalog_eq_ok_iff]
  opened catalog := by rw [h.publishes_iff, opens_catalog_iff]
  loaded catalog := by rw [h.publishes_iff, Catalog.load_fst]
  forwarded catalog path hp := by
    rw [h.publishes_iff, h.watcher_reload hp]
    cases Artifact.loadCatalog tree config.artifactPath config.strictNames with
    | error failure => simp [Except.toOption]
    | ok found => simp [Except.toOption]
  failed hnone := by
    cases hl : Artifact.loadCatalog tree config.artifactPath config.strictNames with
    | ok catalog => exact absurd (h.publishes_iff.2 hl) (hnone catalog)
    | error failure =>
      have hreload := h.reload_of_error hl
      refine ⟨failure, Artifact.loadCatalog_eq_error_iff.1 hl, by rw [hreload], by rw [hreload],
        openWith_eq_error hl, by rw [Catalog.load_fst, hl], fun path hp => ?_⟩
      rw [h.watcher_reload hp, hl]
      rfl
  again catalog tree' hfile hp := by
    have hafter : (r.reload tree).1.Follows config := by
      rw [hp.current]
      exact h.of_settings rfl rfl
    rw [hafter.publishes_iff, Artifact.loadCatalog_congr hfile]
    exact h.publishes_iff.1 hp
  replaced other := by
    have hother : (r.publish other).1.Follows config := h.of_settings rfl rfl
    refine ⟨fun catalog => ?_, ?_⟩
    · rw [hother.publishes_iff, h.publishes_iff]
    · rw [hother.result_eq, h.result_eq]

end

end Registry

/-! ## Registries in use -/

theorem WatchLoop.run_follows {loop : WatchLoop} {config : Config} (h : loop.registry.Follows config)
    (turns : List Turn) : (loop.run turns).1.registry.Follows config := by
  rw [run_registry]
  exact h.of_settings rfl rfl

namespace Session

/-- The configuration with which an operation opens a registry. -/
def Step.config? : Step → Option Config
  | .openWith config => some config
  | .openText text => (Config.ofText text).toOption
  | _ => none

theorem opened?_follows {tree : FileTree} {config : Config} {r : Registry}
    (h : opened? tree config = some r) : r.Follows config := by
  obtain ⟨catalog, _, rfl⟩ := Option.map_eq_some_iff.1 h
  exact ⟨rfl, rfl⟩

theorem made?_follows {s : State} {op : Step} {config : Config} (hc : op.config? = some config)
    {r : Registry} (h : made? s op = some r) : r.Follows config := by
  cases op with
  | openWith c =>
    obtain rfl := Option.some.inj hc
    exact opened?_follows h
  | openText text =>
    change (Config.ofText text).toOption = some config at hc
    rw [made?, hc] at h
    exact opened?_follows h
  | _ => cases hc

/-- An operation that opens a registry and does not fail leaves one with its settings. -/
theorem step_follows {s : State} {op : Step} {config : Config} (hc : op.config? = some config)
    (h : ¬ (step s op).2.1.Failed) :
    ∃ r, (step s op).1.registry = some r ∧ r.Follows config := by
  have hopens : op.Opens := by
    cases op with
    | openWith _ | openText _ => trivial
    | _ => cases hc
  obtain ⟨r, hm, _⟩ := step_succeeded hopens h
  refine ⟨r, ?_, made?_follows hc hm⟩
  rw [step_registry, hm]
  rfl

/-- While no other registry is made, what the registry was made with stays. -/
theorem run_making {s : State} {ops : List Step} (h : along made? s ops = []) :
    (run s ops).1.registry.map Registry.making = s.registry.map Registry.making := by
  induction ops generalizing s with
  | nil => rfl
  | cons op ops ih =>
    obtain ⟨hop, hops⟩ := List.append_eq_nil_iff.1 h
    rw [run_cons_fst, ih hops, step_making, Option.toList_eq_nil_iff.1 hop]
    rfl

theorem run_follows {s : State} {r : Registry} (hr : s.registry = some r) {config : Config}
    (hf : r.Follows config) {ops : List Step} (h : along made? s ops = []) :
    ∃ r', (run s ops).1.registry = some r' ∧ r'.Follows config := by
  have hmaking := run_making h
  rw [hr] at hmaking
  obtain ⟨r', hr', he⟩ := Option.map_eq_some_iff.1 hmaking
  exact ⟨r', hr', hf.of_settings (congrArg Making.artifact he) (congrArg Making.strictNames he)⟩

/-- **Agreement**: a registry that was opened with a configuration, in whatever state of the files,
and used since then, be it in a session or in a watch loop after it, agrees with every other way of
loading what the configuration names: it publishes the catalog that a new registry would have, and
that a watcher would forward, or all of them fail for the same reason. -/
theorem loadings_agree {s : State} {opening : Step} {config : Config}
    (hc : opening.config? = some config) (hok : ¬ (step s opening).2.1.Failed) {later : List Step}
    (hlater : along made? (step s opening).1 later = []) :
    ∃ r, (run s (opening :: later)).1.registry = some r ∧
      (∀ tree, r.Agrees config tree) ∧
      ∀ path turns tree,
        ((WatchLoop.start r path).run turns).1.registry.Agrees config tree := by
  obtain ⟨fresh, hfresh, hfollows⟩ := step_follows hc hok
  obtain ⟨r, hr, hf⟩ := run_follows hfresh hfollows hlater
  refine ⟨r, hr, hf.agrees, fun path turns tree => ?_⟩
  have hloop : (WatchLoop.start r path).registry.Follows config := hf
  exact (WatchLoop.run_follows hloop turns).agrees tree

/-- Files whose only one is the default artifact, with one route. -/
def oneRouteFile : FileTree :=
  { entries := [(["routes.json"], .file (Text.Utf8.encode "[[\"/a\"]]".toList))] }

/-- Routes are published by hand, the artifact is cut short, and reading it again fails. -/
def replacedAndSpoiled : List Step :=
  [.publish [{ path := "/b" }], .write "routes.json" [0x5B], .reload, .setScriptName true]

theorem loadings_agree_replacedAndSpoiled :
    Step.config? (.openWith {}) = some {} ∧
      ¬ (step { tree := oneRouteFile } (.openWith {})).2.1.Failed ∧
      along made? (step { tree := oneRouteFile } (.openWith {})).1 replacedAndSpoiled = [] ∧
      ∃ r, (run { tree := oneRouteFile } (.openWith {} :: replacedAndSpoiled)).1.registry = some r ∧
        r.catalog = Catalog.ofRoutes [{ path := "/b" }] ∧
        r.Publishes oneRouteFile (Catalog.ofRoutes [{ path := "/a" }]) ∧
        ∀ catalog, ¬ r.Publishes {} catalog := by
  have hok : ¬ (step { tree := oneRouteFile } (.openWith {})).2.1.Failed := by
    have h : (step { tree := oneRouteFile } (.openWith {})).2.1 = .registry
        { catalog := Catalog.ofRoutes [{ path := "/a" }], artifact := some "routes.json",
          metricsEnabled := true } := by rfl
    rw [h]
    exact id
  have hlater : along made? (step { tree := oneRouteFile } (.openWith {})).1 replacedAndSpoiled = [] := by
    rfl
  obtain ⟨r, hr, hagrees, _⟩ := loadings_agree rfl hok hlater
  refine ⟨rfl, hok, hlater, r, hr, ?_, ?_, fun catalog hp => ?_⟩
  · have hcurrent : (run { tree := oneRouteFile } (.openWith {} :: replacedAndSpoiled)).1.registry.map
        (·.catalog) = some (Catalog.ofRoutes [{ path := "/b" }]) := by rfl
    rw [hr] at hcurrent
    exact Option.some.inj hcurrent
  · exact ((hagrees oneRouteFile).loaded _).2 rfl
  · have hloaded := ((hagrees {}).loaded catalog).1 hp
    cases hloaded

end Session

end RouteBook
