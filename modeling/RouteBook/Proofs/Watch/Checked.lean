import RouteBook.Proofs.Annotations.Routes
import RouteBook.Proofs.Catalog.Names
import RouteBook.Proofs.Watch.Updates

/-!
# What is served has been checked

A catalog that is loaded has routes without defects, and different names if the rule is strict
(`Artifact.checked_of_loadCatalog`). A registry that was opened gets its catalogs from its artifact,
which it reads again, or through the queue of a watcher that goes by its rule. So the current
catalog, those that wait and those that were kept have all been checked: one operation preserves
this (`act_checked`), and hence every run (`run_checked`). Main statement: `served_checked`.
-/

namespace RouteBook

/-! ## Checked catalogs -/

/-- A catalog of routes without defects, with different names where the rule is strict. -/
structure Catalog.Checked (strict : Bool) (catalog : Catalog) : Prop where
  indexed : catalog = Catalog.ofRoutes catalog.routes
  wellFormed : ∀ r ∈ catalog.routes, r.WellFormed
  distinct : strict = true → ¬ ShareName catalog.routes

theorem Catalog.Checked.resolve {catalog : Catalog} (h : catalog.Checked true) {r : Route} {name : String}
    (hr : r ∈ catalog.routes) (hn : r.name = some name) : catalog.resolve name none = .ok r.path := by
  apply resolve_of_pathOf?
  rw [h.indexed]
  exact pathOf?_of_distinct (h.distinct rfl) hr hn

theorem Artifact.checked_of_loadCatalog {tree : FileTree} {path : String} {strict : Bool}
    {catalog : Catalog} (h : loadCatalog tree path strict = .ok catalog) : catalog.Checked strict := by
  obtain ⟨routes, ⟨_, _, _, hsound, hnames⟩, rfl⟩ := loadCatalog_eq_ok_iff.1 h
  exact ⟨rfl, Route.defects_eq_nil_iff.1 hsound, hnames⟩

theorem Artifact.checked_of_toOption {tree : FileTree} {path : String} {strict : Bool}
    {catalog : Catalog} (h : (loadCatalog tree path strict).toOption = some catalog) :
    catalog.Checked strict := by
  cases hl : loadCatalog tree path strict with
  | error failure =>
    rw [hl] at h
    cases h
  | ok found =>
    rw [hl] at h
    obtain rfl := Option.some.inj h
    exact checked_of_loadCatalog hl

/-! ## A registry in use -/

/-- A registry with the loop that keeps it up to date, and the catalogs that were kept from it. -/
structure Serving where
  loop : WatchLoop
  kept : List Catalog := []

namespace Serving

/-- What can happen to a registry that takes no catalog from elsewhere. -/
inductive Act where
  /-- The registry reads its artifact again, and finds the files so. -/
  | reload (tree : FileTree)
  /-- The watcher or the loop takes its turn. -/
  | turn (t : WatchLoop.Turn)
  /-- The watcher is set on a path, and goes by the rule of the registry. -/
  | watch (path : String)
  /-- The current catalog is kept. -/
  | keep

/-- One operation. -/
def act (s : Serving) : Act → Serving
  | .reload tree => { s with loop := { s.loop with registry := (s.loop.registry.reload tree).1 } }
  | .turn t => { s with loop := (s.loop.turn t).1 }
  | .watch path => { s with loop := { s.loop with watcher := ⟨path, s.loop.registry.strictNames⟩ } }
  | .keep => { s with kept := s.kept ++ [s.loop.registry.catalog] }

/-- Operations in order. -/
def run (s : Serving) (acts : List Act) : Serving :=
  acts.foldl act s

/-- All catalogs have been checked under one rule, those that wait included. -/
structure Checked (strict : Bool) (s : Serving) : Prop where
  rule : s.loop.registry.strictNames = strict
  watched : s.loop.watcher.strict = strict
  current : s.loop.registry.catalog.Checked strict
  waiting : ∀ catalog ∈ s.loop.waiting, catalog.Checked strict
  kept : ∀ catalog ∈ s.kept, catalog.Checked strict

section
variable {strict : Bool} {s : Serving}

theorem reload_checked {r : Registry} (hr : r.catalog.Checked r.strictNames) (tree : FileTree) :
    (r.reload tree).1.catalog.Checked r.strictNames := by
  rw [Registry.reload_fst]
  cases hl : r.artifact.bind fun path => (Artifact.loadCatalog tree path r.strictNames).toOption with
  | none => exact hr
  | some catalog =>
    obtain ⟨path, _, hload⟩ := Option.bind_eq_some_iff.1 hl
    exact Artifact.checked_of_toOption hload

/-- What a turn publishes or leaves waiting was waiting before, or has just been loaded. -/
theorem checked_of_mem_queue (h : s.Checked strict) {t : WatchLoop.Turn} {catalog : Catalog}
    (hmem : catalog ∈ (WatchLoop.published? s.loop t).toList ++ (s.loop.turn t).1.waiting) :
    catalog.Checked strict := by
  rw [WatchLoop.turn_queue, List.mem_append] at hmem
  rcases hmem with hwaiting | hloaded
  · exact h.waiting catalog hwaiting
  · rw [Option.mem_toList] at hloaded
    cases t with
    | take => cases hloaded
    | change tree =>
      rw [← h.watched]
      exact Artifact.checked_of_toOption hloaded

theorem turn_checked (h : s.Checked strict) (t : WatchLoop.Turn) : (s.act (.turn t)).Checked strict where
  rule := by
    change (s.loop.turn t).1.registry.strictNames = strict
    rw [WatchLoop.turn_registry]
    exact h.rule
  watched := by
    change (s.loop.turn t).1.watcher.strict = strict
    rw [WatchLoop.turn_watcher]
    exact h.watched
  current := by
    change (s.loop.turn t).1.registry.catalog.Checked strict
    rw [WatchLoop.turn_registry]
    cases hp : WatchLoop.published? s.loop t with
    | none => exact h.current
    | some catalog =>
      have hmem : catalog ∈ (WatchLoop.published? s.loop t).toList := by rw [hp]; simp
      exact checked_of_mem_queue h (List.mem_append_left _ hmem)
  waiting catalog hmem := checked_of_mem_queue h (List.mem_append_right _ hmem)
  kept := h.kept

/-- **One operation** keeps everything checked. -/
theorem act_checked (h : s.Checked strict) (a : Act) : (s.act a).Checked strict := by
  cases a with
  | turn t => exact turn_checked h t
  | reload tree =>
    obtain rfl := h.rule
    refine { h with rule := ?_, current := reload_checked h.current tree }
    change (s.loop.registry.reload tree).1.strictNames = _
    rw [Registry.reload_fst]
  | watch path => exact { h with watched := h.rule }
  | keep =>
    refine { h with kept := fun catalog hmem => ?_ }
    rcases List.mem_append.1 hmem with hold | hnew
    · exact h.kept catalog hold
    · obtain rfl := List.mem_singleton.1 hnew
      exact h.current

theorem run_checked (h : s.Checked strict) (acts : List Act) : (s.run acts).Checked strict := by
  induction acts generalizing s with
  | nil => exact h
  | cons a acts ih => exact ih (act_checked h a)

end

theorem start_checked {tree : FileTree} {config : Config} {registry : Registry}
    (h : (Registry.openWith tree config).1 = .ok registry) (path : String) :
    Checked config.strictNames { loop := WatchLoop.start registry path } := by
  rw [Registry.openWith_fst] at h
  cases hl : Artifact.loadCatalog tree config.artifactPath config.strictNames with
  | error failure =>
    rw [hl] at h
    cases h
  | ok catalog =>
    rw [hl] at h
    cases h
    exact ⟨rfl, rfl, Artifact.checked_of_loadCatalog hl, by simp [WatchLoop.start], by simp⟩

/-! ## Programs -/

/-- Who keeps watch has opened a registry, and watches its artifact under its rule. -/
theorem exists_opened_of_watching {args : List String} {tree : FileTree} {loop : WatchLoop}
    (h : (CommandLine.Inspect.run args tree).result = .watching loop) :
    ∃ config registry, (Registry.openWith tree config).1 = .ok registry ∧
      loop = WatchLoop.start registry config.artifactPath := by
  unfold CommandLine.Inspect.run at h
  split at h
  · cases h
  · cases h
  · next request _ =>
    unfold CommandLine.Inspect.Request.run at h
    split at h
    · cases h
    · next config _ =>
      split at h
      · cases h
      · next registry report hopen =>
        refine ⟨config, registry, by rw [hopen], ?_⟩
        cases hc : request.command with
        | watch =>
          rw [hc] at h
          cases h
          rfl
        | list layout =>
          rw [hc] at h
          cases h
        | resolve scriptName name values =>
          rw [hc] at h
          simp only [CommandLine.Inspect.Command.run] at h
          split at h <;> cases h

/-! ## Guarantees -/

/-- What everyone can rely on who uses a registry or a catalog that was kept. -/
structure Guarantees (strict : Bool) (s : Serving) : Prop where
  rule : s.loop.registry.strictNames = strict
  paths : ∀ catalog ∈ s.loop.registry.catalog :: s.kept, ∀ r ∈ catalog.routes, r.path ≠ ""
  methods : ∀ catalog ∈ s.loop.registry.catalog :: s.kept, ∀ r ∈ catalog.routes,
    r.methods = none ∨ ∃ m ms, r.methods = some (m :: ms)
  distinct : strict = true → ∀ catalog ∈ s.loop.registry.catalog :: s.kept, ¬ ShareName catalog.routes
  resolves : strict = true → ∀ catalog ∈ s.loop.registry.catalog :: s.kept, ∀ r ∈ catalog.routes,
    ∀ name, r.name = some name → catalog.resolve name none = .ok r.path
  answers : strict = true → ∀ r ∈ s.loop.registry.catalog.routes, ∀ name, r.name = some name →
    (s.loop.registry.resolve name none).1 = .ok r.path

theorem Checked.guarantees {strict : Bool} {s : Serving} (h : s.Checked strict) : s.Guarantees strict := by
  have hall : ∀ catalog ∈ s.loop.registry.catalog :: s.kept, catalog.Checked strict := by
    intro catalog hmem
    rcases List.mem_cons.1 hmem with rfl | hkept
    · exact h.current
    · exact h.kept catalog hkept
  refine ⟨h.rule, fun catalog hc r hr => ((hall catalog hc).wellFormed r hr).path, ?_,
    fun hs catalog hc => (hall catalog hc).distinct hs, ?_, ?_⟩
  · intro catalog hc r hr
    have hmethods := ((hall catalog hc).wellFormed r hr).methods
    rcases hm : r.methods with _ | ⟨_ | ⟨m, ms⟩⟩
    · exact Or.inl rfl
    · exact absurd hm hmethods
    · exact Or.inr ⟨m, ms, rfl⟩
  · rintro rfl catalog hc r hr name hn
    exact (hall catalog hc).resolve hr hn
  · rintro rfl r hr name hn
    rw [Registry.resolve_fst]
    exact h.current.resolve hr hn

/-- **Boundary**: a registry that was opened from an artifact, and then read it again and took what
a watcher with its rule had loaded, in any order and whatever the files held, has a catalog of
routes with paths, and with methods where they list any; under the strict rule their names differ,
and each gives the path of its route. So do the catalogs that were kept from it. The inspector that
keeps watch serves such a registry. -/
theorem served_checked :
    (∀ tree config registry, (Registry.openWith tree config).1 = .ok registry → ∀ path acts,
      Guarantees config.strictNames (run { loop := WatchLoop.start registry path } acts)) ∧
    ∀ args tree loop, (CommandLine.Inspect.run args tree).result = .watching loop → ∀ acts,
      Guarantees loop.registry.strictNames (run { loop } acts) := by
  refine ⟨fun tree config registry h path acts => (run_checked (start_checked h path) acts).guarantees,
    fun args tree loop h acts => ?_⟩
  obtain ⟨config, registry, hopen, rfl⟩ := exists_opened_of_watching h
  have hstart := start_checked hopen config.artifactPath
  have hrule : (WatchLoop.start registry config.artifactPath).registry.strictNames =
      config.strictNames := hstart.rule
  rw [hrule]
  exact (run_checked hstart acts).guarantees

/-- A strict configuration of the default artifact. -/
def strictConfig : Config := { strictNames := true }

/-- The registry that it opens from an artifact with one named route. -/
def strictRegistry : Registry :=
  { catalog := Catalog.ofRoutes [{ path := "/a", name := some "n" }], artifact := some "routes.json",
    strictNames := true, metricsEnabled := true }

/-- The artifact repeats a name, then has a route without a path, and is then replaced. -/
def spoiledAndMended : List Act :=
  [.keep, .turn (.change (WatchLoop.artifactOnly "[[\"/a\",null,\"n\"],[\"/b\",null,\"n\"]]")),
    .reload (WatchLoop.artifactOnly "[[\"\"]]"),
    .turn (.change (WatchLoop.artifactOnly "[[\"/c\",[\"GET\"],\"n\"]]")), .turn .take]

theorem served_checked_spoiledAndMended :
    (Registry.openWith (WatchLoop.artifactOnly "[[\"/a\",null,\"n\"]]") strictConfig).1 =
        .ok strictRegistry ∧
      (run { loop := WatchLoop.start strictRegistry "routes.json" } spoiledAndMended).kept =
        [strictRegistry.catalog] ∧
      ((run { loop := WatchLoop.start strictRegistry "routes.json" }
        spoiledAndMended).loop.registry.resolve "n" none).1 = .ok "/c" := by
  have hopen : (Registry.openWith (WatchLoop.artifactOnly "[[\"/a\",null,\"n\"]]") strictConfig).1 =
      .ok strictRegistry := by rfl
  have hroutes : (run { loop := WatchLoop.start strictRegistry "routes.json" }
      spoiledAndMended).loop.registry.catalog.routes =
        [{ path := "/c", methods := some ["GET"], name := some "n" }] := by rfl
  have hserved := served_checked.1 _ _ _ hopen "routes.json" spoiledAndMended
  refine ⟨hopen, by rfl, ?_⟩
  exact hserved.answers rfl { path := "/c", methods := some ["GET"], name := some "n" }
    (by simp [hroutes]) "n" rfl

end Serving

end RouteBook
