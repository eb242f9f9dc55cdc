import Mathlib
import RouteBook.Proofs.Registry
import RouteBook.Session

/-!
# What is published in a session

A registry is made by opening an artifact or from routes at hand, and its catalog is replaced
when routes are published or the artifact is read again. `step_registry` says this once for every
operation, and all else follows from it: along every run the current catalog is the one that was
published last, a failure leaves everything as it was, and a catalog that was kept stays what it
was (`session_laws`).
-/

namespace RouteBook

/-- What a registry is made with and keeps for good. -/
structure Making where
  artifact : Option String
  strictNames : Bool
  metricsEnabled : Bool

/-- What a registry was made with. -/
def Registry.making (r : Registry) : Making where
  artifact := r.artifact
  strictNames := r.strictNames
  metricsEnabled := r.metricsEnabled

namespace Session

/-! ## What operations do -/

/-- The registry that opening makes, if its artifact can be read. -/
def opened? (tree : FileTree) (config : Config) : Option Registry :=
  (Artifact.loadCatalog tree config.artifactPath config.strictNames).toOption.map fun catalog =>
    { catalog, artifact := some config.artifactPath, strictNames := config.strictNames,
      addScriptName := config.addScriptName, metricsEnabled := config.observability.metricsEnabled }

/-- The registry that an operation makes. -/
def made? (s : State) : Step → Option Registry
  | .openWith config => opened? s.tree config
  | .openText text => (Config.ofText text).toOption.bind (opened? s.tree)
  | .useRoutes routes => some { catalog := Catalog.ofRoutes routes }
  | _ => none

/-- The catalog that an operation puts in place of the current one. -/
def replaced? (s : State) : Step → Option Catalog
  | .publish routes => s.registry.map fun _ => Catalog.ofRoutes routes
  | .reload =>
    s.registry.bind fun r => r.artifact.bind fun path =>
      (Artifact.loadCatalog s.tree path r.strictNames).toOption
  | _ => none

/-- The catalog that an operation publishes, in a registry that it makes or that is there. -/
def published? (s : State) (op : Step) : Option Catalog :=
  ((made? s op).map (·.catalog)).or (replaced? s op)

/-- The name of the mount point is switched on or off. -/
def switched? : Step → Option Bool
  | .setScriptName enabled => some enabled
  | _ => none

/-- Whether an operation puts the name of the mount point in front from now on. -/
def mounted? (s : State) (op : Step) : Option Bool :=
  ((made? s op).map (·.addScriptName)).or (s.registry.bind fun _ => switched? op)

/-- The catalog that an operation keeps. -/
def kept? (s : State) : Step → Option Catalog
  | .keep => s.registry.map (·.catalog)
  | _ => none

/-- What the operations of a run yield, in order. -/
def along {α : Type} (f : State → Step → Option α) (s : State) : List Step → List α
  | [] => []
  | op :: ops => (f s op).toList ++ along f (step s op).1 ops

/-- An operation that opens a registry. -/
def Step.Opens : Step → Prop
  | .openWith _ | .openText _ => True
  | _ => False

/-- An answer that reports why nothing could be read. -/
def Answer.Failed : Answer → Prop
  | .artifactFailure _ | .configFailure _ => True
  | _ => False

/-- An operation that only looks at files, at the registry or at what was kept. -/
def Step.Reads : Step → Prop
  | .read _ | .scan _ | .loadRoutes _ | .loadCatalog _ _ | .loadConfig _ | .describe | .resolve _ _
  | .resolveMounted _ _ _ | .listRoutes | .inspect _ _ | .showMetrics | .watch _ => True
  | _ => False

/-- An operation that changes files. -/
def Step.OnFiles : Step → Prop
  | .write _ _ | .makeFolder _ | .delete _ | .save _ _ _ => True
  | _ => False

/-! ## One step -/

theorem act_of_reads (s : State) {op : Step} (h : op.Reads) : (act s op).1 = s := by
  cases op with
  | read _ | loadRoutes _ | loadCatalog _ _ | showMetrics | watch _ => rfl
  | scan _ | loadConfig _ | inspect _ _ => simp only [act]; split <;> rfl
  | describe | resolve _ _ | resolveMounted _ _ _ | listRoutes =>
    simp only [act, withRegistry]; split <;> rfl
  | _ => exact h.elim

theorem openRegistry_registry (s : State) (config : Config) :
    (openRegistry s config).1.registry = (opened? s.tree config).or s.registry := by
  cases h : Artifact.loadCatalog s.tree config.artifactPath config.strictNames with
  | error failure =>
    simp [openRegistry, Registry.openWith, opened?, Catalog.load, h, Except.toOption]
  | ok catalog =>
    simp [openRegistry, Registry.openWith, opened?, Catalog.load, h, Except.toOption]

/-- **One step**: an operation makes a registry, or it replaces the catalog of the one that is
there, or switches its name of the mount point, or leaves it alone. -/
theorem step_registry (s : State) (op : Step) :
    (step s op).1.registry = (made? s op).or (s.registry.map fun r =>
      { r with
        catalog := (replaced? s op).getD r.catalog
        addScriptName := (switched? op).getD r.addScriptName }) := by
  change (act s op).1.registry = _
  cases op with
  | openWith config => simpa [act, made?, replaced?, switched?] using openRegistry_registry s config
  | openText text =>
    cases hc : Config.ofText text with
    | error failure => simp [act, made?, replaced?, switched?, hc, Except.toOption]
    | ok config =>
      simpa [act, made?, replaced?, switched?, hc, Except.toOption] using openRegistry_registry s config
  | useRoutes routes => rfl
  | setScriptName enabled =>
    cases hr : s.registry with
    | none => simp [act, withRegistry, made?, hr]
    | some r => simp [act, withRegistry, made?, replaced?, switched?, hr, Registry.withScriptName]
  | publish routes =>
    cases hr : s.registry with
    | none => simp [act, withRegistry, made?, hr]
    | some r =>
      simp [act, withRegistry, made?, replaced?, switched?, hr, Registry.publish, makeCatalog]
  | reload =>
    cases hr : s.registry with
    | none => simp [act, withRegistry, made?, hr]
    | some r => simp [act, withRegistry, made?, replaced?, switched?, hr, Registry.reload_fst]
  | keep =>
    cases hr : s.registry <;> simp [act, withRegistry, made?, replaced?, switched?, hr]
  | write _ _ | makeFolder _ | delete _ | save _ _ _ => simp [act, made?, replaced?, switched?]
  | _ => rw [act_of_reads] <;> simp [made?, replaced?, switched?, Step.Reads]

theorem openRegistry_kept (s : State) (config : Config) : (openRegistry s config).1.kept = s.kept := by
  unfold openRegistry; split <;> rfl

/-- Kept catalogs stay, and one is added where one is kept. -/
theorem step_kept (s : State) (op : Step) : (step s op).1.kept = s.kept ++ (kept? s op).toList := by
  change (act s op).1.kept = _
  cases op with
  | openWith config => simpa [act, kept?] using openRegistry_kept s config
  | openText text =>
    cases hc : Config.ofText text with
    | error failure => simp [act, kept?, hc]
    | ok config => simpa [act, kept?, hc] using openRegistry_kept s config
  | useRoutes _ | write _ _ | makeFolder _ | delete _ | save _ _ _ => simp [act, kept?]
  | setScriptName _ | publish _ | reload | keep =>
    cases hr : s.registry <;> simp [act, withRegistry, kept?, hr]
  | _ => rw [act_of_reads] <;> simp [kept?, Step.Reads]

/-! ## Runs -/

@[simp] theorem run_cons_fst (s : State) (op : Step) (ops : List Step) :
    (run s (op :: ops)).1 = (run (step s op).1 ops).1 := rfl

/-- What every step either yields or leaves alone is, after a run, what was yielded last. -/
theorem run_eq_last {α : Type} {f : State → Step → Option α} {g : State → Option α}
    (h : ∀ s op, g (step s op).1 = (f s op).or (g s)) (s : State) (ops : List Step) :
    g (run s ops).1 = (along f s ops).getLast?.or (g s) := by
  induction ops generalizing s with
  | nil => rfl
  | cons op ops ih =>
    rw [run_cons_fst, ih, h, along, List.getLast?_append]
    cases f s op with
    | none => simp
    | some a => cases (along f (step s op).1 ops).getLast? <;> simp

theorem step_catalog (s : State) (op : Step) :
    (step s op).1.registry.map (·.catalog) = (published? s op).or (s.registry.map (·.catalog)) := by
  rw [step_registry, published?]
  cases made? s op with
  | some r => rfl
  | none =>
    cases hr : s.registry with
    | some r => cases replaced? s op <;> rfl
    | none =>
      have hnone : replaced? s op = none := by cases op <;> simp [replaced?, hr]
      simp [hnone]

theorem step_making (s : State) (op : Step) :
    (step s op).1.registry.map Registry.making =
      ((made? s op).map Registry.making).or (s.registry.map Registry.making) := by
  rw [step_registry]
  cases made? s op with
  | some r => rfl
  | none => cases s.registry <;> rfl

theorem step_mounted (s : State) (op : Step) :
    (step s op).1.registry.map (·.addScriptName) =
      (mounted? s op).or (s.registry.map (·.addScriptName)) := by
  rw [step_registry, mounted?]
  cases made? s op with
  | some r => rfl
  | none => cases s.registry <;> cases switched? op <;> rfl

theorem run_kept (s : State) (ops : List Step) :
    (run s ops).1.kept = s.kept ++ along kept? s ops := by
  induction ops generalizing s with
  | nil => simp [run, along]
  | cons op ops ih => rw [run_cons_fst, ih, step_kept, along, List.append_assoc]

/-! ## Failures -/

theorem openRegistry_failed {s : State} {config : Config} (h : (openRegistry s config).2.1.Failed) :
    (openRegistry s config).1 = s ∧ (openRegistry s config).2.2.marks = [] ∧
      opened? s.tree config = none := by
  cases hl : Artifact.loadCatalog s.tree config.artifactPath config.strictNames with
  | error failure =>
    simp [openRegistry, Registry.openWith, opened?, Catalog.load, hl, Except.toOption]
  | ok catalog =>
    simp [openRegistry, Registry.openWith, Catalog.load, hl, Answer.Failed] at h

theorem openRegistry_succeeded {s : State} {config : Config}
    (h : ¬ (openRegistry s config).2.1.Failed) :
    ∃ r, opened? s.tree config = some r ∧ (openRegistry s config).2.1 = .registry r := by
  cases hl : Artifact.loadCatalog s.tree config.artifactPath config.strictNames with
  | error failure =>
    simp [openRegistry, Registry.openWith, Catalog.load, hl, Answer.Failed] at h
  | ok catalog =>
    simp [openRegistry, Registry.openWith, opened?, Catalog.load, hl, Except.toOption]

/-- An opening or reading again that fails changes nothing and publishes nothing. -/
theorem step_failed {s : State} {op : Step} (ho : op.Opens ∨ op = .reload)
    (h : (step s op).2.1.Failed) : (step s op).1 = s ∧ published? s op = none := by
  rcases ho with ho | rfl
  · cases op with
    | openWith config =>
      obtain ⟨hs, hm, hn⟩ := openRegistry_failed h
      exact ⟨by simp [step, act, hs, hm, Metrics.countAll], by simp [published?, made?, replaced?, hn]⟩
    | openText text =>
      cases hc : Config.ofText text with
      | error failure =>
        exact ⟨by simp [step, act, hc, Metrics.countAll],
          by simp [published?, made?, replaced?, hc, Except.toOption]⟩
      | ok config =>
        have h' : (openRegistry s config).2.1.Failed := by simpa [step, act, hc] using h
        obtain ⟨hs, hm, hn⟩ := openRegistry_failed h'
        exact ⟨by simp [step, act, hc, hs, hm, Metrics.countAll],
          by simp [published?, made?, replaced?, hc, hn, Except.toOption]⟩
    | _ => exact ho.elim
  · cases hr : s.registry with
    | none => simp [step, act, withRegistry, hr, Answer.Failed] at h
    | some r =>
      cases ha : r.artifact with
      | none => simp [step, act, withRegistry, hr, Registry.reload, ha, answerOf, Answer.Failed] at h
      | some path =>
        cases hl : Artifact.loadCatalog s.tree path r.strictNames with
        | ok catalog =>
          simp [step, act, withRegistry, hr, Registry.reload, ha, Catalog.load, hl, answerOf,
            Answer.Failed] at h
        | error failure =>
          obtain ⟨tree, registry, kept, metrics⟩ := s
          simp only at hr hl
          subst hr
          simp [step, act, withRegistry, Registry.reload, ha, Catalog.load, hl, Metrics.countAll,
            published?, made?, replaced?, Except.toOption]

/-- An opening that does not fail makes a registry and answers with it. -/
theorem step_succeeded {s : State} {op : Step} (ho : op.Opens) (h : ¬ (step s op).2.1.Failed) :
    ∃ r, made? s op = some r ∧ (step s op).2.1 = .registry r := by
  cases op with
  | openWith config => exact openRegistry_succeeded h
  | openText text =>
    cases hc : Config.ofText text with
    | error failure => simp [step, act, hc, Answer.Failed] at h
    | ok config =>
      have h' : ¬ (openRegistry s config).2.1.Failed := by simpa [step, act, hc] using h
      simpa [step, act, made?, hc, Except.toOption] using openRegistry_succeeded h'
  | _ => exact ho.elim

/-! ## The laws of a session -/

/-- What one operation does in a state, and all later ones to what is kept in it. -/
structure Laws (s : State) : Prop where
  /-- A failed opening or reading again leaves the state as it was, and publishes nothing. -/
  failed : ∀ op, op.Opens ∨ op = .reload → (step s op).2.1.Failed →
    (step s op).1 = s ∧ published? s op = none
  /-- Any other opening makes a registry and answers with it. -/
  succeeded : ∀ op, op.Opens → ¬ (step s op).2.1.Failed →
    ∃ r, made? s op = some r ∧ (step s op).2.1 = .registry r
  /-- A registry that no artifact stands behind is content when it is read again. -/
  unbacked : ∀ r, s.registry = some r → r.artifact = none → step s .reload = (s, .done, {})
  /-- Publishing and reading again change nothing but the catalog. -/
  replaces : ∀ r, s.registry = some r → ∀ op, op = .reload ∨ (∃ routes, op = .publish routes) →
    (∃ catalog, (step s op).1.registry = some { r with catalog }) ∧
      (step s op).1.kept = s.kept ∧ (step s op).1.tree = s.tree
  /-- Switching the name of the mount point changes nothing but that. -/
  switches : ∀ r, s.registry = some r → ∀ enabled, (step s (.setScriptName enabled)).1 =
    { s with registry := some { r with addScriptName := enabled } }
  /-- Operations that read leave the registry, what is kept and the files alone. -/
  reads : ∀ op, op.Reads → (step s op).1.registry = s.registry ∧ (step s op).1.kept = s.kept ∧
    (step s op).1.tree = s.tree
  /-- Operations on files leave the registry and what is kept alone. -/
  files : ∀ op, op.OnFiles → (step s op).1.registry = s.registry ∧ (step s op).1.kept = s.kept
  /-- Keeping adds the current catalog to what is kept, and changes nothing else. -/
  keeps : ∀ r, s.registry = some r →
    step s .keep = ({ s with kept := s.kept ++ [r.catalog] }, .kept s.kept.length, {})
  /-- What is kept now is what every later look at it shows, whatever is done until then. -/
  frozen : ∀ r, s.registry = some r → ∀ later query,
    (step (run (step s .keep).1 later).1 (.inspect s.kept.length query)).2.1 =
      .inspected r.catalog (query.map fun (name, values) => r.catalog.resolve name values)
  /-- A name is resolved as the catalog kept at this moment resolves it. -/
  resolves : ∀ r, s.registry = some r → ∀ scriptName name values, ∃ result,
    (step s (.resolve name values)).2.1 = .resolved result ∧
    (step (step s .keep).1 (.inspect s.kept.length (some (name, values)))).2.1 =
      .inspected r.catalog (some result) ∧
    (step s (.resolveMounted scriptName name values)).2.1 =
      .resolved (result.map fun path => if r.addScriptName then scriptName ++ path else path)
  /-- The routes that are listed are those of the current catalog. -/
  lists : ∀ r, s.registry = some r → (step s .listRoutes).2.1 = .routes r.catalog.routes

theorem step_keep {s : State} {r : Registry} (hr : s.registry = some r) :
    step s .keep = ({ s with kept := s.kept ++ [r.catalog] }, .kept s.kept.length, {}) := by
  simp [step, act, withRegistry, hr, Metrics.countAll]

theorem step_inspect {s : State} {number : Nat} {catalog : Catalog} (h : s.kept[number]? = some catalog)
    (query : Option (String × Option Values)) :
    (step s (.inspect number query)).2.1 =
      .inspected catalog (query.map fun (name, values) => catalog.resolve name values) := by
  simp [step, act, h]

theorem step_inspect_later {s : State} {r : Registry} (hr : s.registry = some r) (later : List Step)
    (query : Option (String × Option Values)) :
    (step (run (step s .keep).1 later).1 (.inspect s.kept.length query)).2.1 =
      .inspected r.catalog (query.map fun (name, values) => r.catalog.resolve name values) := by
  refine step_inspect ?_ query
  rw [run_kept, step_keep hr]
  simp

theorem laws (s : State) : Laws s where
  failed _ ho h := step_failed ho h
  succeeded _ ho h := step_succeeded ho h
  unbacked r hr ha := by
    obtain ⟨tree, registry, kept, metrics⟩ := s
    simp only at hr
    subst hr
    simp [step, act, withRegistry, Registry.reload, ha, answerOf, Metrics.countAll]
  replaces r hr op ho := by
    have hmade : made? s op = none ∧ switched? op = none ∧ kept? s op = none := by
      rcases ho with rfl | ⟨routes, rfl⟩ <;> exact ⟨rfl, rfl, rfl⟩
    obtain ⟨hm, hsw, hk⟩ := hmade
    rw [step_registry, step_kept, hm, hsw, hk, hr]
    refine ⟨⟨_, rfl⟩, by simp, ?_⟩
    rcases ho with rfl | ⟨routes, rfl⟩ <;> simp [step, act, withRegistry, hr]
  switches r hr enabled := by
    simp [step, act, withRegistry, hr, Registry.withScriptName, Metrics.countAll]
  reads op ho := by
    have h := act_of_reads s ho
    simp [step, h]
  files op ho := by
    rw [step_registry, step_kept]
    cases op with
    | write _ _ | makeFolder _ | delete _ | save _ _ _ => simp [made?, replaced?, switched?, kept?]
    | _ => exact ho.elim
  keeps r hr := step_keep hr
  frozen r hr later query := step_inspect_later hr later query
  resolves r hr scriptName name values := by
    refine ⟨r.catalog.resolve name values, ?_, step_inspect_later hr [] _, ?_⟩
    · simp [step, act, withRegistry, hr, Registry.resolve_fst]
    · simp [step, act, withRegistry, hr, Registry.resolveMounted, Registry.resolve_fst]
  lists r hr := by simp [step, act, withRegistry, hr]

/-- **Sessions**: whatever files a session begins with, after every run the current catalog is
the one that was published last, by opening an artifact, by routes at hand, by publishing or by
reading the artifact again. What the registry was made with, and whether the name of the mount
point is wanted, is as it was said last. A registry that was made from routes at hand has nothing
to read again, and the laws of a step hold in the state that is reached. -/
theorem session_laws (tree : FileTree) (ops : List Step) :
    (run { tree } ops).1.registry.map (·.catalog) = (along published? { tree } ops).getLast? ∧
      (run { tree } ops).1.registry.map Registry.making =
        (along (fun s op => (made? s op).map Registry.making) { tree } ops).getLast? ∧
      (run { tree } ops).1.registry.map (·.addScriptName) = (along mounted? { tree } ops).getLast? ∧
      (∀ m, (along (fun s op => (made? s op).map Registry.making) { tree } ops).getLast? = some m →
        m.artifact = none → step (run { tree } ops).1 .reload = ((run { tree } ops).1, .done, {})) ∧
      Laws (run { tree } ops).1 := by
  have hcatalog := run_eq_last (g := fun s => s.registry.map (·.catalog)) step_catalog { tree } ops
  have hmaking := run_eq_last (g := fun s => s.registry.map Registry.making) step_making { tree } ops
  have hmounted := run_eq_last (g := fun s => s.registry.map (·.addScriptName)) step_mounted { tree } ops
  simp only [Option.map_none, Option.or_none] at hcatalog hmaking hmounted
  refine ⟨hcatalog, hmaking, hmounted, fun m hm ha => ?_, laws _⟩
  rw [← hmaking] at hm
  obtain ⟨r, hr, rfl⟩ := Option.map_eq_some_iff.1 hm
  exact (laws _).unbacked r hr ha

end Session

end RouteBook
