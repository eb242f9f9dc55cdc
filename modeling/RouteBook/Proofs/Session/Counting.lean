import RouteBook.Proofs.Session.Publication

/-!
# What a session counts

A registry that is opened can have its metrics counted. Then its opening is, every catalog that is
published in it, and every resolution that it refuses; nothing else is. `step_marks` says this once
for every operation, and what counts can be told from the answers (`opening?_eq_some_iff`,
`replacement?_eq_some_iff`, `refusedKind?_eq_some_iff`). So after a run each number is the number of
operations that count for it, and the keys that are shown are those under which something was
counted. Main statement: `metrics_exact`.
-/

namespace RouteBook

/-! ## What is counted -/

@[simp] theorem Report.append_marks (a b : Report) : (a ++ b).marks = a.marks ++ b.marks := rfl

namespace Registry

/-- The catalog of a registry whose metrics are counted. -/
def measured? (r : Registry) : Option Catalog :=
  if r.metricsEnabled then some r.catalog else none

/-- The refusal with which a registry answers, if its metrics are counted. -/
def refusal? (r : Registry) (name : String) (values : Option Values) : Option Refusal :=
  if r.metricsEnabled then
    match r.catalog.resolve name values with
    | .ok _ => none
    | .error refusal => some refusal
  else none

theorem publicationMarks_eq (r : Registry) :
    r.publicationMarks = (r.measured?.map fun catalog => Mark.published catalog.size).toList := by
  unfold publicationMarks measured?
  split <;> rfl

theorem resolve_marks (r : Registry) (name : String) (values : Option Values) :
    (r.resolve name values).2.marks =
      (((r.refusal? name values).map Refusal.kind).map Mark.refused).toList := by
  cases h : r.catalog.resolve name values with
  | ok path => simp [resolve, refusal?, h]
  | error refusal =>
    by_cases hm : r.metricsEnabled = true
    · simp [resolve, refusal?, h, hm]
    · simp [resolve, refusal?, h, hm]

/-- The marks of reading an artifact again. -/
theorem reload_marks (r : Registry) (tree : FileTree) :
    (r.reload tree).2.2.marks =
      if r.metricsEnabled then
        ((r.artifact.bind fun path => (Artifact.loadCatalog tree path r.strictNames).toOption).map
          fun catalog => Mark.published catalog.size).toList
      else [] := by
  obtain ⟨catalog, artifact, strictNames, addScriptName, metricsEnabled⟩ := r
  cases artifact with
  | none => simp [reload]
  | some path =>
    cases h : Artifact.loadCatalog tree path strictNames with
    | error failure => simp [reload, Catalog.load, h, Except.toOption]
    | ok found =>
      cases metricsEnabled with
      | false => simp [reload, Catalog.load, h, publish, publicationMarks]
      | true => simp [reload, Catalog.load, h, publish, publicationMarks, Except.toOption]

end Registry

namespace Session

/-- The catalog with which an operation opens a registry, if that is counted. -/
def opening? (s : State) (op : Step) : Option Catalog :=
  (made? s op).bind Registry.measured?

/-- The catalog that an operation puts in place of another, if that is counted. -/
def replacement? (s : State) (op : Step) : Option Catalog :=
  s.registry.bind fun r => if r.metricsEnabled then replaced? s op else none

/-- The catalog whose publication an operation counts. -/
def publication? (s : State) (op : Step) : Option Catalog :=
  (opening? s op).or (replacement? s op)

/-- The kind of the refusal that an operation counts. Names are resolved in two ways. -/
def refusedKind? (s : State) : Step → Option Refusal.Kind
  | .resolve name values | .resolveMounted _ name values =>
    s.registry.bind fun r => (r.refusal? name values).map Refusal.kind
  | _ => none

/-- The marks of an operation: the publication that it counts, and the refusal. -/
def marksOf (s : State) (op : Step) : List Mark :=
  ((publication? s op).map fun catalog => Mark.published catalog.size).toList ++
    ((refusedKind? s op).map Mark.refused).toList

/-! ## One step -/

section
variable {s : State} {op : Step}

theorem marksOf_opening (hr : replaced? s op = none) (hk : refusedKind? s op = none) :
    marksOf s op = ((opening? s op).map fun catalog => Mark.published catalog.size).toList := by
  simp [marksOf, publication?, replacement?, hr, hk]

theorem marksOf_replacement (hm : made? s op = none) (hk : refusedKind? s op = none) :
    marksOf s op = ((replacement? s op).map fun catalog => Mark.published catalog.size).toList := by
  simp [marksOf, publication?, opening?, hm, hk]

theorem marksOf_refusal (hm : made? s op = none) (hr : replaced? s op = none) :
    marksOf s op = ((refusedKind? s op).map Mark.refused).toList := by
  simp [marksOf, publication?, opening?, replacement?, hm, hr]

theorem marksOf_eq_nil (hm : made? s op = none) (hr : replaced? s op = none)
    (hk : refusedKind? s op = none) : marksOf s op = [] := by
  rw [marksOf_refusal hm hr, hk]
  rfl

end

theorem openRegistry_marks (s : State) (config : Config) :
    (openRegistry s config).2.2.marks =
      (((opened? s.tree config).bind Registry.measured?).map fun catalog =>
        Mark.published catalog.size).toList := by
  cases h : Artifact.loadCatalog s.tree config.artifactPath config.strictNames with
  | error failure =>
    simp [openRegistry, Registry.openWith, opened?, Catalog.load, h, Except.toOption]
  | ok catalog =>
    simp [openRegistry, Registry.openWith, opened?, Catalog.load, h, Except.toOption,
      Registry.publicationMarks_eq]

/-- **One step**: an operation makes the marks of what it counts, and no others. -/
theorem step_marks (s : State) (op : Step) : (step s op).2.2.marks = marksOf s op := by
  change (act s op).2.2.marks = _
  cases op with
  | openWith config =>
    rw [marksOf_opening rfl rfl]
    exact openRegistry_marks s config
  | openText text =>
    rw [marksOf_opening rfl rfl]
    cases hc : Config.ofText text with
    | error failure => simp [act, opening?, made?, hc, Except.toOption]
    | ok config => simpa [act, opening?, made?, hc, Except.toOption] using openRegistry_marks s config
  | useRoutes routes =>
    rw [marksOf_opening rfl rfl]
    rfl
  | resolve name values =>
    rw [marksOf_refusal rfl rfl]
    cases hr : s.registry with
    | none => simp [act, withRegistry, refusedKind?, hr]
    | some r => simpa [act, withRegistry, refusedKind?, hr] using r.resolve_marks name values
  | resolveMounted scriptName name values =>
    rw [marksOf_refusal rfl rfl]
    cases hr : s.registry with
    | none => simp [act, withRegistry, refusedKind?, hr]
    | some r =>
      simpa [act, withRegistry, refusedKind?, hr, Registry.resolveMounted] using
        r.resolve_marks name values
  | publish routes =>
    rw [marksOf_replacement rfl rfl]
    cases hr : s.registry with
    | none => simp [act, withRegistry, replacement?, hr]
    | some r =>
      by_cases hm : r.metricsEnabled = true
      · simp [act, withRegistry, replacement?, replaced?, hr, hm, makeCatalog, Registry.publish,
          Registry.publicationMarks]
      · simp [act, withRegistry, replacement?, hr, hm, makeCatalog, Registry.publish,
          Registry.publicationMarks]
  | reload =>
    rw [marksOf_replacement rfl rfl]
    cases hr : s.registry with
    | none => simp [act, withRegistry, replacement?, hr]
    | some r =>
      by_cases hm : r.metricsEnabled = true
      · simp [act, withRegistry, replacement?, replaced?, hr, hm, Registry.reload_marks]
      · simp [act, withRegistry, replacement?, hr, hm, Registry.reload_marks]
  | setScriptName _ | describe | listRoutes | keep =>
    rw [marksOf_eq_nil rfl rfl rfl]
    cases hr : s.registry <;> simp [act, withRegistry, hr]
  | scan _ | inspect _ _ | loadConfig _ =>
    rw [marksOf_eq_nil rfl rfl rfl]
    simp only [act]
    split <;> rfl
  | _ =>
    rw [marksOf_eq_nil rfl rfl rfl]
    simp [act]

/-! ## What counts, by what is answered -/

/-- An operation that resolves a name, with the name of the mount point in front or without. -/
def Step.Resolves : Step → Prop
  | .resolve _ _ | .resolveMounted _ _ _ => True
  | _ => False

/-- An operation that replaces the catalog of a registry, if it succeeds. -/
def Step.Replaces (r : Registry) : Step → Prop
  | .publish _ => True
  | .reload => r.artifact ≠ none
  | _ => False

/-- An opening counts if it answers with a registry whose metrics are counted. -/
theorem opening?_eq_some_iff {s : State} {op : Step} {catalog : Catalog} :
    opening? s op = some catalog ↔ op.Opens ∧ ∃ r : Registry,
      (step s op).2.1 = .registry r ∧ r.metricsEnabled = true ∧ r.catalog = catalog := by
  have hmeasured : ∀ r : Registry, r.measured? = some catalog ↔
      r.metricsEnabled = true ∧ r.catalog = catalog := by
    intro r
    simp [Registry.measured?]
  constructor
  · intro h
    obtain ⟨r, hmade, hr⟩ := Option.bind_eq_some_iff.1 h
    have hopens : op.Opens := by
      cases op with
      | openWith _ | openText _ => trivial
      | useRoutes routes =>
        cases hmade
        cases hr
      | _ => cases hmade
    have hsucceeded : ¬ (step s op).2.1.Failed := by
      intro hfailed
      have hnone := (step_failed (Or.inl hopens) hfailed).2
      rw [published?, hmade] at hnone
      cases hnone
    obtain ⟨r', hmade', hanswer⟩ := step_succeeded hopens hsucceeded
    obtain rfl : r = r' := Option.some.inj (hmade.symm.trans hmade')
    exact ⟨hopens, r, hanswer, (hmeasured r).1 hr⟩
  · rintro ⟨hopens, r, hanswer, hr⟩
    have hsucceeded : ¬ (step s op).2.1.Failed := by
      rw [hanswer]
      exact id
    obtain ⟨r', hmade, hanswer'⟩ := step_succeeded hopens hsucceeded
    obtain rfl : r = r' := Answer.registry.inj (hanswer.symm.trans hanswer')
    exact Option.bind_eq_some_iff.2 ⟨r, hmade, (hmeasured r).2 hr⟩

theorem step_reload_answer {s : State} {r : Registry} {path : String} (hr : s.registry = some r)
    (hpath : r.artifact = some path) :
    (step s .reload).2.1 = answerOf (fun _ => .done)
      ((Artifact.loadCatalog s.tree path r.strictNames).map fun _ => ()) := by
  rw [← Registry.reload_result hpath]
  simp [step, act, withRegistry, hr]

/-- What is replaced is replaced by a success, and every success replaces something. -/
theorem replaced?_isSome_iff {s : State} {op : Step} {r : Registry} (hr : s.registry = some r) :
    (∃ catalog, replaced? s op = some catalog) ↔ op.Replaces r ∧ (step s op).2.1 = .done := by
  cases op with
  | publish routes => simp [replaced?, hr, Step.Replaces, step, act, withRegistry]
  | reload =>
    cases hpath : r.artifact with
    | none => simp [replaced?, hr, hpath, Step.Replaces]
    | some path =>
      rw [step_reload_answer hr hpath]
      cases hl : Artifact.loadCatalog s.tree path r.strictNames with
      | error failure => simp [replaced?, hr, hpath, hl, Except.toOption, Except.map, answerOf]
      | ok catalog =>
        simp [replaced?, hr, hpath, hl, Except.toOption, Except.map, answerOf, Step.Replaces]
  | _ => simp [replaced?, Step.Replaces]

/-- A publication or a reading again counts if it succeeds in a registry whose metrics are
counted. -/
theorem replacement?_eq_some_iff {s : State} {op : Step} {catalog : Catalog} :
    replacement? s op = some catalog ↔ ∃ r : Registry, s.registry = some r ∧
      r.metricsEnabled = true ∧ op.Replaces r ∧ (step s op).2.1 = .done ∧
      (step s op).1.registry = some { r with catalog } := by
  have hafter : ∀ r found, s.registry = some r → replaced? s op = some found →
      (step s op).1.registry = some { r with catalog := found } := by
    intro r found hr hfound
    have hkeeps : made? s op = none ∧ switched? op = none := by
      cases op with
      | publish _ | reload => exact ⟨rfl, rfl⟩
      | _ => cases hfound
    rw [step_registry, hkeeps.1, hkeeps.2, hr, hfound]
    rfl
  constructor
  · intro h
    obtain ⟨r, hr, h⟩ := Option.bind_eq_some_iff.1 h
    by_cases hm : r.metricsEnabled = true
    · rw [if_pos hm] at h
      obtain ⟨hreplaces, hdone⟩ := (replaced?_isSome_iff hr).1 ⟨catalog, h⟩
      exact ⟨r, hr, hm, hreplaces, hdone, hafter r catalog hr h⟩
    · rw [if_neg hm] at h
      cases h
  · rintro ⟨r, hr, hm, hreplaces, hdone, hregistry⟩
    obtain ⟨found, hfound⟩ := (replaced?_isSome_iff hr).2 ⟨hreplaces, hdone⟩
    rw [hafter r found hr hfound] at hregistry
    have hsame : found = catalog := congrArg Registry.catalog (Option.some.inj hregistry)
    refine Option.bind_eq_some_iff.2 ⟨r, hr, ?_⟩
    rw [if_pos hm, hfound, hsame]

theorem refusal?_eq_some_iff {r : Registry} {name : String} {values : Option Values}
    {refusal : Refusal} : r.refusal? name values = some refusal ↔
      r.metricsEnabled = true ∧ r.catalog.resolve name values = .error refusal := by
  unfold Registry.refusal?
  by_cases hm : r.metricsEnabled = true
  · cases h : r.catalog.resolve name values <;> simp [hm]
  · simp [hm]

/-- An operation that answers as the current catalog does counts the refusals among the answers. -/
theorem refusedKind?_of_answers {s : State} {op : Step} {name : String} {values : Option Values}
    (hop : refusedKind? s op = s.registry.bind fun r => (r.refusal? name values).map Refusal.kind)
    (hresolves : op.Resolves)
    (hanswer : ∀ r, s.registry = some r → ∀ refusal, (step s op).2.1 = .resolved (.error refusal) ↔
      r.catalog.resolve name values = .error refusal) {kind : Refusal.Kind} :
    refusedKind? s op = some kind ↔ ∃ r : Registry, s.registry = some r ∧
      r.metricsEnabled = true ∧ op.Resolves ∧
      ∃ refusal : Refusal, (step s op).2.1 = .resolved (.error refusal) ∧ refusal.kind = kind := by
  rw [hop]
  constructor
  · intro h
    obtain ⟨r, hr, h⟩ := Option.bind_eq_some_iff.1 h
    obtain ⟨refusal, hrefusal, hkind⟩ := Option.map_eq_some_iff.1 h
    obtain ⟨hm, herror⟩ := refusal?_eq_some_iff.1 hrefusal
    exact ⟨r, hr, hm, hresolves, refusal, (hanswer r hr refusal).2 herror, hkind⟩
  · rintro ⟨r, hr, hm, _, refusal, herror, hkind⟩
    have hrefusal := refusal?_eq_some_iff.2 ⟨hm, (hanswer r hr refusal).1 herror⟩
    exact Option.bind_eq_some_iff.2 ⟨r, hr, Option.map_eq_some_iff.2 ⟨refusal, hrefusal, hkind⟩⟩

/-- A refusal counts if a registry whose metrics are counted answers with it. -/
theorem refusedKind?_eq_some_iff {s : State} {op : Step} {kind : Refusal.Kind} :
    refusedKind? s op = some kind ↔ ∃ r : Registry, s.registry = some r ∧
      r.metricsEnabled = true ∧ op.Resolves ∧
      ∃ refusal : Refusal, (step s op).2.1 = .resolved (.error refusal) ∧ refusal.kind = kind := by
  cases op with
  | resolve name values =>
    refine refusedKind?_of_answers rfl ?_ ?_
    · trivial
    intro r hr refusal
    simp [step, act, withRegistry, hr, Registry.resolve_fst]
  | resolveMounted scriptName name values =>
    refine refusedKind?_of_answers rfl ?_ ?_
    · trivial
    intro r hr refusal
    cases h : r.catalog.resolve name values <;>
      simp [step, act, withRegistry, hr, Registry.resolveMounted, Registry.resolve_fst, h, Except.map]
  | _ => simp [refusedKind?, Step.Resolves]

theorem openRegistry_metrics (s : State) (config : Config) :
    (openRegistry s config).1.metrics = s.metrics := by
  unfold openRegistry
  split <;> rfl

/-- Metrics change by counting marks and in no other way. -/
theorem act_metrics (s : State) (op : Step) : (act s op).1.metrics = s.metrics := by
  cases op with
  | openWith config => exact openRegistry_metrics s config
  | openText text =>
    cases hc : Config.ofText text with
    | error failure => simp [act, hc]
    | ok config => simpa [act, hc] using openRegistry_metrics s config
  | useRoutes _ | write _ _ | makeFolder _ | delete _ | save _ _ _ => simp [act]
  | setScriptName _ | publish _ | reload | keep =>
    cases hr : s.registry <;> simp [act, withRegistry, hr]
  | _ =>
    rw [act_of_reads]
    simp [Step.Reads]

theorem step_metrics (s : State) (op : Step) :
    (step s op).1.metrics = s.metrics.countAll (marksOf s op) := by
  rw [← step_marks, ← act_metrics s op]
  rfl

theorem step_loads (s : State) (op : Step) :
    (step s op).1.metrics.loads = s.metrics.loads + (publication? s op).toList.length := by
  rw [step_metrics, marksOf]
  cases publication? s op <;> cases refusedKind? s op <;> rfl

theorem step_routes (s : State) (op : Step) :
    (step s op).1.metrics.routes = ((publication? s op).map Catalog.size).or s.metrics.routes := by
  rw [step_metrics, marksOf]
  cases publication? s op <;> cases refusedKind? s op <;> rfl

theorem step_refusals (kind : Refusal.Kind) (s : State) (op : Step) :
    (step s op).1.metrics.refusals kind =
      s.metrics.refusals kind + (refusedKind? s op).toList.count kind := by
  rw [step_metrics, marksOf]
  cases refusedKind? s op with
  | none => cases publication? s op <;> rfl
  | some k =>
    by_cases h : kind = k
    · cases publication? s op <;> simp [Metrics.countAll, Metrics.count, h]
    · have h' : k ≠ kind := fun e => h e.symm
      cases publication? s op <;> simp [Metrics.countAll, Metrics.count, h, h']

/-! ## Runs -/

/-- What every step adds to a number is, after a run, added up along it. -/
theorem run_eq_add {α : Type} {f : State → Step → Option α} {g : State → Nat} {n : List α → Nat}
    (hnil : n [] = 0) (happend : ∀ a b, n (a ++ b) = n a + n b)
    (h : ∀ s op, g (step s op).1 = g s + n (f s op).toList) (s : State) (ops : List Step) :
    g (run s ops).1 = g s + n (along f s ops) := by
  induction ops generalizing s with
  | nil => rw [along, hnil]; rfl
  | cons op ops ih => rw [run_cons_fst, ih, h, along, happend, Nat.add_assoc]

theorem along_map {α β : Type} (f : State → Step → Option α) (w : α → β) (s : State)
    (ops : List Step) :
    along (fun s op => (f s op).map w) s ops = (along f s ops).map w := by
  induction ops generalizing s with
  | nil => rfl
  | cons op ops ih =>
    rw [along, along, ih, List.map_append]
    cases f s op <;> rfl

/-- What is yielded in one of two ways, and never in both, is yielded as often as in each. -/
theorem length_along_or {α : Type} {f g : State → Step → Option α}
    (h : ∀ s op, f s op = none ∨ g s op = none) (s : State) (ops : List Step) :
    (along (fun s op => (f s op).or (g s op)) s ops).length =
      (along f s ops).length + (along g s ops).length := by
  induction ops generalizing s with
  | nil => rfl
  | cons op ops ih =>
    have hstep : ((f s op).or (g s op)).toList.length =
        (f s op).toList.length + (g s op).toList.length := by
      rcases h s op with hf | hg
      · simp [hf]
      · simp [hg]
    simp only [along, List.length_append, ih, hstep]
    omega

theorem opening?_or_replacement? (s : State) (op : Step) :
    opening? s op = none ∨ replacement? s op = none := by
  cases op with
  | openWith _ | openText _ | useRoutes _ =>
    right
    simp [replacement?, replaced?]
  | _ =>
    left
    rfl

theorem length_publications (s : State) (ops : List Step) :
    (along publication? s ops).length =
      (along opening? s ops).length + (along replacement? s ops).length :=
  length_along_or opening?_or_replacement? s ops

end Session

/-! ## The keys that are shown -/

namespace Metrics

/-- The kinds of refusals, in the order in which they are shown. -/
def kinds : List Refusal.Kind := [.unknownRoute, .missingValue, .tooFewValues, .tooManyValues]

theorem mem_kinds (kind : Refusal.Kind) : kind ∈ kinds := by
  cases kind <;> decide

/-- The key under which refusals of a kind are shown. -/
def refusalKey (kind : Refusal.Kind) : String :=
  "route_list_resolve_failures_total\x7bkind=" ++ kind.label ++ "\x7d"

theorem refusalKey_injective : Function.Injective refusalKey := by
  intro a b h
  revert h
  cases a <;> cases b <;> decide

theorem refusalKey_ne (kind : Refusal.Kind) :
    refusalKey kind ≠ "route_list_index_loads_total" ∧ refusalKey kind ≠ "route_list_index_routes" := by
  cases kind <;> decide

/-- The refusals that are shown: those of which there are any. -/
def refusalEntries (n : Refusal.Kind → Nat) (ks : List Refusal.Kind) : List (String × Nat) :=
  ks.filterMap fun kind => if n kind = 0 then none else some (refusalKey kind, n kind)

theorem entries_eq (m : Metrics) :
    m.entries = (if m.loads = 0 then [] else [("route_list_index_loads_total", m.loads)]) ++
      (m.routes.map fun n => ("route_list_index_routes", n)).toList ++
      refusalEntries m.refusals kinds := rfl

theorem lookup_refusalEntries (n : Refusal.Kind → Nat) (kind : Refusal.Kind)
    (ks : List Refusal.Kind) :
    (refusalEntries n ks).lookup (refusalKey kind) =
      if kind ∈ ks ∧ n kind ≠ 0 then some (n kind) else none := by
  induction ks with
  | nil => rfl
  | cons k ks ih =>
    unfold refusalEntries at ih ⊢
    by_cases hk : kind = k
    · subst hk
      by_cases hn : n kind = 0
      · simp [ih, hn]
      · simp [hn]
    · have hkey : (refusalKey kind == refusalKey k) = false := by
        simpa using fun e => hk (refusalKey_injective e)
      by_cases hn : n k = 0
      · simp [ih, hn, hk]
      · simp [List.lookup_cons, ih, hn, hk, hkey]

theorem lookup_refusalEntries_of_ne {key : String} (h : ∀ kind, refusalKey kind ≠ key)
    (n : Refusal.Kind → Nat) (ks : List Refusal.Kind) : (refusalEntries n ks).lookup key = none := by
  rw [List.lookup_eq_none_iff]
  intro p hp
  obtain ⟨kind, _, hkind⟩ := List.mem_filterMap.1 hp
  split at hkind
  · cases hkind
  · cases hkind
    simpa using (h kind).symm

theorem lookup_loads (m : Metrics) : m.entries.lookup "route_list_index_loads_total" =
    if m.loads = 0 then none else some m.loads := by
  have hrefusals := lookup_refusalEntries_of_ne (fun kind => (refusalKey_ne kind).1) m.refusals kinds
  rw [entries_eq, List.lookup_append, List.lookup_append, hrefusals]
  cases m.routes <;> split <;> rfl

theorem lookup_routes (m : Metrics) : m.entries.lookup "route_list_index_routes" = m.routes := by
  have hrefusals := lookup_refusalEntries_of_ne (fun kind => (refusalKey_ne kind).2) m.refusals kinds
  rw [entries_eq, List.lookup_append, List.lookup_append, hrefusals]
  cases m.routes <;> split <;> rfl

theorem lookup_refusals (m : Metrics) (kind : Refusal.Kind) :
    m.entries.lookup (refusalKey kind) =
      if m.refusals kind = 0 then none else some (m.refusals kind) := by
  have hloads : (refusalKey kind == "route_list_index_loads_total") = false :=
    beq_eq_false_iff_ne.2 (refusalKey_ne kind).1
  have hroutes : (refusalKey kind == "route_list_index_routes") = false :=
    beq_eq_false_iff_ne.2 (refusalKey_ne kind).2
  have hfirst : (if m.loads = 0 then []
      else [("route_list_index_loads_total", m.loads)]).lookup (refusalKey kind) = none := by
    split
    · rfl
    · simp [List.lookup_cons, hloads]
  have hsecond : (m.routes.map fun n => ("route_list_index_routes", n)).toList.lookup
      (refusalKey kind) = none := by
    cases m.routes with
    | none => rfl
    | some n => simp [List.lookup_cons, hroutes]
  rw [entries_eq, List.lookup_append, List.lookup_append, hfirst, hsecond, lookup_refusalEntries]
  by_cases hn : m.refusals kind = 0
  · simp [hn]
  · simp [hn, mem_kinds]

/-- No other keys are shown. -/
theorem lookup_other (m : Metrics) {key : String} (hloads : key ≠ "route_list_index_loads_total")
    (hroutes : key ≠ "route_list_index_routes") (hrefusals : ∀ kind, refusalKey kind ≠ key) :
    m.entries.lookup key = none := by
  have hother := lookup_refusalEntries_of_ne hrefusals m.refusals kinds
  rw [entries_eq, List.lookup_append, List.lookup_append, hother, List.lookup_eq_none_iff.2]
  · have hkey : (key == "route_list_index_routes") = false := beq_eq_false_iff_ne.2 hroutes
    cases m.routes with
    | none => rfl
    | some n => simp [List.lookup_cons, hkey]
  · intro p hp
    split at hp
    · cases hp
    · obtain rfl := List.mem_singleton.1 hp
      simpa using hloads

end Metrics

namespace Session

/-! ## What metrics show -/

/-- Operations that count nothing. -/
inductive Silent (s : State) : Step → Prop
  /-- An opening or a reading again that fails. -/
  | failed {op : Step} (ho : op.Opens ∨ op = .reload) (h : (step s op).2.1.Failed) : Silent s op
  /-- Reading again where no artifact stands behind the registry. -/
  | unbacked {r : Registry} (hr : s.registry = some r) (h : r.artifact = none) : Silent s .reload
  | inspect (number : Nat) (query : Option (String × Option Values)) : Silent s (.inspect number query)
  | setScriptName (enabled : Bool) : Silent s (.setScriptName enabled)
  /-- Whatever does not open a registry, where there is none whose metrics are counted. -/
  | unmeasured {op : Step} (hr : ∀ r, s.registry = some r → r.metricsEnabled = false)
      (ho : ¬ op.Opens) : Silent s op

theorem marksOf_of_unmeasured {s : State} {op : Step}
    (hr : ∀ r, s.registry = some r → r.metricsEnabled = false) (ho : ¬ op.Opens) :
    marksOf s op = [] := by
  have hrefused : ∀ name values, (s.registry.bind fun r =>
      (r.refusal? name values).map Refusal.kind) = none := by
    intro name values
    cases hs : s.registry with
    | none => rfl
    | some r => simp [Registry.refusal?, hr r hs]
  have hreplaced : replacement? s op = none := by
    cases hs : s.registry with
    | none => simp [replacement?, hs]
    | some r => simp [replacement?, hs, hr r hs]
  cases op with
  | openWith _ | openText _ => exact absurd trivial ho
  | resolve name values | resolveMounted _ name values =>
    rw [marksOf_refusal rfl rfl, refusedKind?, hrefused]
    rfl
  | useRoutes routes =>
    rw [marksOf_opening rfl rfl]
    rfl
  | _ =>
    rw [marksOf_replacement rfl rfl, hreplaced]
    rfl

theorem metrics_of_silent {s : State} {op : Step} (h : Silent s op) :
    (step s op).1.metrics = s.metrics := by
  cases h with
  | failed ho h => rw [(step_failed ho h).1]
  | unbacked hr h => rw [(laws s).unbacked _ hr h]
  | inspect number query =>
    rw [step_metrics, marksOf_eq_nil rfl rfl rfl]
    rfl
  | setScriptName enabled =>
    rw [step_metrics, marksOf_eq_nil rfl rfl rfl]
    rfl
  | unmeasured hr ho =>
    rw [step_metrics, marksOf_of_unmeasured hr ho]
    rfl

/-- What the metrics show after a run that began with none. -/
structure Shows (start : State) (ops : List Step) : Prop where
  /-- Openings and replacements are counted together. -/
  loads : (run start ops).1.metrics.loads =
    (along opening? start ops).length + (along replacement? start ops).length
  loadsKey : (run start ops).1.metrics.entries.lookup "route_list_index_loads_total" =
    if along publication? start ops = [] then none
    else some ((along opening? start ops).length + (along replacement? start ops).length)
  /-- The routes are those of the catalog that was published last, of those that are counted. -/
  routesKey : (run start ops).1.metrics.entries.lookup "route_list_index_routes" =
    (along publication? start ops).getLast?.map Catalog.size
  /-- Refusals are counted by kind. -/
  refusals : ∀ kind, (run start ops).1.metrics.refusals kind =
    (along refusedKind? start ops).count kind
  refusalsKey : ∀ kind, (run start ops).1.metrics.entries.lookup (Metrics.refusalKey kind) =
    if kind ∈ along refusedKind? start ops then some ((along refusedKind? start ops).count kind)
    else none
  otherKeys : ∀ key, key ≠ "route_list_index_loads_total" → key ≠ "route_list_index_routes" →
    (∀ kind, Metrics.refusalKey kind ≠ key) →
      (run start ops).1.metrics.entries.lookup key = none
  /-- What counts as an opening, by its answer in the state that is reached. -/
  opens : ∀ op catalog, opening? (run start ops).1 op = some catalog ↔ op.Opens ∧
    ∃ r : Registry, (step (run start ops).1 op).2.1 = .registry r ∧ r.metricsEnabled = true ∧
      r.catalog = catalog
  /-- What counts as a replacement. -/
  replaces : ∀ op catalog, replacement? (run start ops).1 op = some catalog ↔
    ∃ r : Registry, (run start ops).1.registry = some r ∧ r.metricsEnabled = true ∧
      op.Replaces r ∧ (step (run start ops).1 op).2.1 = .done ∧
      (step (run start ops).1 op).1.registry = some { r with catalog }
  /-- What counts as a refusal. -/
  refuses : ∀ op kind, refusedKind? (run start ops).1 op = some kind ↔
    ∃ r : Registry, (run start ops).1.registry = some r ∧ r.metricsEnabled = true ∧
      op.Resolves ∧ ∃ refusal : Refusal,
        (step (run start ops).1 op).2.1 = .resolved (.error refusal) ∧ refusal.kind = kind
  /-- What counts nothing leaves all of this as it is. -/
  silent : ∀ op, Silent (run start ops).1 op →
    (step (run start ops).1 op).1.metrics = (run start ops).1.metrics

/-- **Metrics**: whatever files a session begins with, and whatever is done in it, the metrics
show how many catalogs were published in registries whose metrics are counted, how many routes the
last of these had, and how many resolutions such registries refused, by kind. -/
theorem metrics_exact (tree : FileTree) (ops : List Step) : Shows { tree } ops := by
  have hloads : (run { tree } ops).1.metrics.loads =
      (along opening? { tree } ops).length + (along replacement? { tree } ops).length := by
    rw [← length_publications]
    have h := run_eq_add (g := fun s => s.metrics.loads) (n := List.length) rfl
      (fun a b => List.length_append) step_loads { tree } ops
    exact h.trans (Nat.zero_add _)
  have hroutes : (run { tree } ops).1.metrics.routes =
      (along publication? { tree } ops).getLast?.map Catalog.size := by
    have h := run_eq_last (g := fun s => s.metrics.routes) step_routes { tree } ops
    rw [along_map, List.getLast?_map, Option.or_none] at h
    exact h
  have hrefusals : ∀ kind, (run { tree } ops).1.metrics.refusals kind =
      (along refusedKind? { tree } ops).count kind := by
    intro kind
    have h := run_eq_add (g := fun s => s.metrics.refusals kind) (n := List.count kind) rfl
      (fun a b => List.count_append) (step_refusals kind) { tree } ops
    exact h.trans (Nat.zero_add _)
  refine ⟨hloads, ?_, ?_, hrefusals, ?_, ?_, ?_, ?_, ?_, ?_⟩
  · rw [Metrics.lookup_loads, hloads, ← length_publications]
    simp only [List.length_eq_zero_iff]
  · rw [Metrics.lookup_routes, hroutes]
  · intro kind
    rw [Metrics.lookup_refusals, hrefusals]
    by_cases hk : kind ∈ along refusedKind? { tree } ops
    · rw [if_pos hk, if_neg (List.count_pos_iff.2 hk).ne']
    · rw [if_neg hk, if_pos (List.count_eq_zero.2 hk)]
  · intro key h₁ h₂ h₃
    exact Metrics.lookup_other _ h₁ h₂ h₃
  · intro op catalog
    exact opening?_eq_some_iff
  · intro op catalog
    exact replacement?_eq_some_iff
  · intro op kind
    exact refusedKind?_eq_some_iff
  · intro op h
    exact metrics_of_silent h

end Session

end RouteBook
