import RouteBook.Proofs.Annotations.Routes
import RouteBook.Proofs.Artifact.RoundTrip

/-!
# The defects of routes

A list of routes is looked through to its end, and every defect is reported once: by the position of
its route, and of one route the empty path before the empty methods (`Defect.Before`). `Reports` says
so without the search, and fits no other list (`reports_iff`). The defects of a later part are those
of the part alone with all positions raised (`defects_append`). Main statement: `defects_exact`.
-/

namespace RouteBook.Route

namespace Defect

/-- The position of the route that a defect is about. -/
def index : Defect → Nat
  | emptyPath i | emptyMethods i => i

/-- The defect as it is seen with `n` more routes in front. -/
def raise (n : Nat) : Defect → Defect
  | emptyPath i => emptyPath (i + n)
  | emptyMethods i => emptyMethods (i + n)

/-- A defect is reported before another: its route comes earlier, or it is the empty path of a route
that has both. -/
inductive Before : Defect → Defect → Prop
  | earlier {d e : Defect} (h : d.index < e.index) : Before d e
  | path (i : Nat) : Before (emptyPath i) (emptyMethods i)

theorem Before.index_le {d e : Defect} (h : Before d e) : d.index ≤ e.index := by
  cases h with
  | earlier h => exact Nat.le_of_lt h
  | path i => exact Nat.le_refl i

theorem Before.asymm {d e : Defect} (h : Before d e) : ¬ Before e d := by
  intro h'
  cases h with
  | earlier h =>
    have := h'.index_le
    omega
  | path i =>
    cases h' with
    | earlier h' => simp [index] at h'

theorem nodup_of_before {ds : List Defect} (h : ds.Pairwise Before) : ds.Nodup := by
  apply h.imp
  rintro d e hbefore rfl
  exact hbefore.asymm hbefore

/-- Of given defects, only one list has each in its order. -/
theorem eq_of_before {ds es : List Defect} (hd : ds.Pairwise Before) (he : es.Pairwise Before)
    (hmem : ∀ d, d ∈ ds ↔ d ∈ es) : ds = es := by
  have hperm : ds.Perm es :=
    (List.perm_ext_iff_of_nodup (nodup_of_before hd) (nodup_of_before he)).2 hmem
  exact hperm.eq_of_pairwise (fun _ _ _ _ h h' => absurd h' h.asymm) hd he

end Defect

/-! ## One route -/

section
variable {r : Route} {i : Nat} {d : Defect}

theorem emptyPath_mem_defectsAt {j : Nat} : .emptyPath j ∈ r.defectsAt i ↔ j = i ∧ r.path = "" := by
  unfold defectsAt
  by_cases hp : r.path = "" <;> by_cases hm : r.methods = some [] <;> simp [hp, hm]

theorem emptyMethods_mem_defectsAt {j : Nat} :
    .emptyMethods j ∈ r.defectsAt i ↔ j = i ∧ r.methods = some [] := by
  unfold defectsAt
  by_cases hp : r.path = "" <;> by_cases hm : r.methods = some [] <;> simp [hp, hm]

theorem index_of_mem_defectsAt (h : d ∈ r.defectsAt i) : d.index = i := by
  cases d with
  | emptyPath j => exact (emptyPath_mem_defectsAt.1 h).1
  | emptyMethods j => exact (emptyMethods_mem_defectsAt.1 h).1

theorem pairwise_defectsAt (r : Route) (i : Nat) : (r.defectsAt i).Pairwise Defect.Before := by
  unfold defectsAt
  by_cases hp : r.path = "" <;> by_cases hm : r.methods = some [] <;> simp [hp, hm, Defect.Before.path]

theorem defectsAt_raise (r : Route) (i n : Nat) :
    r.defectsAt (i + n) = (r.defectsAt i).map (Defect.raise n) := by
  unfold defectsAt
  by_cases hp : r.path = "" <;> by_cases hm : r.methods = some [] <;> simp [hp, hm, Defect.raise]

end

/-! ## Lists of routes -/

section
variable {i : Nat} {d : Defect}

theorem mem_defectsFrom {routes : List Route} :
    d ∈ defectsFrom i routes ↔ ∃ (k : Nat) (r : Route), routes[k]? = some r ∧ d ∈ r.defectsAt (i + k) := by
  induction routes generalizing i with
  | nil => simp [defectsFrom]
  | cons r routes ih =>
    rw [defectsFrom, List.mem_append, ih]
    constructor
    · rintro (h | ⟨k, s, hs, h⟩)
      · exact ⟨0, r, rfl, h⟩
      · refine ⟨k + 1, s, hs, ?_⟩
        rwa [Nat.add_assoc, Nat.add_comm 1] at h
    · rintro ⟨k, s, hs, h⟩
      cases k with
      | zero =>
        obtain rfl : r = s := by simpa using hs
        exact Or.inl h
      | succ k =>
        refine Or.inr ⟨k, s, hs, ?_⟩
        rwa [Nat.add_assoc, Nat.add_comm 1]

theorem le_index_of_mem_defectsFrom {routes : List Route} (h : d ∈ defectsFrom i routes) :
    i ≤ d.index := by
  obtain ⟨k, r, _, hd⟩ := mem_defectsFrom.1 h
  have := index_of_mem_defectsAt hd
  omega

theorem pairwise_defectsFrom (i : Nat) (routes : List Route) :
    (defectsFrom i routes).Pairwise Defect.Before := by
  induction routes generalizing i with
  | nil => simp [defectsFrom]
  | cons r routes ih =>
    rw [defectsFrom, List.pairwise_append]
    refine ⟨pairwise_defectsAt r i, ih (i + 1), fun d hd e he => ?_⟩
    -- What follows is about later routes.
    have hd := index_of_mem_defectsAt hd
    have he := le_index_of_mem_defectsFrom he
    apply Defect.Before.earlier
    omega

theorem defectsFrom_append (i : Nat) (a b : List Route) :
    defectsFrom i (a ++ b) = defectsFrom i a ++ defectsFrom (i + a.length) b := by
  induction a generalizing i with
  | nil => simp [defectsFrom]
  | cons r a ih =>
    have hshift : i + 1 + a.length = i + (a.length + 1) := by omega
    simp [defectsFrom, ih, hshift]

theorem defectsFrom_raise (i n : Nat) (routes : List Route) :
    defectsFrom (i + n) routes = (defectsFrom i routes).map (Defect.raise n) := by
  induction routes generalizing i with
  | nil => simp [defectsFrom]
  | cons r routes ih =>
    have hshift : i + n + 1 = i + 1 + n := by omega
    simp [defectsFrom, defectsAt_raise, hshift, ih]

end

theorem defects_append (a b : List Route) :
    defects (a ++ b) = defects a ++ (defects b).map (Defect.raise a.length) := by
  rw [defects, defects, defects, defectsFrom_append, defectsFrom_raise]

/-! ## Reports -/

/-- The list reports the defects of the routes: all of them and no others, each once and in order. -/
structure Reports (routes : List Route) (found : List Defect) : Prop where
  paths : ∀ i, .emptyPath i ∈ found ↔ ∃ r, routes[i]? = some r ∧ r.path = ""
  methods : ∀ i, .emptyMethods i ∈ found ↔ ∃ r, routes[i]? = some r ∧ r.methods = some []
  once : found.Nodup
  ordered : found.Pairwise Defect.Before

theorem reports_defects (routes : List Route) : Reports routes (defects routes) where
  paths i := by simp [defects, mem_defectsFrom, emptyPath_mem_defectsAt]
  methods i := by simp [defects, mem_defectsFrom, emptyMethods_mem_defectsAt]
  once := Defect.nodup_of_before (pairwise_defectsFrom 0 routes)
  ordered := pairwise_defectsFrom 0 routes

theorem reports_iff {routes : List Route} {found : List Defect} :
    Reports routes found ↔ found = defects routes := by
  have hall := reports_defects routes
  constructor
  · intro h
    apply Defect.eq_of_before h.ordered hall.ordered
    intro d
    cases d with
    | emptyPath i => rw [h.paths, hall.paths]
    | emptyMethods i => rw [h.methods, hall.methods]
  · rintro rfl
    exact hall

/-- **Defects**: routes have none exactly if every path has characters and no list of methods is
there without methods. Otherwise all of them are reported, each once and in order, and this is the
only list that does so. Of two lists in a row, the defects of the second follow those of the first,
with positions raised by its length. An artifact is refused for this list, or accepted if there are
no defects. -/
theorem defects_exact :
    (∀ routes, defects routes = [] ↔ ∀ r ∈ routes, r.path ≠ "" ∧ r.methods ≠ some []) ∧
    (∀ routes found, Reports routes found ↔ found = defects routes) ∧
    (∀ a b, defects (a ++ b) = defects a ++ (defects b).map (Defect.raise a.length)) ∧
    ∀ text routes, Artifact.readRoutes text.toList = .ok routes →
      (Artifact.decode text = .ok routes ↔ ∀ r ∈ routes, r.path ≠ "" ∧ r.methods ≠ some []) ∧
      ∀ found, Artifact.decode text = .error (.defective found) ↔
        found ≠ [] ∧ Reports routes found := by
  have hsound : ∀ routes, defects routes = [] ↔ ∀ r ∈ routes, r.path ≠ "" ∧ r.methods ≠ some [] := by
    intro routes
    rw [defects_eq_nil_iff]
    exact forall₂_congr fun r _ => ⟨fun h => ⟨h.path, h.methods⟩, fun h => ⟨h.1, h.2⟩⟩
  refine ⟨hsound, fun routes found => reports_iff, defects_append, fun text routes hread => ?_⟩
  rw [Artifact.decode_of_readRoutes hread, ← hsound]
  by_cases hnil : defects routes = []
  · simp [hnil, reports_iff]
  · simp only [hnil, if_false, reports_iff]
    refine ⟨by simp, fun found => ?_⟩
    constructor
    · intro h
      obtain rfl := Artifact.Failure.defective.inj (Except.error.inj h)
      exact ⟨hnil, rfl⟩
    · rintro ⟨_, rfl⟩
      rfl

/-- A route with both defects, one with none, and one without methods: read after another list, they
keep their order and their positions go on. -/
theorem defects_exact_both :
    Artifact.decode "[[\"\",[]],[\"/a\"],[\"/b\",[]]]" =
        .error (.defective [.emptyPath 0, .emptyMethods 0, .emptyMethods 2]) ∧
      Reports [⟨"", some [], none⟩, ⟨"/a", none, none⟩, ⟨"/b", some [], none⟩]
        [.emptyPath 0, .emptyMethods 0, .emptyMethods 2] ∧
      defects ([⟨"", none, none⟩] ++ [⟨"/a", none, none⟩, ⟨"", some [], none⟩]) =
        [.emptyPath 0, .emptyPath 2, .emptyMethods 2] := by
  obtain ⟨-, hreports, happend, hdecode⟩ := defects_exact
  have hread : Artifact.readRoutes "[[\"\",[]],[\"/a\"],[\"/b\",[]]]".toList =
      .ok [⟨"", some [], none⟩, ⟨"/a", none, none⟩, ⟨"/b", some [], none⟩] := by rfl
  have hfound : Reports [⟨"", some [], none⟩, ⟨"/a", none, none⟩, ⟨"/b", some [], none⟩]
      [.emptyPath 0, .emptyMethods 0, .emptyMethods 2] := (hreports _ _).2 (by decide)
  refine ⟨((hdecode _ _ hread).2 _).2 ⟨by simp, hfound⟩, hfound, ?_⟩
  rw [happend]
  decide

end RouteBook.Route
