import RouteBook.Proofs.Artifact.Loading
import RouteBook.Proofs.Artifact.Saved
import RouteBook.Proofs.Catalog.Redefinitions

/-!
# Strict catalogs

A strict catalog refuses routes that share a name, and says which names are shared: each once, in
the order of the second routes that have them (`SecondAt`). What it accepts is the catalog that would
be made anyway, without a redefinition. So an artifact is read strictly as it is read leniently, but
for shared names. Main statement: `strict_exact`.
-/

namespace RouteBook

/-! ## Second occurrences -/

theorem count_namesOf (routes : List Route) (name : String) :
    (namesOf routes).count name = (routesNamed routes name).length := by
  induction routes with
  | nil => rfl
  | cons r routes ih =>
    unfold namesOf routesNamed at ih ⊢
    cases hr : r.name with
    | none => simp [hr, ih]
    | some n => by_cases h : n = name <;> simp [hr, h, ih]

theorem secondOccurrences_append (earlier a b : List String) :
    secondOccurrences earlier (a ++ b) =
      secondOccurrences earlier a ++ secondOccurrences (a.reverse ++ earlier) b := by
  induction a generalizing earlier with
  | nil => rfl
  | cons n a ih =>
    simp only [List.cons_append, secondOccurrences, ih, List.reverse_cons, List.append_assoc,
      List.nil_append]
    split <;> simp

/-- The name of a route, if one of the routes before it has it, and only one. -/
def secondName? (routes : List Route) (r : Route) : Option String :=
  r.name.filter fun name => (routesNamed routes name).length = 1

theorem secondName?_eq_some_iff {routes : List Route} {r : Route} {name : String} :
    secondName? routes r = some name ↔
      r.name = some name ∧ (routesNamed routes name).length = 1 := by
  simp [secondName?, Option.filter_eq_some_iff]

/-- A route at the end repeats its name, if it is the second to have it. -/
theorem repeatedNames_append_singleton (routes : List Route) (r : Route) :
    repeatedNames (routes ++ [r]) = repeatedNames routes ++ (secondName? routes r).toList := by
  have hnames : namesOf (routes ++ [r]) = namesOf routes ++ r.name.toList := by
    cases hr : r.name <;> simp [namesOf, hr]
  rw [repeatedNames, hnames, secondOccurrences_append, ← repeatedNames]
  cases hr : r.name with
  | none => simp [secondName?, hr, secondOccurrences]
  | some name =>
    simp only [Option.toList_some, List.append_nil, secondOccurrences, List.count_reverse,
      count_namesOf, secondName?, hr]
    by_cases h : (routesNamed routes name).length = 1 <;> simp [h, Option.filter]

/-- The route at position `i` is the second that has the name. -/
def SecondAt (routes : List Route) (i : Nat) (name : String) : Prop :=
  ∃ r, routes[i]? = some r ∧ r.name = some name ∧ (routesNamed (routes.take i) name).length = 1

theorem entryAt_secondName?_iff {routes : List Route} {i : Nat} {name : String} :
    EntryAt secondName? routes i name ↔ SecondAt routes i name := by
  simp only [EntryAt, SecondAt, secondName?_eq_some_iff]

theorem inOrder_repeatedNames (routes : List Route) :
    InOrder (fun i => ∃ name, SecondAt routes i name) (SecondAt routes) (repeatedNames routes) := by
  refine (inOrder_of_append rfl repeatedNames_append_singleton routes).congr (fun i => ?_) ?_
  · simp only [entryAt_secondName?_iff]
  · exact fun i name => entryAt_secondName?_iff.1

/-- Every name that is repeated is listed once. -/
theorem mem_repeatedNames (routes : List Route) : (repeatedNames routes).Nodup ∧
    ∀ name, name ∈ repeatedNames routes ↔ 2 ≤ (routesNamed routes name).length := by
  induction routes using List.reverseRecOn with
  | nil => simp [repeatedNames, namesOf, secondOccurrences, routesNamed]
  | append_singleton routes r ih =>
    obtain ⟨hnodup, hmem⟩ := ih
    have hlength : ∀ name, (routesNamed (routes ++ [r]) name).length =
        (routesNamed routes name).length + if r.name = some name then 1 else 0 := by
      intro name
      by_cases h : r.name = some name <;> simp [routesNamed, h]
    rw [repeatedNames_append_singleton]
    constructor
    · rw [List.nodup_append]
      refine ⟨hnodup, ?_, ?_⟩
      · cases secondName? routes r <;> simp
      · intro name hname name' hname' heq
        subst heq
        have hone := (secondName?_eq_some_iff.1 (Option.mem_toList.1 hname')).2
        have htwo := (hmem name).1 hname
        omega
    · intro name
      rw [List.mem_append, hmem, Option.mem_toList, secondName?_eq_some_iff, hlength]
      by_cases h : r.name = some name
      · simp only [h, true_and, if_true]
        omega
      · simp [h]

/-! ## What is accepted -/

theorem redefinitions_of_distinct {routes : List Route} (h : ¬ ShareName routes) :
    redefinitions routes = [] := by
  have hnodup := (nodup_namesOf_iff routes).2 h
  have hnamed : (namesOf routes).length = routes.countP (·.name.isSome) :=
    List.length_filterMap_eq_countP
  have hadd := length_redefinitions_add routes
  rw [length_names_ofRoutes, List.toFinset_card_of_nodup hnodup, hnamed] at hadd
  exact List.length_eq_zero_iff.1 (by omega)

theorem ofDistinct_of_shared {routes : List Route} (h : ShareName routes) :
    Catalog.ofDistinct routes = .error ⟨repeatedNames routes⟩ :=
  Artifact.build_strict_of_shared h

theorem ofDistinct_of_distinct {routes : List Route} (h : ¬ ShareName routes) :
    Catalog.ofDistinct routes = .ok (Catalog.ofRoutes routes) := by
  have hstrict : true = true → ¬ ShareName routes := fun _ => h
  exact Artifact.build_of_distinct hstrict

/-! ## Artifacts that are read strictly -/

namespace Artifact
variable {tree : FileTree} {path : String}

theorem loadCatalog_lenient {routes : List Route} (h : load tree path = .ok routes) :
    loadCatalog tree path false = .ok (Catalog.ofRoutes routes) := by
  rw [loadCatalog_of_load h]
  rfl

theorem loadCatalog_strict_of_shared {routes : List Route} (h : load tree path = .ok routes)
    (hshared : ShareName routes) :
    loadCatalog tree path true = .error (.repeated ⟨repeatedNames routes⟩) := by
  rw [loadCatalog_of_load h, build_strict_of_shared hshared]
  rfl

/-- Strictly and leniently the same is read, unless names are shared. -/
theorem loadCatalog_strict_of_not_shared
    (h : ∀ routes, load tree path = .ok routes → ¬ ShareName routes) :
    loadCatalog tree path true = loadCatalog tree path false := by
  cases hload : load tree path with
  | error failure => rw [loadCatalog_of_load_error hload, loadCatalog_of_load_error hload]
  | ok routes =>
    have hstrict : true = true → ¬ ShareName routes := fun _ => h routes hload
    rw [loadCatalog_lenient hload, loadCatalog_of_load hload, build_of_distinct hstrict]
    rfl

theorem loadCatalog_repeated_iff :
    (∃ names, loadCatalog tree path true = .error (.repeated names)) ↔
      ∃ routes, load tree path = .ok routes ∧ ShareName routes := by
  constructor
  · rintro ⟨names, h⟩
    cases loadCatalog_eq_error_iff.1 h with
    | repeated hread htext hjson hsound _ hshared =>
      refine ⟨_, ?_, hshared⟩
      rw [load_of_json hread htext hjson, if_pos hsound]
  · rintro ⟨routes, hload, hshared⟩
    exact ⟨_, loadCatalog_strict_of_shared hload hshared⟩

end Artifact

/-- **Strict catalogs**: routes are refused exactly if two share a name, and the refusal lists the
names that two routes or more have, each once, in the order of the second routes that have them. What
is accepted is the catalog that is made leniently, nothing is redefined, and every named route is found
by its name. An artifact read strictly gives what it gives leniently, or the refusal, and this exactly
if its routes share a name; the events of a strict catalog say that it was loaded and no more. -/
theorem strict_exact :
    (∀ routes, ((∃ refusal, Catalog.ofDistinct routes = .error refusal) ↔ ShareName routes) ∧
      (∀ refusal, Catalog.ofDistinct routes = .error refusal → refusal.names.Nodup ∧
        (∀ name, name ∈ refusal.names ↔ 2 ≤ (routesNamed routes name).length) ∧
        InOrder (fun i => ∃ name, SecondAt routes i name) (SecondAt routes) refusal.names) ∧
      ∀ catalog, Catalog.ofDistinct routes = .ok catalog → catalog = Catalog.ofRoutes routes ∧
        redefinitions routes = [] ∧
        ∀ r ∈ routes, ∀ name, r.name = some name → catalog.pathOf? name = some r.path) ∧
    ∀ tree path,
      (Artifact.loadCatalog tree path true = Artifact.loadCatalog tree path false ∨
        ∃ names catalog, Artifact.loadCatalog tree path true = .error (.repeated names) ∧
          Artifact.loadCatalog tree path false = .ok catalog) ∧
      ((∃ names, Artifact.loadCatalog tree path true = .error (.repeated names)) ↔
        ∃ routes, Artifact.load tree path = .ok routes ∧ ShareName routes) ∧
      ∀ catalog, Artifact.loadCatalog tree path true = .ok catalog →
        (Catalog.load tree path true).2 = [.artifactLoaded path catalog.size] := by
  refine ⟨fun routes => ?_, fun tree path => ⟨?_, Artifact.loadCatalog_repeated_iff, ?_⟩⟩
  · by_cases hshared : ShareName routes
    · rw [ofDistinct_of_shared hshared]
      refine ⟨⟨fun _ => hshared, fun _ => ⟨_, rfl⟩⟩, ?_, by simp⟩
      intro refusal h
      obtain rfl := Except.error.inj h
      obtain ⟨hnodup, hmem⟩ := mem_repeatedNames routes
      exact ⟨hnodup, hmem, inOrder_repeatedNames routes⟩
    · rw [ofDistinct_of_distinct hshared]
      refine ⟨⟨by simp, fun h => absurd h hshared⟩, by simp, ?_⟩
      intro catalog h
      obtain rfl := Except.ok.inj h
      exact ⟨rfl, redefinitions_of_distinct hshared, fun r hr name => pathOf?_of_distinct hshared hr⟩
  · by_cases hshared : ∃ routes, Artifact.load tree path = .ok routes ∧ ShareName routes
    · obtain ⟨routes, hload, hshared⟩ := hshared
      exact Or.inr ⟨_, _, Artifact.loadCatalog_strict_of_shared hload hshared,
        Artifact.loadCatalog_lenient hload⟩
    · refine Or.inl (Artifact.loadCatalog_strict_of_not_shared fun routes hload h => ?_)
      exact hshared ⟨routes, hload, h⟩
  · intro catalog h
    obtain ⟨routes, hloads, rfl⟩ := Artifact.loadCatalog_eq_ok_iff.1 h
    have hnone : redefinitions (Catalog.ofRoutes routes).routes = [] := by
      cases hloads with
      | intro _ _ _ _ hnames => exact redefinitions_of_distinct (hnames rfl)
    simp [Catalog.load, h, Catalog.loadEvents, hnone]

/-- Two names are repeated; the one that comes first is repeated last. -/
def crossed : List Route :=
  [{ path := "/1", name := "a" }, { path := "/2", name := "b" }, { path := "/3" },
    { path := "/4", name := "b" }, { path := "/5", name := "a" }, { path := "/6", name := "a" }]

/-- A file with one name twice, and a file with two names. -/
def namedFiles : FileTree :=
  { entries := [
      (["twice"], .file (Text.Utf8.encode "[[\"/a\",null,\"n\"],[\"/b\",null,\"n\"]]".toList)),
      (["once"], .file (Text.Utf8.encode "[[\"/a\",null,\"n\"],[\"/b\",null,\"m\"]]".toList))] }

theorem strict_exact_crossed :
    (∃ refusal : RepeatedNames, Catalog.ofDistinct crossed = .error refusal ∧
      refusal.names = ["b", "a"] ∧ refusal.names.Nodup ∧
      InOrder (fun i => ∃ name, SecondAt crossed i name) (SecondAt crossed) refusal.names) ∧
    (∃ catalog, Catalog.ofDistinct (crossed.take 3) = .ok catalog ∧ catalog.pathOf? "b" = some "/2") ∧
    (∃ names, Artifact.loadCatalog namedFiles "twice" true = .error (.repeated names)) ∧
    ∃ catalog, Artifact.loadCatalog namedFiles "once" true = .ok catalog ∧
      (Catalog.load namedFiles "once" true).2 = [.artifactLoaded "once" 2] := by
  obtain ⟨hnames, hfiles⟩ := strict_exact
  have hcrossed : Catalog.ofDistinct crossed = .error ⟨["b", "a"]⟩ := by decide
  have hdistinct : Catalog.ofDistinct (crossed.take 3) = .ok (Catalog.ofRoutes (crossed.take 3)) := by
    decide
  have htwice : Artifact.load namedFiles "twice" =
      .ok [{ path := "/a", name := "n" }, { path := "/b", name := "n" }] := by rfl
  have honce : Artifact.loadCatalog namedFiles "once" true =
      .ok (Catalog.ofRoutes [{ path := "/a", name := "n" }, { path := "/b", name := "m" }]) := by rfl
  obtain ⟨hnodup, _, horder⟩ := (hnames crossed).2.1 _ hcrossed
  refine ⟨⟨_, hcrossed, rfl, hnodup, horder⟩, ⟨_, hdistinct, ?_⟩, ?_, _, honce, ?_⟩
  · exact ((hnames (crossed.take 3)).2.2 _ hdistinct).2.2 { path := "/2", name := "b" } (by decide) "b" rfl
  · exact (hfiles namedFiles "twice").2.1.2 ⟨_, htwice, 0, 1, _, _, "n", by decide, rfl, rfl, rfl, rfl⟩
  · exact (hfiles namedFiles "once").2.2 _ honce

end RouteBook
