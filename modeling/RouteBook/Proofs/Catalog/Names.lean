import Mathlib
import RouteBook.Proofs.Pairs
import RouteBook.Resolution

/-!
# The names of a catalog

The names that a strict catalog refuses are found by counting backwards. There are none exactly
when no two routes share a name (`repeatedNames_ne_nil_iff`). A catalog has each name once, however
often it is declared (`length_names_ofRoutes`), and a name stands for the path of the last route that
has it (`pathOf?_ofRoutes`). Where no two routes share a name, that is the path of each named route
(`pathOf?_of_distinct`).
-/

namespace RouteBook

/-- Two routes of the list, at different positions, have one name. -/
def ShareName (routes : List Route) : Prop :=
  ∃ (i j : Nat) (r s : Route) (name : String), i < j ∧ routes[i]? = some r ∧ routes[j]? = some s ∧
    r.name = some name ∧ s.name = some name

theorem secondOccurrences_eq_nil_iff (ns : List String) {earlier : List String}
    (he : earlier.Nodup) : secondOccurrences earlier ns = [] ↔ (ns.reverse ++ earlier).Nodup := by
  induction ns generalizing earlier with
  | nil => simp [secondOccurrences, he]
  | cons n ns ih =>
    have hsplit : (n :: ns).reverse ++ earlier = ns.reverse ++ n :: earlier := by simp
    rw [hsplit]
    by_cases hn : n ∈ earlier
    · -- The name is reported, and it stands twice in what has been seen.
      have hcount : earlier.count n = 1 := List.count_eq_one_of_mem he hn
      have hdup : ¬ (ns.reverse ++ n :: earlier).Nodup := fun h =>
        (List.nodup_cons.1 (List.nodup_append.1 h).2.1).1 hn
      simp [secondOccurrences, hcount, hdup]
    · have hcount : earlier.count n = 0 := List.count_eq_zero.2 hn
      rw [← ih (List.nodup_cons.2 ⟨hn, he⟩)]
      simp [secondOccurrences, hcount]

theorem repeatedNames_eq_nil_iff (routes : List Route) :
    repeatedNames routes = [] ↔ (namesOf routes).Nodup := by
  rw [repeatedNames, secondOccurrences_eq_nil_iff _ List.nodup_nil, List.append_nil, List.nodup_reverse]

theorem nodup_namesOf_iff (routes : List Route) : (namesOf routes).Nodup ↔ ¬ ShareName routes := by
  unfold namesOf List.Nodup
  rw [List.pairwise_filterMap, List.pairwise_iff_getElem]
  constructor
  · rintro h ⟨i, j, r, s, name, hij, hi, hj, hr, hs⟩
    obtain ⟨hi', rfl⟩ := List.getElem?_eq_some_iff.1 hi
    obtain ⟨hj', rfl⟩ := List.getElem?_eq_some_iff.1 hj
    exact h i j hi' hj' hij name hr name hs rfl
  · rintro h i j hi hj hij name hr name' hs rfl
    exact h ⟨i, j, _, _, name, hij, List.getElem?_eq_getElem hi, List.getElem?_eq_getElem hj, hr, hs⟩

/-- **Refusal**: a strict catalog refuses routes exactly when two of them share a name. -/
theorem repeatedNames_ne_nil_iff (routes : List Route) :
    repeatedNames routes ≠ [] ↔ ShareName routes := by
  rw [ne_eq, repeatedNames_eq_nil_iff, nodup_namesOf_iff, not_not]

/-! ## The names of a catalog -/

theorem NamedPaths.keys_add (paths : NamedPaths) (r : Route) :
    (paths.add r).map Prod.fst = match r.name with
      | none => paths.map Prod.fst
      | some name =>
        if name ∈ paths.map Prod.fst then paths.map Prod.fst else paths.map Prod.fst ++ [name] := by
  unfold add
  cases r.name with
  | none => rfl
  | some name => exact Pairs.keys_put paths name r.path

/-- One more route: its name is there from now on, and every name stays single. -/
theorem NamedPaths.nodup_keys_add {paths : NamedPaths} (h : (paths.map Prod.fst).Nodup) (r : Route) :
    ((paths.add r).map Prod.fst).Nodup ∧
      ∀ n, n ∈ (paths.add r).map Prod.fst ↔ n ∈ paths.map Prod.fst ∨ r.name = some n := by
  unfold add
  cases hr : r.name with
  | none => simpa using h
  | some name =>
    refine ⟨Pairs.nodup_keys_put h name r.path, fun n => ?_⟩
    rw [Pairs.mem_keys_put, Option.some.injEq, eq_comm (a := n)]

theorem NamedPaths.nodup_keys_foldl {paths : NamedPaths} (h : (paths.map Prod.fst).Nodup)
    (routes : List Route) :
    ((routes.foldl add paths).map Prod.fst).Nodup ∧
      ∀ n, n ∈ (routes.foldl add paths).map Prod.fst ↔ n ∈ paths.map Prod.fst ∨ n ∈ namesOf routes := by
  induction routes generalizing paths with
  | nil => simpa [namesOf] using h
  | cons r rs ih =>
    obtain ⟨hadd, hmem⟩ := nodup_keys_add h r
    obtain ⟨hnodup, hfold⟩ := ih hadd
    refine ⟨hnodup, fun n => ?_⟩
    have hnames : n ∈ namesOf (r :: rs) ↔ r.name = some n ∨ n ∈ namesOf rs := by
      simp [namesOf]
    rw [List.foldl_cons, hfold, hmem, hnames, or_assoc]

theorem names_ofRoutes (routes : List Route) : (Catalog.ofRoutes routes).names.Nodup ∧
    ∀ n, n ∈ (Catalog.ofRoutes routes).names ↔ n ∈ namesOf routes := by
  obtain ⟨hnodup, hmem⟩ := @NamedPaths.nodup_keys_foldl [] List.nodup_nil routes
  refine ⟨hnodup, fun n => (hmem n).trans ?_⟩
  simp

/-- A catalog has as many names as its routes have different ones. -/
theorem length_names_ofRoutes (routes : List Route) :
    (Catalog.ofRoutes routes).names.length = (namesOf routes).toFinset.card := by
  obtain ⟨hnodup, hmem⟩ := names_ofRoutes routes
  have hset : (Catalog.ofRoutes routes).names.toFinset = (namesOf routes).toFinset := by
    ext n
    rw [List.mem_toFinset, List.mem_toFinset, hmem]
  rw [← hset, List.toFinset_card_of_nodup hnodup]

/-! ## The path of a name -/

theorem NamedPaths.lookup_add (paths : NamedPaths) (r : Route) (name : String) :
    (paths.add r).lookup name = if r.name = some name then some r.path else paths.lookup name := by
  unfold add
  cases hr : r.name with
  | none => simp
  | some n =>
    rw [Pairs.lookup_put]
    by_cases h : name = n
    · simp [h]
    · have h' : ¬ n = name := fun e => h e.symm
      simp [h, h']

/-- The routes of a list that have the name. -/
def routesNamed (routes : List Route) (name : String) : List Route :=
  routes.filter fun r => r.name = some name

theorem mem_routesNamed {routes : List Route} {name : String} {r : Route} :
    r ∈ routesNamed routes name ↔ r ∈ routes ∧ r.name = some name := by
  simp [routesNamed]

theorem NamedPaths.lookup_foldl (paths : NamedPaths) (routes : List Route) (name : String) :
    (routes.foldl add paths).lookup name =
      ((routesNamed routes name).getLast?.map Route.path).or (paths.lookup name) := by
  induction routes generalizing paths with
  | nil => rfl
  | cons r rs ih =>
    rw [List.foldl_cons, ih, lookup_add]
    by_cases h : r.name = some name
    · have hcons : routesNamed (r :: rs) name = r :: routesNamed rs name := by
        simp [routesNamed, h]
      rw [hcons, if_pos h, List.getLast?_cons]
      cases (routesNamed rs name).getLast? <;> rfl
    · have hcons : routesNamed (r :: rs) name = routesNamed rs name := by
        simp [routesNamed, h]
      rw [hcons, if_neg h]

/-- **The last one wins**: a name stands for the path of the last route that has it. -/
theorem pathOf?_ofRoutes (routes : List Route) (name : String) :
    (Catalog.ofRoutes routes).pathOf? name = (routesNamed routes name).getLast?.map Route.path := by
  rw [Catalog.pathOf?, Catalog.ofRoutes, NamedPaths.lookup_foldl]
  exact Option.or_none

theorem eq_of_not_shareName {routes : List Route} (h : ¬ ShareName routes) {r s : Route}
    {name : String} (hr : r ∈ routesNamed routes name) (hs : s ∈ routesNamed routes name) : r = s := by
  obtain ⟨hr, hrn⟩ := mem_routesNamed.1 hr
  obtain ⟨hs, hsn⟩ := mem_routesNamed.1 hs
  obtain ⟨i, hi⟩ := List.mem_iff_getElem?.1 hr
  obtain ⟨j, hj⟩ := List.mem_iff_getElem?.1 hs
  rcases lt_trichotomy i j with hij | rfl | hji
  · exact absurd ⟨i, j, r, s, name, hij, hi, hj, hrn, hsn⟩ h
  · exact Option.some.inj (hi.symm.trans hj)
  · exact absurd ⟨j, i, s, r, name, hji, hj, hi, hsn, hrn⟩ h

theorem pathOf?_of_distinct {routes : List Route} (h : ¬ ShareName routes) {r : Route} {name : String}
    (hr : r ∈ routes) (hn : r.name = some name) :
    (Catalog.ofRoutes routes).pathOf? name = some r.path := by
  have hmem : r ∈ routesNamed routes name := mem_routesNamed.2 ⟨hr, hn⟩
  rw [pathOf?_ofRoutes, List.getLast?_eq_some_getLast (List.ne_nil_of_mem hmem), Option.map_some,
    eq_of_not_shareName h (List.getLast_mem _) hmem]

theorem resolve_of_pathOf? {catalog : Catalog} {name path : String}
    (h : catalog.pathOf? name = some path) : catalog.resolve name none = .ok path := by
  rw [Catalog.resolve, h]
  rfl

end RouteBook
