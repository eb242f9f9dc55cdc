import RouteBook.Proofs.Catalog.Names
import RouteBook.Session

/-!
# What a catalog keeps, and what is reported of it

A catalog lists its routes as they came, and a name leads to the path of the last route that has it
(`LastNamed`). A route whose name an earlier one had is reported, with the path that the name had
until then: that of the nearest earlier route of the name (`RedefinesAt`). Both follow from what one
more route at the end changes (`redefinitions_append_singleton`, `inOrder_of_append`). Main statement:
`made_catalog_exact`.
-/

namespace RouteBook

/-! ## Entries in the order of positions -/

section
variable {α : Type}

/-- The list has one entry for each position that is wanted, in order. -/
def InOrder (wanted : Nat → Prop) (entry : Nat → α → Prop) (xs : List α) : Prop :=
  ∃ positions : List Nat, positions.Pairwise (· < ·) ∧ (∀ i, i ∈ positions ↔ wanted i) ∧
    List.Forall₂ entry positions xs

theorem InOrder.congr {wanted wanted' : Nat → Prop} {entry entry' : Nat → α → Prop} {xs : List α}
    (h : InOrder wanted entry xs) (hwanted : ∀ i, wanted' i ↔ wanted i)
    (hentry : ∀ i x, entry i x → entry' i x) : InOrder wanted' entry' xs := by
  obtain ⟨positions, hsorted, hmem, hall⟩ := h
  exact ⟨positions, hsorted, fun i => (hmem i).trans (hwanted i).symm, hall.imp hentry⟩

/-- The entry that the route at position `i` makes, given the routes before it. -/
def EntryAt (make : List Route → Route → Option α) (routes : List Route) (i : Nat) (x : α) : Prop :=
  ∃ r, routes[i]? = some r ∧ make (routes.take i) r = some x

section
variable {make : List Route → Route → Option α} {routes : List Route} {r : Route} {i : Nat} {x : α}

theorem EntryAt.lt (h : EntryAt make routes i x) : i < routes.length := by
  obtain ⟨_, hi, _⟩ := h
  exact (List.getElem?_eq_some_iff.1 hi).1

/-- Positions and what stands before them are the same with a route at the end. -/
theorem entryAt_append_iff : EntryAt make (routes ++ [r]) i x ↔
    EntryAt make routes i x ∨ i = routes.length ∧ make routes r = some x := by
  by_cases hi : i < routes.length
  · have hget : (routes ++ [r])[i]? = routes[i]? := List.getElem?_append_left hi
    have htake : (routes ++ [r]).take i = routes.take i :=
      List.take_append_of_le_length (Nat.le_of_lt hi)
    simp [EntryAt, hget, htake, Nat.ne_of_lt hi]
  · have hno : ¬ EntryAt make routes i x := fun h => hi h.lt
    by_cases heq : i = routes.length
    · subst heq
      simp [EntryAt]
    · have hno' : ¬ EntryAt make (routes ++ [r]) i x := by
        intro h
        have hlt := h.lt
        rw [List.length_append, List.length_singleton] at hlt
        omega
      simp [hno, hno', heq]

/-- A list to which each further route adds the entry it makes has the entries of all positions. -/
theorem inOrder_of_append {list : List Route → List α} (hnil : list [] = [])
    (happend : ∀ routes r, list (routes ++ [r]) = list routes ++ (make routes r).toList)
    (routes : List Route) :
    InOrder (fun i => ∃ x, EntryAt make routes i x) (EntryAt make routes) (list routes) := by
  induction routes using List.reverseRecOn with
  | nil => exact ⟨[], .nil, fun i => by simp [EntryAt], hnil ▸ .nil⟩
  | append_singleton routes r ih =>
    obtain ⟨positions, hsorted, hmem, hall⟩ := ih
    have hold : List.Forall₂ (EntryAt make (routes ++ [r])) positions (list routes) :=
      hall.imp fun i x hx => entryAt_append_iff.2 (Or.inl hx)
    rw [happend]
    cases hlast : make routes r with
    | none =>
      refine ⟨positions, hsorted, fun i => ?_, by simpa using hold⟩
      simp [hmem, entryAt_append_iff, hlast]
    | some x =>
      have hx : EntryAt make (routes ++ [r]) routes.length x :=
        entryAt_append_iff.2 (Or.inr ⟨rfl, hlast⟩)
      refine ⟨positions ++ [routes.length], ?_, fun i => ?_, List.rel_append hold (.cons hx .nil)⟩
      · rw [List.pairwise_append]
        refine ⟨hsorted, by simp, fun i hi j hj => ?_⟩
        obtain rfl := List.mem_singleton.1 hj
        obtain ⟨_, hentry⟩ := (hmem i).1 hi
        exact hentry.lt
      · simp [hmem, entryAt_append_iff, hlast, exists_or]

end

end

/-! ## The last route of a name -/

/-- The route has the name, and no later one does. -/
def LastNamed (routes : List Route) (name : String) (r : Route) : Prop :=
  ∃ before after, routes = before ++ r :: after ∧ r.name = some name ∧
    ∀ s ∈ after, s.name ≠ some name

theorem routesNamed_append (a b : List Route) (name : String) :
    routesNamed (a ++ b) name = routesNamed a name ++ routesNamed b name :=
  List.filter_append ..

theorem routesNamed_eq_nil_iff {routes : List Route} {name : String} :
    routesNamed routes name = [] ↔ ∀ r ∈ routes, r.name ≠ some name := by
  simp [routesNamed]

theorem lastNamed_iff {routes : List Route} {name : String} {r : Route} :
    LastNamed routes name r ↔ (routesNamed routes name).getLast? = some r := by
  constructor
  · rintro ⟨before, after, rfl, hr, hafter⟩
    have hcons : routesNamed (r :: after) name = [r] := by
      have hnone := routesNamed_eq_nil_iff.2 hafter
      rw [routesNamed] at hnone ⊢
      rw [List.filter_cons, if_pos (by simpa using hr), hnone]
    rw [routesNamed_append, hcons, List.getLast?_append_of_ne_nil _ (by simp)]
    rfl
  · intro h
    obtain ⟨others, hothers⟩ := List.getLast?_eq_some_iff.1 h
    obtain ⟨a, b, rfl, _, hb⟩ := List.filter_eq_append_iff.1 hothers
    obtain ⟨between, after, rfl, _, hr, hafter⟩ := List.filter_eq_cons_iff.1 hb
    refine ⟨a ++ between, after, by simp, by simpa using hr, ?_⟩
    exact routesNamed_eq_nil_iff.1 hafter

theorem exists_lastNamed_iff {routes : List Route} {name : String} :
    (∃ r, LastNamed routes name r) ↔ ∃ r ∈ routes, r.name = some name := by
  simp only [lastNamed_iff]
  rw [← Option.isSome_iff_exists, ← Option.ne_none_iff_isSome, ne_eq, List.getLast?_eq_none_iff,
    routesNamed_eq_nil_iff]
  push Not
  rfl

theorem pathOf?_eq_some_iff {routes : List Route} {name path : String} :
    (Catalog.ofRoutes routes).pathOf? name = some path ↔
      ∃ r, LastNamed routes name r ∧ r.path = path := by
  rw [pathOf?_ofRoutes, Option.map_eq_some_iff]
  simp only [lastNamed_iff]

theorem pathOf?_eq_none_iff {routes : List Route} {name : String} :
    (Catalog.ofRoutes routes).pathOf? name = none ↔ ∀ r ∈ routes, r.name ≠ some name := by
  rw [pathOf?_ofRoutes, Option.map_eq_none_iff, List.getLast?_eq_none_iff, routesNamed_eq_nil_iff]

/-! ## One route more -/

theorem redefinitionsFrom_append (paths : NamedPaths) (a b : List Route) :
    redefinitionsFrom paths (a ++ b) =
      redefinitionsFrom paths a ++ redefinitionsFrom (a.foldl NamedPaths.add paths) b := by
  induction a generalizing paths with
  | nil => rfl
  | cons r a ih => simp [redefinitionsFrom, ih]

/-- What a route at the end redefines, given the routes before it. -/
theorem redefinitions_append_singleton (routes : List Route) (r : Route) :
    redefinitions (routes ++ [r]) =
      redefinitions routes ++ (Redefinition.of? (Catalog.ofRoutes routes).paths r).toList := by
  rw [redefinitions, redefinitionsFrom_append]
  simp [redefinitionsFrom, redefinitions, Catalog.ofRoutes]

theorem of?_eq_some_iff {routes : List Route} {r : Route} {d : Redefinition} :
    Redefinition.of? (Catalog.ofRoutes routes).paths r = some d ↔
      ∃ s, r.name = some d.name ∧ LastNamed routes d.name s ∧ d.previous = s.path ∧
        d.path = r.path := by
  have hpath : ∀ name path, (Catalog.ofRoutes routes).paths.lookup name = some path ↔
      ∃ s, LastNamed routes name s ∧ s.path = path := fun _ _ => pathOf?_eq_some_iff
  simp only [Redefinition.of?, Option.bind_eq_bind, Option.bind_eq_some_iff, hpath]
  constructor
  · rintro ⟨name, hname, previous, ⟨s, hs, rfl⟩, h⟩
    obtain rfl := Option.some.inj h
    exact ⟨s, hname, hs, rfl, rfl⟩
  · rintro ⟨s, hname, hs, hprevious, hd⟩
    obtain ⟨name, previous, path⟩ := d
    obtain rfl : previous = s.path := hprevious
    obtain rfl : path = r.path := hd
    exact ⟨name, hname, s.path, ⟨s, hs, rfl⟩, rfl⟩

/-- The route at position `i` has a name that an earlier route has. -/
def Repeats (routes : List Route) (i : Nat) : Prop :=
  ∃ r name, routes[i]? = some r ∧ r.name = some name ∧ ∃ s ∈ routes.take i, s.name = some name

/-- The redefinition that the route at position `i` makes: it replaces the path of the nearest earlier
route of its name by its own. -/
def RedefinesAt (routes : List Route) (i : Nat) (d : Redefinition) : Prop :=
  ∃ r s, routes[i]? = some r ∧ r.name = some d.name ∧ LastNamed (routes.take i) d.name s ∧
    d.previous = s.path ∧ d.path = r.path

theorem of?_isSome_iff {routes : List Route} {r : Route} :
    (Redefinition.of? (Catalog.ofRoutes routes).paths r).isSome ↔
      ∃ name, r.name = some name ∧ ∃ s ∈ routes, s.name = some name := by
  rw [Option.isSome_iff_exists]
  simp only [of?_eq_some_iff]
  constructor
  · rintro ⟨d, s, hname, hs, -, -⟩
    exact ⟨d.name, hname, exists_lastNamed_iff.1 ⟨s, hs⟩⟩
  · rintro ⟨name, hname, hex⟩
    obtain ⟨s, hs⟩ := exists_lastNamed_iff.2 hex
    exact ⟨⟨name, s.path, r.path⟩, s, hname, hs, rfl, rfl⟩

/-- What is reported of a list of routes are its redefinitions, each at its position. -/
theorem inOrder_redefinitions (routes : List Route) :
    InOrder (Repeats routes) (RedefinesAt routes) (redefinitions routes) := by
  refine (inOrder_of_append rfl redefinitions_append_singleton routes).congr (fun i => ?_) ?_
  · constructor
    · rintro ⟨r, name, hr, hname, hex⟩
      obtain ⟨d, hd⟩ := Option.isSome_iff_exists.1 (of?_isSome_iff.2 ⟨name, hname, hex⟩)
      exact ⟨d, r, hr, hd⟩
    · rintro ⟨d, r, hr, hd⟩
      obtain ⟨name, hname, hex⟩ := of?_isSome_iff.1 (Option.isSome_iff_exists.2 ⟨d, hd⟩)
      exact ⟨r, name, hr, hname, hex⟩
  · rintro i d ⟨r, hr, hd⟩
    obtain ⟨s, hname, hs, hprevious, hpath⟩ := of?_eq_some_iff.1 hd
    exact ⟨r, s, hr, hname, hs, hprevious, hpath⟩

/-! ## How many names are repeated -/

theorem mem_names_iff {routes : List Route} {name : String} :
    name ∈ (Catalog.ofRoutes routes).names ↔ ∃ r ∈ routes, r.name = some name := by
  rw [(names_ofRoutes routes).2, namesOf, List.mem_filterMap]

/-- A route that has a name redefines it, or adds it to the names. -/
theorem length_redefinitions_add (routes : List Route) :
    (redefinitions routes).length + (Catalog.ofRoutes routes).names.length =
      routes.countP (·.name.isSome) := by
  induction routes using List.reverseRecOn with
  | nil => rfl
  | append_singleton routes r ih =>
    have hnames : (Catalog.ofRoutes (routes ++ [r])).names =
        ((Catalog.ofRoutes routes).paths.add r).map Prod.fst := by
      simp [Catalog.ofRoutes, Catalog.names]
    have hkeys : (Catalog.ofRoutes routes).paths.map Prod.fst = (Catalog.ofRoutes routes).names := rfl
    rw [redefinitions_append_singleton, hnames, NamedPaths.keys_add, hkeys, List.length_append,
      List.countP_append, ← ih]
    cases hr : r.name with
    | none => simp [Redefinition.of?, hr]
    | some name =>
      by_cases hm : name ∈ (Catalog.ofRoutes routes).names
      · obtain ⟨d, hd⟩ := Option.isSome_iff_exists.1 (of?_isSome_iff.2 ⟨name, hr, mem_names_iff.1 hm⟩)
        simp only [if_pos hm, hd]
        simp [hr]
        omega
      · have hnone : Redefinition.of? (Catalog.ofRoutes routes).paths r = none := by
          rw [← Option.not_isSome_iff_eq_none, of?_isSome_iff]
          rintro ⟨name', hname', hex⟩
          obtain rfl := Option.some.inj (hr.symm.trans hname')
          exact hm (mem_names_iff.2 hex)
        simp only [if_neg hm, hnone]
        simp [hr]
        omega

/-! ## Catalogs that are made -/

/-- Two catalogs that show the same: the same routes in the same order, and for every name the same
path. -/
def Catalog.ShowSame (a b : Catalog) : Prop :=
  a.routes = b.routes ∧ ∀ name, a.pathOf? name = b.pathOf? name

/-- **What is made of routes**: a catalog that lists them unchanged, in which a name leads to the path
of the last route that has it, and no other name leads anywhere. It has each name once, and is equal
to no catalog of other routes. What is reported are the routes whose name an earlier route has, in
order, each with the path that it replaces: with the different names they make up as many as there
are named routes. -/
theorem made_catalog_exact (routes : List Route) :
    (Session.makeCatalog routes).1.routes = routes ∧
    (∀ name path, (Session.makeCatalog routes).1.pathOf? name = some path ↔
      ∃ r, LastNamed routes name r ∧ r.path = path) ∧
    (∀ name, (Session.makeCatalog routes).1.pathOf? name = none ↔
      ∀ r ∈ routes, r.name ≠ some name) ∧
    (Session.makeCatalog routes).1.names.Nodup ∧
    (∀ name, name ∈ (Session.makeCatalog routes).1.names ↔ ∃ r ∈ routes, r.name = some name) ∧
    (∀ others, ((Session.makeCatalog routes).1 = (Session.makeCatalog others).1 ↔ routes = others) ∧
      ((Session.makeCatalog routes).1.ShowSame (Session.makeCatalog others).1 ↔ routes = others)) ∧
    (Session.makeCatalog routes).2.events = (redefinitions routes).map .redefined ∧
    (∀ event ∈ (Session.makeCatalog routes).2.events, event.level = .debug ∧
      ∃ d ∈ redefinitions routes, event.fields =
        [("name", .text d.name), ("previous", .text d.previous), ("path", .text d.path)]) ∧
    InOrder (Repeats routes) (RedefinesAt routes) (redefinitions routes) ∧
    (Session.makeCatalog routes).2.events.length + (namesOf routes).toFinset.card =
      routes.countP (·.name.isSome) := by
  have hevents : (Session.makeCatalog routes).2.events = (redefinitions routes).map .redefined := rfl
  refine ⟨rfl, fun name path => pathOf?_eq_some_iff, fun name => pathOf?_eq_none_iff,
    (names_ofRoutes routes).1, fun name => mem_names_iff, fun others => ⟨⟨?_, ?_⟩, ⟨?_, ?_⟩⟩, hevents,
    ?_, inOrder_redefinitions routes, ?_⟩
  · intro h
    exact congrArg Catalog.routes h
  · rintro rfl
    rfl
  · intro h
    exact h.1
  · rintro rfl
    exact ⟨rfl, fun _ => rfl⟩
  · intro event hevent
    rw [hevents] at hevent
    obtain ⟨d, hd, rfl⟩ := List.mem_map.1 hevent
    exact ⟨rfl, d, hd, rfl⟩
  · rw [hevents, List.length_map, ← length_redefinitions_add, length_names_ofRoutes]

/-- A name three times over, the empty one, and a route without a name. -/
def thrice : List Route :=
  [{ path := "/1", name := "" }, { path := "/2" }, { path := "/3", name := "" },
    { path := "/4", name := "" }]

theorem made_catalog_exact_thrice :
    (Session.makeCatalog thrice).1.pathOf? "" = some "/4" ∧
      (Session.makeCatalog thrice).2.events =
        [.redefined ⟨"", "/1", "/3"⟩, .redefined ⟨"", "/3", "/4"⟩] ∧
      (∀ event ∈ (Session.makeCatalog thrice).2.events, event.level = .debug) ∧
      InOrder (Repeats thrice) (RedefinesAt thrice) [⟨"", "/1", "/3"⟩, ⟨"", "/3", "/4"⟩] := by
  obtain ⟨-, hpath, -, -, -, -, hevents, hlevel, horder, -⟩ := made_catalog_exact thrice
  have hlast : LastNamed thrice "" { path := "/4", name := "" } :=
    ⟨thrice.take 3, [], rfl, rfl, by simp⟩
  have hredefinitions : redefinitions thrice = [⟨"", "/1", "/3"⟩, ⟨"", "/3", "/4"⟩] := by decide
  rw [hredefinitions] at hevents horder
  exact ⟨(hpath "" "/4").2 ⟨_, hlast, rfl⟩, hevents, fun event he => (hlevel event he).1, horder⟩

end RouteBook
