import RouteBook.Artifact.Decode
import RouteBook.Proofs.Json.Grammar

/-!
# The format of an artifact

Which values are artifacts, and of which routes, said of values and not of their texts. An element of
the list gives values as path, as methods and as name (`Element`), whether it is an object or a list,
and makes a route of them (`Element.Makes`) unless something is wrong with it (`Element.unfit_iff`).
Nothing else of an element matters, and null is as good as absent (`Alike.isRoute_iff`).
-/

namespace RouteBook.Artifact
open Json

/-! ## What an element gives -/

/-- The values that an object gives a key, in order. -/
def valuesAt (key : String) (members : List (String × Value)) : List Value :=
  members.filterMap fun m => if m.1 = key then some m.2 else none

@[simp] theorem valuesAt_append (key : String) (ms ms' : List (String × Value)) :
    valuesAt key (ms ++ ms') = valuesAt key ms ++ valuesAt key ms' :=
  List.filterMap_append

theorem valuesAt_self (key : String) (v : Value) : valuesAt key [(key, v)] = [v] := by
  simp [valuesAt]

theorem valuesAt_of_ne {key key' : String} (h : key' ≠ key) (v : Value) :
    valuesAt key [(key', v)] = [] := by
  simp [valuesAt, h]

/-- The values that an element of the list gives as path, as methods and as name. -/
structure Element where
  path : List Value
  methods : List Value
  name : List Value

/-- The values of an object, whatever other members it has. -/
def Element.ofMembers (ms : List (String × Value)) : Element :=
  { path := valuesAt "path" ms, methods := valuesAt "methods" ms, name := valuesAt "name" ms }

/-- The values of a list, by position. What stands after the third item is one name too many. -/
def Element.ofItems (items : List Value) : Element :=
  { path := items.take 1, methods := (items.drop 1).take 1, name := items.drop 2 }

/-- Objects and lists are elements. -/
def element? : Value → Option Element
  | .object ms => some (.ofMembers ms)
  | .list items => some (.ofItems items)
  | _ => none

/-! ## Of which kind a value is -/

section
variable {α : Type} {is : Value → α → Prop}

/-- The value is that string. -/
def IsString (v : Value) (s : String) : Prop := v = .string s

/-- The value is a list of items, each of the kind that is wanted. -/
def IsList (is : Value → α → Prop) (v : Value) (xs : List α) : Prop :=
  ∃ items, v = .list items ∧ List.Forall₂ is items xs

/-- The value is a list of those strings. -/
def IsStrings : Value → List String → Prop := IsList IsString

/-- There is no value, or null, or one value of the kind that is wanted. -/
inductive Given (is : Value → α → Prop) : List Value → Option α → Prop
  | absent : Given is [] none
  | null : Given is [.null] none
  | value {v : Value} {x : α} (h : is v x) : Given is [v] (some x)

theorem not_isString_null (s : String) : ¬ IsString .null s := by
  rintro ⟨⟩

theorem not_isList_null (xs : List α) : ¬ IsList is .null xs := by
  rintro ⟨items, h, -⟩
  cases h

theorem not_isStrings_null (ms : List String) : ¬ IsStrings .null ms := not_isList_null ms

theorem isString_unique : Relator.RightUnique IsString := by
  intro v s s' h h'
  cases h
  cases h'
  rfl

theorem isList_unique (h : Relator.RightUnique is) : Relator.RightUnique (IsList is) := by
  rintro v xs xs' ⟨items, rfl, hall⟩ ⟨items', heq, hall'⟩
  cases heq
  exact List.right_unique_forall₂' h hall hall'

/-- Null is not one of the values that are wanted, so a value is given in one way only. -/
theorem given_unique (h : Relator.RightUnique is) (hnull : ∀ x, ¬ is .null x) :
    Relator.RightUnique (Given is) := by
  intro vs o o' ho ho'
  cases ho with
  | absent => cases ho'; rfl
  | null =>
    cases ho' with
    | null => rfl
    | value h' => exact absurd h' (hnull _)
  | value hx =>
    cases ho' with
    | null => exact absurd hx (hnull _)
    | value hx' => rw [h hx hx']

/-- What is wrong where nothing is given: more than one value, or a value of another kind. -/
theorem forall_not_given_iff {vs : List Value} : (∀ o, ¬ Given is vs o) ↔
    2 ≤ vs.length ∨ ∃ v ∈ vs, v ≠ .null ∧ ∀ x, ¬ is v x := by
  constructor
  · intro h
    match vs, h with
    | [], h => exact absurd .absent (h none)
    | [v], h =>
      refine Or.inr ⟨v, by simp, ?_, fun x hx => h _ (.value hx)⟩
      rintro rfl
      exact h _ .null
    | _ :: _ :: vs, _ => exact Or.inl (by simp)
  · rintro (h | ⟨v, hv, hnull, h⟩) o ho
    · cases ho <;> simp at h
    · cases ho with
      | absent => cases hv
      | null => exact hnull (List.mem_singleton.1 hv)
      | value hx =>
        obtain rfl := List.mem_singleton.1 hv
        exact h _ hx

theorem given_nil_iff {o : Option α} : Given is [] o ↔ o = none := by
  constructor
  · rintro ⟨⟩
    rfl
  · rintro rfl
    exact .absent

theorem given_singleton_iff {v : Value} (hv : v ≠ .null) {o : Option α} :
    Given is [v] o ↔ ∃ x, is v x ∧ o = some x := by
  constructor
  · intro h
    cases h with
    | null => exact absurd rfl hv
    | value hx => exact ⟨_, hx, rfl⟩
  · rintro ⟨x, hx, rfl⟩
    exact .value hx

/-- Without a null that stands alone. -/
def unlessNull : List Value → List Value
  | [.null] => []
  | vs => vs

/-- Null is as good as absent. -/
theorem given_unlessNull_iff (hnull : ∀ x, ¬ is .null x) {vs : List Value} {o : Option α} :
    Given is (unlessNull vs) o ↔ Given is vs o := by
  unfold unlessNull
  split
  · constructor
    · rintro ⟨⟩
      exact .null
    · intro h
      cases h with
      | null => exact .absent
      | value h => exact absurd h (hnull _)
  · rfl

end

/-! ## Routes and artifacts -/

/-- The element makes a route: of one path, and of methods and a name if they are given. -/
structure Element.Makes (e : Element) (r : Route) : Prop where
  path : e.path = [.string r.path]
  methods : Given IsStrings e.methods r.methods
  name : Given IsString e.name r.name

/-- The value is an element that makes the route. -/
def IsRoute (v : Value) (r : Route) : Prop := ∃ e, element? v = some e ∧ e.Makes r

/-- The value is an artifact of those routes. -/
def IsArtifact : Value → List Route → Prop := IsList IsRoute

/-- What can be wrong with an element. -/
inductive Element.Unfit (e : Element) : Prop
  /-- There is no path. -/
  | missing (h : e.path = [])
  /-- A member is repeated; a fourth item of a list repeats the name. -/
  | repeated (h : 2 ≤ e.path.length ∨ 2 ≤ e.methods.length ∨ 2 ≤ e.name.length)
  | pathKind {v : Value} (hv : v ∈ e.path) (h : ∀ s, ¬ IsString v s)
  | methodsKind {v : Value} (hv : v ∈ e.methods) (hnull : v ≠ .null) (h : ∀ ms, ¬ IsStrings v ms)
  | nameKind {v : Value} (hv : v ∈ e.name) (hnull : v ≠ .null) (h : ∀ s, ¬ IsString v s)

theorem Element.Makes.not_unfit {e : Element} {r : Route} (h : e.Makes r) : ¬ e.Unfit := by
  obtain ⟨hpath, hmethods, hname⟩ := h
  have hmethods' := mt forall_not_given_iff.2 (not_forall_not.2 ⟨_, hmethods⟩)
  have hname' := mt forall_not_given_iff.2 (not_forall_not.2 ⟨_, hname⟩)
  rintro (h | h | ⟨hv, h⟩ | ⟨hv, hnull, h⟩ | ⟨hv, hnull, h⟩)
  · rw [hpath] at h
    cases h
  · rcases h with h | h | h
    · simp [hpath] at h
    · exact hmethods' (Or.inl h)
    · exact hname' (Or.inl h)
  · rw [hpath, List.mem_singleton] at hv
    exact h _ hv
  · exact hmethods' (Or.inr ⟨_, hv, hnull, h⟩)
  · exact hname' (Or.inr ⟨_, hv, hnull, h⟩)

theorem Element.exists_makes {e : Element} (h : ¬ e.Unfit) : ∃ r, e.Makes r := by
  have hpath : ∃ path, e.path = [.string path] := by
    match hp : e.path with
    | [] => exact absurd (.missing hp) h
    | [v] =>
      by_contra hne
      exact h (.pathKind (v := v) (by simp [hp]) fun s hs => hne ⟨s, by rw [hs]⟩)
    | _ :: _ :: vs => exact absurd (.repeated (Or.inl (by simp [hp]))) h
  have hmethods : ∃ methods, Given IsStrings e.methods methods := by
    by_contra hne
    rcases forall_not_given_iff.1 (not_exists.1 hne) with hlen | ⟨v, hv, hnull, hkind⟩
    · exact h (.repeated (Or.inr (Or.inl hlen)))
    · exact h (.methodsKind hv hnull hkind)
  have hname : ∃ name, Given IsString e.name name := by
    by_contra hne
    rcases forall_not_given_iff.1 (not_exists.1 hne) with hlen | ⟨v, hv, hnull, hkind⟩
    · exact h (.repeated (Or.inr (Or.inr hlen)))
    · exact h (.nameKind hv hnull hkind)
  obtain ⟨path, hpath⟩ := hpath
  obtain ⟨methods, hmethods⟩ := hmethods
  obtain ⟨name, hname⟩ := hname
  exact ⟨{ path, methods, name }, hpath, hmethods, hname⟩

/-- An element is unfit exactly if it makes no route. -/
theorem Element.unfit_iff (e : Element) : e.Unfit ↔ ∀ r, ¬ e.Makes r := by
  constructor
  · exact fun h r hr => hr.not_unfit h
  · intro h
    by_contra hne
    obtain ⟨r, hr⟩ := exists_makes hne
    exact h r hr

theorem exists_isRoute_iff (v : Value) :
    (∃ r, IsRoute v r) ↔ ∃ e, element? v = some e ∧ ¬ e.Unfit := by
  simp only [Element.unfit_iff, not_forall, not_not, IsRoute]
  constructor
  · rintro ⟨r, e, he, hr⟩
    exact ⟨e, he, r, hr⟩
  · rintro ⟨e, he, r, hr⟩
    exact ⟨r, e, he, hr⟩

/-- Items that are each of some kind are so together. -/
theorem exists_forall₂_iff {α β : Type} {kind : α → β → Prop} {items : List α} :
    (∃ xs, List.Forall₂ kind items xs) ↔ ∀ item ∈ items, ∃ x, kind item x := by
  induction items with
  | nil => simp
  | cons item items ih =>
    simp only [List.forall₂_cons_left_iff, List.forall_mem_cons, ← ih]
    constructor
    · rintro ⟨_, x, xs, hx, hxs, rfl⟩
      exact ⟨⟨x, hx⟩, xs, hxs⟩
    · rintro ⟨⟨x, hx⟩, xs, hxs⟩
      exact ⟨x :: xs, x, xs, hx, hxs, rfl⟩

/-- A list is an artifact exactly if each of its items is an element that is not unfit. -/
theorem exists_isArtifact_iff (v : Value) : (∃ routes, IsArtifact v routes) ↔
    ∃ items, v = .list items ∧ ∀ item ∈ items, ∃ e, element? item = some e ∧ ¬ e.Unfit := by
  simp only [← exists_isRoute_iff, ← exists_forall₂_iff]
  constructor
  · rintro ⟨routes, items, hv, hall⟩
    exact ⟨items, hv, routes, hall⟩
  · rintro ⟨items, hv, routes, hall⟩
    exact ⟨routes, items, hv, hall⟩

/-! ## What does not matter -/

/-- Two elements that give the same path, methods and name, where null is as good as absent. They may
differ in all else, and one may be an object and the other a list. -/
def Alike (v v' : Value) : Prop :=
  ∃ e e', element? v = some e ∧ element? v' = some e' ∧ e.path = e'.path ∧
    unlessNull e.methods = unlessNull e'.methods ∧ unlessNull e.name = unlessNull e'.name

theorem Alike.symm {v v' : Value} (h : Alike v v') : Alike v' v := by
  obtain ⟨e, e', he, he', hpath, hmethods, hname⟩ := h
  exact ⟨e', e, he', he, hpath.symm, hmethods.symm, hname.symm⟩

theorem Alike.isRoute {v v' : Value} (h : Alike v v') {r : Route} (hr : IsRoute v r) :
    IsRoute v' r := by
  obtain ⟨e, e', he, he', hpath, hmethods, hname⟩ := h
  obtain ⟨_, he₁, hmakes⟩ := hr
  obtain rfl := Option.some.inj (he.symm.trans he₁)
  refine ⟨e', he', hpath ▸ hmakes.path, ?_, ?_⟩
  · have hgiven := (given_unlessNull_iff not_isStrings_null).2 hmakes.methods
    rw [hmethods] at hgiven
    exact (given_unlessNull_iff not_isStrings_null).1 hgiven
  · have hgiven := (given_unlessNull_iff not_isString_null).2 hmakes.name
    rw [hname] at hgiven
    exact (given_unlessNull_iff not_isString_null).1 hgiven

theorem Alike.isRoute_iff {v v' : Value} (h : Alike v v') (r : Route) : IsRoute v r ↔ IsRoute v' r :=
  ⟨h.isRoute, h.symm.isRoute⟩

/-- Lists of alike elements are artifacts of the same routes. -/
theorem isArtifact_iff_of_alike {items items' : List Value} (h : List.Forall₂ Alike items items')
    (routes : List Route) : IsArtifact (.list items) routes ↔ IsArtifact (.list items') routes := by
  suffices List.Forall₂ IsRoute items routes ↔ List.Forall₂ IsRoute items' routes by
    simpa [IsArtifact, IsList] using this
  induction h generalizing routes with
  | nil => rfl
  | cons hv _ ih => simp only [List.forall₂_cons_left_iff, hv.isRoute_iff, ih]

end RouteBook.Artifact
