import Mathlib
import RouteBook.Proofs.Pairs
import RouteBook.Toml.Item

/-!
# Documents of sections

A document whose keys have one name each is its own members, and then tables with theirs (`statementsOf`).
If no key is given twice in one place, carrying the statements out builds just that
(`build_statementsOf`), in the order in which it is written.
-/

namespace RouteBook.Toml

/-! ## Statements -/

/-- Assignments, one for each member. -/
def assignments (members : Members) : List Statement :=
  members.map fun member => .assignment [] member.1 member.2

/-- A header, and the members of its table. -/
def sectionOf (name : String) (members : Members) : List Statement :=
  .header [] name :: assignments members

/-- The members of the document, and then each of its tables. -/
def statementsOf (top : Members) (tables : List (String × Members)) : List Statement :=
  assignments top ++ tables.flatMap fun table => sectionOf table.1 table.2

/-- The tables as members of the document. -/
def tableItems (tables : List (String × Members)) : Members :=
  tables.map fun table => (table.1, .table .header table.2)

/-! ## Carrying them out -/

section
variable {members inner : Members} {name key : String} {item : Item}

theorem addMember_of_new (h : key ∉ members.map Prod.fst) (item : Item) :
    addMember true key item .header members = some (members ++ [(key, item)]) := by
  have hnone : members.lookup key = none := Pairs.lookup_eq_none_iff.2 h
  simp [addMember, hnone, Pairs.put_of_not_mem h]

theorem lookup_append_self (h : name ∉ members.map Prod.fst) (item : Item) :
    (members ++ [(name, item)]).lookup name = some item := by
  rw [List.lookup_append, Pairs.lookup_eq_none_iff.2 h]
  simp

theorem carryOut_top (h : key ∉ members.map Prod.fst) (item : Item) :
    Draft.carryOut { members } (.assignment [] key item) =
      some { members := members ++ [(key, item)] } := by
  have hadd := addMember_of_new h item
  simp [Draft.carryOut, changeAt, assign, hadd]

theorem carryOut_header (h : name ∉ members.map Prod.fst) (current : List String) :
    Draft.carryOut { members, current } (.header [] name) =
      some { members := members ++ [(name, .table .header [])], current := [name] } := by
  have hnone : members.lookup name = none := Pairs.lookup_eq_none_iff.2 h
  simp [Draft.carryOut, changeAt, openTable, hnone, Pairs.put_of_not_mem h]

theorem carryOut_inner (hname : name ∉ members.map Prod.fst) (h : key ∉ inner.map Prod.fst)
    (item : Item) :
    Draft.carryOut { members := members ++ [(name, .table .header inner)], current := [name] }
      (.assignment [] key item) =
        some { members := members ++ [(name, .table .header (inner ++ [(key, item)]))],
               current := [name] } := by
  have hlookup := lookup_append_self hname (.table .header inner)
  have hadd := addMember_of_new h item
  simp [Draft.carryOut, changeAt, assign, hlookup, hadd, Passage.header, Pairs.put_append_self hname]

end

/-! ## Runs of assignments -/

/-- The document's own members are added one after the other. -/
theorem foldlM_top {top : Members} (members : Members) (h : ((members ++ top).map Prod.fst).Nodup) :
    (assignments top).foldlM Draft.carryOut { members } = some { members := members ++ top } := by
  induction top generalizing members with
  | nil => simp [assignments]
  | cons pair top ih =>
    obtain ⟨key, item⟩ := pair
    have hnew : key ∉ members.map Prod.fst := by
      rw [List.map_append, List.nodup_append] at h
      exact fun hmem => h.2.2 key hmem key (by simp) rfl
    have hrest := ih (members ++ [(key, item)]) (by simpa using h)
    simp only [assignments, List.map_cons, List.foldlM_cons, carryOut_top hnew, Option.bind_eq_bind,
      Option.bind_some] at hrest ⊢
    simpa using hrest

/-- So are the members of the latest table. -/
theorem foldlM_inner {members more : Members} {name : String} (inner : Members)
    (hname : name ∉ members.map Prod.fst) (h : ((inner ++ more).map Prod.fst).Nodup) :
    (assignments more).foldlM Draft.carryOut
      { members := members ++ [(name, .table .header inner)], current := [name] } =
        some { members := members ++ [(name, .table .header (inner ++ more))], current := [name] } := by
  induction more generalizing inner with
  | nil => simp [assignments]
  | cons pair more ih =>
    obtain ⟨key, item⟩ := pair
    have hnew : key ∉ inner.map Prod.fst := by
      rw [List.map_append, List.nodup_append] at h
      exact fun hmem => h.2.2 key hmem key (by simp) rfl
    have hrest := ih (inner ++ [(key, item)]) (by simpa using h)
    simp only [assignments, List.map_cons, List.foldlM_cons, carryOut_inner hname hnew,
      Option.bind_eq_bind, Option.bind_some] at hrest ⊢
    simpa using hrest

/-- Each section adds its table. -/
theorem foldlM_tables {tables : List (String × Members)} (members : Members)
    (h : (members.map Prod.fst ++ tables.map Prod.fst).Nodup)
    (hinner : ∀ table ∈ tables, (table.2.map Prod.fst).Nodup) (current : List String) :
    ∃ current', (tables.flatMap fun table => sectionOf table.1 table.2).foldlM Draft.carryOut
      { members, current } = some { members := members ++ tableItems tables, current := current' } := by
  induction tables generalizing members current with
  | nil => exact ⟨current, by simp [tableItems]⟩
  | cons table tables ih =>
    obtain ⟨name, inner⟩ := table
    have hname : name ∉ members.map Prod.fst := by
      rw [List.nodup_append] at h
      exact fun hmem => h.2.2 name hmem name (by simp) rfl
    have hfirst := foldlM_inner [] hname (by simpa using hinner (name, inner))
    obtain ⟨current', hrest⟩ := ih (members ++ [(name, .table .header inner)])
      (by simpa using h) (fun table ht => hinner table (by simp [ht])) [name]
    refine ⟨current', ?_⟩
    rw [List.flatMap_cons, List.foldlM_append, sectionOf, List.foldlM_cons, carryOut_header hname]
    simp only [Option.bind_eq_bind, Option.bind_some, hfirst, List.nil_append, hrest]
    simp [tableItems]

/-- **Sections**: with different keys in each place, a document is what is written. -/
theorem build_statementsOf {top : Members} {tables : List (String × Members)}
    (h : (top.map Prod.fst ++ tables.map Prod.fst).Nodup)
    (hinner : ∀ table ∈ tables, (table.2.map Prod.fst).Nodup) :
    build (statementsOf top tables) = some (top ++ tableItems tables) := by
  have hdistinct : (([] ++ top).map Prod.fst).Nodup := h.of_append_left
  have htop := foldlM_top [] hdistinct
  obtain ⟨current, htables⟩ := foldlM_tables top h hinner []
  rw [build, statementsOf, List.foldlM_append]
  rw [List.nil_append] at htop
  simp only [htop, Option.bind_eq_bind, Option.bind_some, htables]

end RouteBook.Toml
