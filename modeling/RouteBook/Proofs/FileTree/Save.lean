import Mathlib
import RouteBook.FileTree

/-!
# What is saved is read back

A file can be written at a place where no folder stands, and writing it leaves the folders that
lead there as they are, so that its path still leads to it (`follow_put`). Whether a path can be
written does not depend on the content. Main statement (`Writable.save`): at a path that can be
written, any content can be saved, and is what the path then holds.
-/

namespace RouteBook.FileTree

/-! ## One place changed -/

theorem lookup_put (entries : List (Place × Entry)) (place q : Place) (entry : Entry) :
    (Pairs.put entries place entry).lookup q = if q = place then some entry else entries.lookup q := by
  have h := Pairs.lookup_put entries place q entry
  rwa [lawful_beq_subsingleton (instBEqOfDecidableEq : BEq Place) List.instBEq] at h

theorem entry?_put_self {tree : FileTree} {place : Place} (h : isStart place = false) (entry : Entry) :
    FileTree.entry? (tree.put place entry) place = some entry := by
  simp [put, entry?, h, lookup_put]

theorem entry?_put_of_ne {tree : FileTree} {place q : Place} (h : q ≠ place) (entry : Entry) :
    FileTree.entry? (tree.put place entry) q = tree.entry? q := by
  simp [put, entry?, h, lookup_put]

theorem find_put_of_ne {tree : FileTree} {place q : Place} (h : q ≠ place) (entry : Entry) :
    (tree.put place entry).find q = tree.find q := by
  simp only [find, entry?_put_of_ne h]

theorem find_eq_ok_iff {tree : FileTree} {place : Place} {entry : Option Entry} :
    tree.find place = .ok entry ↔
      (place.getLast?.any fun name => Path.nameLimit < Text.Utf8.size name.toList) = false ∧
        tree.entry? place = entry := by
  unfold find
  split
  · next h => simp [h]
  · next h => simp [h]

theorem find_put_self {tree : FileTree} {place : Place} {before : Option Entry}
    (h : tree.find place = .ok before) (hb : before ≠ some .folder) (entry : Entry) :
    (tree.put place entry).find place = .ok (some entry) := by
  obtain ⟨hname, he⟩ := find_eq_ok_iff.1 h
  have hs : isStart place = false := by
    cases hs : isStart place with
    | false => rfl
    | true => exact absurd (by rw [← he, entry?, if_pos hs]) hb
  exact find_eq_ok_iff.2 ⟨hname, entry?_put_self hs entry⟩

/-- A way that leads through folders is the same after a change where no folder stands. -/
theorem follow_put {tree : FileTree} {place : Place} (hplace : tree.find place ≠ .ok (some .folder))
    (entry : Entry) {start q : Place} {names : List String} (h : tree.follow start names = .ok q) :
    (tree.put place entry).follow start names = .ok q := by
  induction names generalizing start with
  | nil => exact h
  | cons n ns ih =>
    rw [follow] at h ⊢
    split at h
    · next hup => rw [if_pos hup]; exact ih h
    · next hup =>
      rw [if_neg hup]
      split at h
      · next hlast => rw [if_pos hlast]; exact h
      · next hlast =>
        rw [if_neg hlast]
        split at h
        · next hf =>
          have hne : start ++ [n] ≠ place := by rintro rfl; exact hplace hf
          rw [find_put_of_ne hne, hf]
          exact ih h
        · cases h
        · cases h
        · cases h

theorem placeOf_put {tree : FileTree} {place : Place} (hplace : tree.find place ≠ .ok (some .folder))
    (entry : Entry) {p : Path} {q : Place} (h : tree.placeOf p = .ok q) :
    (tree.put place entry).placeOf p = .ok q := by
  unfold placeOf at h ⊢
  split at h
  · cases h
  · exact follow_put hplace entry h

/-! ## Writing -/

/-- A file can be written at the place, and that is where the path leads. -/
structure Target (tree : FileTree) (path : String) (place : Place) : Prop where
  ne_empty : path ≠ ""
  leads : tree.placeOf (Path.ofString path) = .ok place
  ending : (Path.ofString path).ending = .name
  free : ∃ before, tree.find place = .ok before ∧ before ≠ some .folder

theorem write_eq_ok_iff {tree tree' : FileTree} {path : String} {content : List UInt8} :
    tree.write path content = .ok tree' ↔
      ∃ place, tree.Target path place ∧ tree' = tree.put place (.file content) := by
  constructor
  · intro h
    unfold write at h
    split at h
    · cases h
    · next hne =>
      cases hp : tree.placeOf (Path.ofString path) with
      | error fault => simp only [hp, bind, Except.bind] at h; cases h
      | ok place =>
        cases hf : tree.find place with
        | error fault =>
          simp only [hp, hf, bind, Except.bind] at h
          split at h <;> cases h
        | ok before =>
          cases he : (Path.ofString path).ending with
          | slash => simp [hp, he, bind, Except.bind] at h
          | dot => rcases before with _ | ⟨⟨c⟩ | _⟩ <;> simp [hp, hf, he, bind, Except.bind] at h
          | name =>
            rcases before with _ | ⟨⟨c⟩ | _⟩ <;> simp [hp, hf, he, bind, Except.bind] at h
            · exact ⟨place, ⟨hne, hp, he, _, hf, by simp⟩, h.symm⟩
            · exact ⟨place, ⟨hne, hp, he, _, hf, by simp⟩, h.symm⟩
  · rintro ⟨place, ⟨hne, hp, hend, before, hf, hb⟩, rfl⟩
    unfold write
    simp only [if_neg hne, hp, hend, hf, bind, Except.bind]
    cases before with
    | none => rfl
    | some e =>
      cases e with
      | file c => rfl
      | folder => exact absurd rfl hb

/-- What was written at a path is what it holds. -/
theorem read_of_write {tree tree' : FileTree} {path : String} {content : List UInt8}
    (h : tree.write path content = .ok tree') : tree'.read path = .ok content := by
  obtain ⟨place, ⟨hne, hp, hend, before, hf, hb⟩, rfl⟩ := write_eq_ok_iff.1 h
  have hplace : tree.find place ≠ .ok (some .folder) := by
    rw [hf]; intro e; exact hb (Except.ok.inj e)
  have hp' := placeOf_put hplace (.file content) hp
  have hf' := find_put_self hf hb (.file content)
  simp [read, hne, hp', hf', hend, bind, Except.bind]

/-! ## Saving -/

/-- Some content can be saved at the path. -/
def Writable (tree : FileTree) (path : String) : Prop :=
  ∃ content tree', tree.save path content = (tree', .ok ())

theorem save_eq_ok_iff {tree tree' : FileTree} {path : String} {content : List UInt8} :
    tree.save path content = (tree', .ok ()) ↔
      ∃ made, tree.makeFolders (Path.ofString path).parent = (made, .ok ()) ∧
        made.write path content = .ok tree' := by
  unfold save
  split
  · next made fault hm => simp [hm]
  · next made hm =>
    split
    · next hw => simp [hm, hw]
    · next hw => simp [hm, hw]

/-- **Saving**: where something can be saved, everything can, and it is read back. -/
theorem Writable.save {tree : FileTree} {path : String} (h : tree.Writable path)
    (content : List UInt8) :
    ∃ tree', tree.save path content = (tree', .ok ()) ∧ tree'.read path = .ok content := by
  obtain ⟨other, tree₁, ho⟩ := h
  obtain ⟨made, hm, hw⟩ := save_eq_ok_iff.1 ho
  obtain ⟨place, ht, _⟩ := write_eq_ok_iff.1 hw
  have hw' : made.write path content = .ok (made.put place (.file content)) :=
    write_eq_ok_iff.2 ⟨place, ht, rfl⟩
  exact ⟨_, save_eq_ok_iff.2 ⟨made, hm, hw'⟩, read_of_write hw'⟩

theorem Writable.ne_empty {tree : FileTree} {path : String} (h : tree.Writable path) : path ≠ "" := by
  obtain ⟨content, tree', hc⟩ := h
  obtain ⟨made, _, hw⟩ := save_eq_ok_iff.1 hc
  obtain ⟨place, ht, _⟩ := write_eq_ok_iff.1 hw
  exact ht.ne_empty

end RouteBook.FileTree
