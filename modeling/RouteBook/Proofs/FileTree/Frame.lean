import RouteBook.Disk
import RouteBook.Proofs.FileTree.Save

/-!
# What saving leaves alone

Folders are made where nothing stands, at places on the way to the path (`makeFolders_grows`), so that
making them changes no file, whether it comes to an end or not. Writing changes the one file to which
the path leads. Main statements: saving that fails changes no file (`save_sameFiles`), and makes folders
above the path at most (`save_grows`); saving that does not fail changes only its own file
(`save_changesOnly`).
-/

namespace RouteBook.FileTree

/-- The content of the file at a place, if a file stands there. -/
def content? (tree : FileTree) (place : Place) : Option (List UInt8) :=
  match tree.entry? place with
  | some (.file content) => some content
  | _ => none

/-- The same files with the same contents; folders may differ. -/
def SameFiles (before after : FileTree) : Prop :=
  ∀ place, after.content? place = before.content? place

/-- The file at the place has the content, and all others are as before. -/
structure ChangesOnly (before after : FileTree) (place : Place) (content : List UInt8) : Prop where
  changed : after.content? place = some content
  others : ∀ q, q ≠ place → after.content? q = before.content? q

theorem SameFiles.refl (tree : FileTree) : SameFiles tree tree := fun _ => rfl

theorem SameFiles.trans {a b c : FileTree} (hab : SameFiles a b) (hbc : SameFiles b c) :
    SameFiles a c := fun place => (hbc place).trans (hab place)

/-- Folders have been made at some of the places, where nothing stood, and nothing else has changed. -/
def Grows (places : List Place) (before after : FileTree) : Prop :=
  ∀ q, after.entry? q = before.entry? q ∨
    (q ∈ places ∧ before.entry? q = none ∧ after.entry? q = some .folder)

namespace Grows
variable {places more : List Place} {a b c : FileTree}

theorem refl (places : List Place) (tree : FileTree) : Grows places tree tree := fun _ => Or.inl rfl

theorem trans (hab : Grows places a b) (hbc : Grows places b c) : Grows places a c := by
  intro q
  rcases hbc q with hc | ⟨hq, hb, hc⟩
  · rw [hc]
    exact hab q
  · right
    rcases hab q with hab | ⟨_, _, hfolder⟩
    · exact ⟨hq, hab ▸ hb, hc⟩
    · rw [hb] at hfolder
      cases hfolder

theorem mono (h : Grows places a b) (hsub : places ⊆ more) : Grows more a b := by
  intro q
  rcases h q with heq | ⟨hq, hbefore, hafter⟩
  · exact Or.inl heq
  · exact Or.inr ⟨hsub hq, hbefore, hafter⟩

/-- Folders stay. -/
theorem folder (h : Grows places a b) {q : Place} (hq : a.entry? q = some .folder) :
    b.entry? q = some .folder := by
  rcases h q with heq | ⟨_, _, hafter⟩
  · rw [heq, hq]
  · exact hafter

/-- Files stay, and no other files come about. -/
theorem sameFiles (h : Grows places a b) : SameFiles a b := by
  intro q
  unfold content?
  rcases h q with heq | ⟨_, hbefore, hafter⟩
  · rw [heq]
  · rw [hbefore, hafter]

end Grows

/-! ## The places on the way -/

open Disk (placesAlong)

theorem placesAlong_subset {start : Place} {names names' : List String} (h : names <+: names') :
    placesAlong start names ⊆ placesAlong start names' := by
  obtain ⟨rest, rfl⟩ := h
  induction names generalizing start with
  | nil => simp [placesAlong]
  | cons n names ih =>
    rw [List.cons_append, placesAlong, placesAlong]
    exact List.cons_subset_cons _ ih

theorem mem_placesAlong_of_follow {tree : FileTree} {start place : Place} {names : List String}
    (hne : names ≠ []) (h : tree.follow start names = .ok place) : place ∈ placesAlong start names := by
  induction names generalizing start with
  | nil => exact absurd rfl hne
  | cons n names ih =>
    -- The place is the next one, if this is the last name, and else further on.
    have later : ∀ {next : Place}, tree.follow next names = .ok place →
        place ∈ next :: placesAlong next names := by
      intro next hnext
      cases names with
      | nil =>
        obtain rfl := Except.ok.inj hnext
        exact List.mem_cons_self
      | cons n' names => exact List.mem_cons_of_mem _ (ih (by simp) hnext)
    rw [follow] at h
    rw [placesAlong]
    split at h
    · next hup =>
      simp only [if_pos hup]
      exact later h
    · next hup =>
      simp only [if_neg hup]
      split at h
      · next hlast =>
        apply later
        rw [hlast]
        exact h
      · split at h
        · exact later h
        · cases h
        · cases h
        · cases h

/-! ## Making folders -/

section
variable {tree tree' : FileTree} {start : Place}

theorem content?_put_of_ne {place q : Place} (h : q ≠ place) (entry : Entry) :
    (tree.put place entry).content? q = tree.content? q := by
  simp only [content?, entry?_put_of_ne h]

theorem isStart_eq_false {place : Place} (h : tree.entry? place ≠ some .folder) :
    isStart place = false := by
  cases hs : isStart place with
  | false => rfl
  | true => exact absurd (by simp [hs, entry?]) h

theorem put_folder_grows {places : List Place} {place : Place} (h : tree.entry? place = none)
    (hplace : place ∈ places) : Grows places tree (tree.put place .folder) := by
  intro q
  by_cases hq : q = place
  · subst hq
    have hother : tree.entry? q ≠ some .folder := by simp [h]
    exact Or.inr ⟨hplace, h, entry?_put_self (isStart_eq_false hother) .folder⟩
  · exact Or.inl (entry?_put_of_ne hq .folder)

theorem makeFolder_eq_ok_iff {names : List String} : tree.makeFolder start names = .ok tree' ↔
    ∃ place, tree.follow start names = .ok place ∧ tree.find place = .ok none ∧
      tree' = tree.put place .folder := by
  unfold makeFolder
  cases hf : tree.follow start names with
  | error fault => simp [bind, Except.bind]
  | ok place =>
    cases hp : tree.find place with
    | error fault => simp [hp, bind, Except.bind]
    | ok entry => cases entry <;> simp [hp, bind, Except.bind, eq_comm]

theorem ensureFolder_grows {names : List String} (hne : names ≠ [])
    (h : tree.ensureFolder start names = .ok tree') : Grows (placesAlong start names) tree tree' := by
  unfold ensureFolder at h
  split at h
  · next hm =>
    cases h
    obtain ⟨place, hfollow, hfind, rfl⟩ := makeFolder_eq_ok_iff.1 hm
    exact put_folder_grows (find_eq_ok_iff.1 hfind).2 (mem_placesAlong_of_follow hne hfollow)
  · split at h
    · cases h
      exact Grows.refl _ _
    · cases h

theorem makeFoldersUp_grows (tree : FileTree) (start : Place) (names : List String) :
    Grows (placesAlong start names.reverse) tree (tree.makeFoldersUp start names).1 := by
  induction names generalizing tree with
  | nil => exact Grows.refl _ tree
  | cons n up ih =>
    have hne : (n :: up).reverse ≠ [] := by simp
    have habove : up.reverse <+: (n :: up).reverse := ⟨[n], by simp⟩
    have hup := (ih tree).mono (placesAlong_subset habove)
    simp only [makeFoldersUp]
    cases he : tree.ensureFolder start (n :: up).reverse with
    | ok made => exact ensureFolder_grows hne he
    | error fault =>
      cases fault with
      | notFound =>
        -- The folders above are made, and then this one once more.
        cases hm : tree.makeFoldersUp start up with
        | mk made result =>
          rw [hm] at hup
          cases result with
          | error fault => exact hup
          | ok _ =>
            simp only
            cases hagain : made.ensureFolder start (n :: up).reverse with
            | ok made' => exact hup.trans (ensureFolder_grows hne hagain)
            | error fault => exact hup
      | _ => exact Grows.refl _ tree

/-- Requiring a folder makes those above it, or nothing. -/
theorem requireFolder_fst (tree : FileTree) (start : Place) (names : List String) :
    (tree.requireFolder start names).1 = tree ∨
      (tree.requireFolder start names).1 = (tree.makeFoldersUp start (names.reverse.drop 1)).1 := by
  unfold requireFolder
  cases tree.makeFoldersUp start (names.reverse.drop 1) with
  | mk made result => cases result <;> split <;> simp

theorem requireFolder_grows (tree : FileTree) (start : Place) (names : List String) :
    Grows (placesAlong start names) tree (tree.requireFolder start names).1 := by
  rcases requireFolder_fst tree start names with h | h
  · rw [h]
    exact Grows.refl _ tree
  · have habove : (names.reverse.drop 1).reverse <+: names := by
      rw [← List.reverse_suffix, List.reverse_reverse]
      exact List.drop_suffix 1 names.reverse
    rw [h]
    exact (makeFoldersUp_grows tree start _).mono (placesAlong_subset habove)

/-- **Folders**: nothing is made but missing folders on the way, also where it fails. -/
theorem makeFolders_grows (tree : FileTree) (p : Path) :
    Grows (placesAlong p.start p.names) tree (tree.makeFolders p).1 := by
  unfold makeFolders
  split
  · exact Grows.refl _ tree
  · exact requireFolder_grows tree p.start p.names
  · have h := makeFoldersUp_grows tree p.start p.names.reverse
    rwa [List.reverse_reverse] at h

theorem makeFolders_sameFiles (tree : FileTree) (p : Path) : SameFiles tree (tree.makeFolders p).1 :=
  (makeFolders_grows tree p).sameFiles

end

/-! ## Saving -/

section
variable {tree tree' : FileTree} {path : String} {content : List UInt8}

theorem Target.isStart {place : Place} (h : tree.Target path place) : isStart place = false := by
  obtain ⟨before, hf, hb⟩ := h.free
  exact isStart_eq_false (by rwa [(find_eq_ok_iff.1 hf).2])

/-- The places of the folders above what a path leads to. -/
def placesAbove (path : String) : List Place :=
  placesAlong (Path.ofString path).parent.start (Path.ofString path).parent.names

/-- A saving that fails makes folders above the path at most. -/
theorem save_grows {fault : FileFault} (h : tree.save path content = (tree', .error fault)) :
    Grows (placesAbove path) tree tree' := by
  have hmake := makeFolders_grows tree (Path.ofString path).parent
  unfold save at h
  split at h
  · next hm =>
    cases h
    rw [hm] at hmake
    exact hmake
  · next hm =>
    rw [hm] at hmake
    split at h
    · cases h
    · cases h
      exact hmake

/-- A saving that fails changes no file. -/
theorem save_sameFiles {fault : FileFault} (h : tree.save path content = (tree', .error fault)) :
    SameFiles tree tree' :=
  (save_grows h).sameFiles

/-- A saving that does not fail changes the file to which the path leads then, and no other. -/
theorem save_changesOnly (h : tree.save path content = (tree', .ok ())) :
    ∃ place, tree'.placeOf (Path.ofString path) = .ok place ∧
      ChangesOnly tree tree' place content := by
  obtain ⟨made, hm, hw⟩ := save_eq_ok_iff.1 h
  obtain ⟨place, ht, rfl⟩ := write_eq_ok_iff.1 hw
  have hmake := makeFolders_sameFiles tree (Path.ofString path).parent
  rw [hm] at hmake
  obtain ⟨before, hf, hb⟩ := ht.free
  have hplace : made.find place ≠ .ok (some .folder) := by
    rw [hf]
    exact fun e => hb (Except.ok.inj e)
  refine ⟨place, placeOf_put hplace _ ht.leads, ?_, fun q hq => ?_⟩
  · simp [content?, entry?_put_self ht.isStart]
  · rw [content?_put_of_ne hq]
    exact hmake q

theorem read_of_save (h : tree.save path content = (tree', .ok ())) :
    tree'.read path = .ok content := by
  obtain ⟨made, _, hw⟩ := save_eq_ok_iff.1 h
  exact read_of_write hw

end

end RouteBook.FileTree
