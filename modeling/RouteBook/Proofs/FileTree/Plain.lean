import RouteBook.Proofs.FileTree.Frame
import RouteBook.Proofs.Text.Line
import RouteBook.Proofs.Text.Slice

/-!
# Paths of ordinary names

A plain path (`PlainPath`) is made of names with single slashes between them, from the root or from the
working folder. It is taken apart as it was put together (`PlainPath.ofString_text`), and its folders are
those from which it was made. Where no file stands in place of one of these folders, they can all be
made (`makeFoldersUp_names`). Main statement (`save_plain_iff`): something can be saved at a plain path
exactly when no folder stands there and no file stands above.
-/

namespace RouteBook

/-- A name that a file or folder can have, and that leads nowhere else. -/
structure IsName (name : String) : Prop where
  ne_empty : name ≠ ""
  ne_dot : name ≠ "."
  ne_up : name ≠ ".."
  noSlash : '/' ∉ name.toList
  noNul : '\x00' ∉ name.toList

instance (name : String) : Decidable (IsName name) :=
  decidable_of_iff
    (name ≠ "" ∧ name ≠ "." ∧ name ≠ ".." ∧ '/' ∉ name.toList ∧ '\x00' ∉ name.toList)
    ⟨fun ⟨h, hdot, hup, hslash, hnul⟩ => ⟨h, hdot, hup, hslash, hnul⟩,
      fun h => ⟨h.ne_empty, h.ne_dot, h.ne_up, h.noSlash, h.noNul⟩⟩

theorem IsName.not_idle {name : String} (h : IsName name) : Path.isIdle name = false := by
  simp [Path.isIdle, h.ne_empty, h.ne_dot]

/-- A path of names: the folders on the way, and the name at its end. -/
structure PlainPath where
  fromRoot : Bool
  folders : List String
  name : String
  ordinary : ∀ n ∈ folders ++ [name], IsName n

namespace Path

/-! ## Pieces of plain paths -/

/-- What stands before the names. A path from the root starts with a slash, and so with an empty
piece. -/
def lead (fromRoot : Bool) : List String := if fromRoot then [""] else []

/-- The folder from which the names are followed. -/
def origin (fromRoot : Bool) : Place := if fromRoot then ["/"] else []

theorem eq_empty_of_mem_lead {fromRoot : Bool} {piece : String} (h : piece ∈ lead fromRoot) :
    piece = "" := by
  cases fromRoot <;> simp_all [lead]

section
variable {names : List String} (hnames : ∀ n ∈ names, IsName n)

include hnames

theorem names_plain (fromRoot : Bool) : Path.names ⟨lead fromRoot ++ names⟩ = names := by
  have hkept : names.filter (fun piece => !isIdle piece) = names :=
    List.filter_eq_self.2 fun n hn => by simp [(hnames n hn).not_idle]
  rw [Path.names, List.filter_append, hkept]
  cases fromRoot <;> simp [lead, isIdle]

theorem start_plain (fromRoot : Bool) (hne : names ≠ []) :
    Path.start ⟨lead fromRoot ++ names⟩ = origin fromRoot := by
  obtain ⟨n, ns, rfl⟩ := List.exists_cons_of_ne_nil hne
  have hn := (hnames n List.mem_cons_self).ne_empty
  cases fromRoot <;> simp [Path.start, lead, origin, hn]

theorem ending_plain (fromRoot : Bool) (hne : names ≠ []) :
    Path.ending ⟨lead fromRoot ++ names⟩ = .name := by
  have hkept : (lead fromRoot ++ names).filter (· ≠ "") = names := by
    have hnames' : names.filter (· ≠ "") = names :=
      List.filter_eq_self.2 fun n hn => by simp [(hnames n hn).ne_empty]
    rw [List.filter_append, hnames']
    cases fromRoot <;> simp [lead]
  have hlast := hnames _ (List.getLast_mem hne)
  unfold Path.ending
  simp only [hkept, List.getLast?_append, List.getLast?_eq_some_getLast hne]
  simp [hlast.ne_dot, hlast.ne_empty]

end

/-- Nothing is wrong with a path that holds no NUL and is not too long. -/
theorem fault?_eq_none_iff {p : Path} :
    p.fault? = none ↔ '\x00' ∉ p.text.toList ∧ Text.Utf8.size p.text.toList ≤ pathLimit := by
  unfold fault?
  split
  · next h => simp [List.contains_iff_mem.1 h]
  · next h =>
    rw [List.contains_iff_mem] at h
    split
    · next hlong => simp [h, hlong]
    · next hshort => simp [h, Nat.not_lt.1 hshort]

end Path

namespace PlainPath
open RouteBook.Path (lead origin)
variable (p : PlainPath)

/-- The names on the way, to the end. -/
def names : List String := p.folders ++ [p.name]

/-- The path as it is written. -/
def text : String := "/".intercalate (lead p.fromRoot ++ p.names)

/-- The place to which the path leads, if it leads anywhere. -/
def place : Place := origin p.fromRoot ++ p.names

/-- Neither the names nor the path are too long. -/
def Fits : Prop :=
  (∀ n ∈ p.names, Text.Utf8.size n.toList ≤ Path.nameLimit) ∧
    Text.Utf8.size p.text.toList ≤ Path.pathLimit

instance : Decidable p.Fits := inferInstanceAs (Decidable (_ ∧ _))

theorem names_ne_nil : p.names ≠ [] := by simp [names]

/-- A plain path is taken apart as it was put together. -/
theorem ofString_text : Path.ofString p.text = ⟨lead p.fromRoot ++ p.names⟩ := by
  have hslash : ∀ piece ∈ (lead p.fromRoot ++ p.names).map String.toList, '/' ∉ piece := by
    intro piece hpiece
    obtain ⟨n, hn, rfl⟩ := List.mem_map.1 hpiece
    rcases List.mem_append.1 hn with hn | hn
    · simp [Path.eq_empty_of_mem_lead hn]
    · exact (p.ordinary n hn).noSlash
  have hne : (lead p.fromRoot ++ p.names).map String.toList ≠ [] := by simp [names_ne_nil]
  have hsplit : p.text.toList.splitOn '/' = (lead p.fromRoot ++ p.names).map String.toList := by
    rw [text, String.toList_intercalate]
    exact List.splitOn_intercalate '/' hslash hne
  simp [Path.ofString, hsplit]

theorem ofString_ending : (Path.ofString p.text).ending = .name := by
  rw [p.ofString_text]
  exact Path.ending_plain p.ordinary p.fromRoot p.names_ne_nil

theorem text_ne_empty : p.text ≠ "" := by
  intro h
  have hpieces := p.ofString_text
  rw [h] at hpieces
  have hlast := congrArg (fun q : Path => q.pieces.getLast?) hpieces
  simp [Path.ofString, names] at hlast
  exact (p.ordinary p.name (by simp)).ne_empty hlast

/-! ## The folder of a plain path -/

/-- The folder of a plain path is reached by its folders. Without folders it is the one from which
the path starts, and then no piece is left. -/
theorem parent_pieces : (Path.ofString p.text).parent =
    ⟨if p.folders = [] then [] else lead p.fromRoot ++ p.folders⟩ := by
  have hname : Path.isIdle p.name = false := (p.ordinary p.name (by simp)).not_idle
  have hdrop : ((lead p.fromRoot ++ p.names).reverse.dropWhile Path.isIdle).drop 1 =
      (lead p.fromRoot ++ p.folders).reverse := by
    simp [names, hname]
  rw [p.ofString_text, Path.parent, hdrop]
  rcases List.eq_nil_or_concat' p.folders with hf | ⟨fs, f, hf⟩
  · cases hr : p.fromRoot <;> simp [hf, lead, Path.isIdle]
  · have hfolder : Path.isIdle f = false := (p.ordinary f (by simp [hf])).not_idle
    simp [hf, hfolder]

theorem parent_text_prefix : (Path.ofString p.text).parent.text.toList <+: p.text.toList := by
  rw [parent_pieces, Path.text]
  split
  · simp
  · next hf =>
    have hne : lead p.fromRoot ++ p.folders ≠ [] := by simp [hf]
    rw [text, names, ← List.append_assoc, String.intercalate_append_of_ne_nil hne (by simp)]
    simp [List.append_assoc]

theorem fault?_text (hfits : p.Fits) : (Path.ofString p.text).fault? = none := by
  rw [Path.fault?_eq_none_iff, ofString_text]
  refine ⟨fun hnul => ?_, hfits.2⟩
  simp only [Path.text, String.toList_intercalate] at hnul
  rcases Text.mem_of_mem_intercalate hnul with hsep | ⟨piece, hpiece, hnul⟩
  · exact absurd hsep (by decide)
  · obtain ⟨n, hn, rfl⟩ := List.mem_map.1 hpiece
    rcases List.mem_append.1 hn with hn | hn
    · simp [Path.eq_empty_of_mem_lead hn] at hnul
    · exact (p.ordinary n hn).noNul hnul

theorem fault?_parent (hfits : p.Fits) : (Path.ofString p.text).parent.fault? = none := by
  obtain ⟨rest, hrest⟩ := p.parent_text_prefix
  have h := Path.fault?_eq_none_iff.1 (p.fault?_text hfits)
  have htext : (Path.ofString p.text).text = p.text := by rw [ofString_text]; rfl
  rw [htext, ← hrest, Text.Utf8.size_append] at h
  refine Path.fault?_eq_none_iff.2 ⟨fun hnul => h.1 (List.mem_append_left _ hnul), ?_⟩
  omega

end PlainPath

namespace FileTree
open RouteBook.Path (lead origin)

/-! ## Along the folders -/

/-- It holds at a place, and at each place that a beginning of the names leads to from there. -/
def Along (start : Place) (names : List String) (holds : Place → Prop) : Prop :=
  ∀ above, above <+: names → holds (start ++ above)

section
variable {start : Place} {names : List String} {holds : Place → Prop}

theorem Along.here (h : Along start names holds) : holds start := by
  simpa using h [] List.nil_prefix

@[simp] theorem along_nil : Along start [] holds ↔ holds start := by
  simp [Along]

theorem along_cons {n : String} :
    Along start (n :: names) holds ↔ holds start ∧ Along (start ++ [n]) names holds := by
  constructor
  · intro h
    refine ⟨h.here, fun above ha => ?_⟩
    simpa using h (n :: above) (List.cons_prefix_cons.2 ⟨rfl, ha⟩)
  · rintro ⟨hstart, hrest⟩ above ha
    rcases List.prefix_cons_iff.1 ha with rfl | ⟨rest, rfl, hr⟩
    · simpa using hstart
    · simpa using hrest rest hr

theorem along_concat {n : String} :
    Along start (names ++ [n]) holds ↔ Along start names holds ∧ holds (start ++ (names ++ [n])) := by
  constructor
  · intro h
    exact ⟨fun above ha => h above (ha.trans (List.prefix_append _ _)), h _ (List.prefix_refl _)⟩
  · rintro ⟨hnames, hlast⟩ above ha
    rcases List.prefix_concat_iff.1 ha with rfl | ha
    · exact hlast
    · exact hnames above ha

end

/-- All folders on the way are there. -/
def FoldersAlong (tree : FileTree) (start : Place) (names : List String) : Prop :=
  Along start names fun q => tree.entry? q = some .folder

/-- No file stands in place of a folder on the way. -/
def NoFileAlong (tree : FileTree) (start : Place) (names : List String) : Prop :=
  Along start names fun q => tree.content? q = none

section
variable {tree tree' : FileTree} {start place : Place} {folders : List String} {name : String}

theorem content?_of_folder {q : Place} (h : tree.entry? q = some .folder) :
    tree.content? q = none := by
  simp [content?, h]

theorem FoldersAlong.noFile (h : tree.FoldersAlong start folders) : tree.NoFileAlong start folders :=
  fun above ha => content?_of_folder (h above ha)

theorem FoldersAlong.grow {places : List Place} (h : tree.FoldersAlong start folders)
    (hg : Grows places tree tree') : tree'.FoldersAlong start folders :=
  fun above ha => hg.folder (h above ha)

theorem SameFiles.noFileAlong (h : SameFiles tree tree') :
    tree'.NoFileAlong start folders ↔ tree.NoFileAlong start folders := by
  simp only [NoFileAlong, Along, h _]

/-- The name leads down from a folder, and can be looked up. -/
structure LeadsDown (name : String) : Prop where
  ne_up : name ≠ ".."
  short : Text.Utf8.size name.toList ≤ Path.nameLimit

theorem LeadsDown.find (h : LeadsDown name) (tree : FileTree) (above : Place) :
    tree.find (above ++ [name]) = .ok (tree.entry? (above ++ [name])) := by
  rw [find_eq_ok_iff]
  simpa using h.short

/-- One step down. -/
theorem follow_cons_concat {f : String} (hf : LeadsDown f) :
    tree.follow start (f :: (folders ++ [name])) =
      match tree.entry? (start ++ [f]) with
      | some .folder => tree.follow (start ++ [f]) (folders ++ [name])
      | some (.file _) => .error .notFolder
      | none => .error .notFound := by
  rw [follow, if_neg hf.ne_up, if_neg (by simp), hf.find]
  split <;> simp_all

/-- Names lead to the place that they make up, if all the folders on the way are there. -/
theorem follow_of_folders (hdown : ∀ n ∈ folders ++ [name], LeadsDown n)
    (h : tree.FoldersAlong start folders) :
    tree.follow start (folders ++ [name]) = .ok (start ++ (folders ++ [name])) := by
  induction folders generalizing start with
  | nil => simp [follow, (hdown name (by simp)).ne_up]
  | cons f fs ih =>
    rw [List.cons_append, List.forall_mem_cons] at hdown
    have hrest : tree.FoldersAlong (start ++ [f]) fs := (along_cons.1 h).2
    rw [List.cons_append, follow_cons_concat hdown.1, hrest.here]
    simpa using ih hdown.2 hrest

/-- Names lead nowhere where a folder is missing. If no file stands in its place, that is the
reason. -/
theorem follow_of_missing (hdown : ∀ n ∈ folders ++ [name], LeadsDown n)
    (hstart : tree.entry? start = some .folder) (h : ¬ tree.FoldersAlong start folders) :
    ∃ fault, tree.follow start (folders ++ [name]) = .error fault ∧
      (tree.NoFileAlong start folders → fault = .notFound) := by
  induction folders generalizing start with
  | nil => exact absurd (along_nil.2 hstart) h
  | cons f fs ih =>
    rw [List.cons_append, List.forall_mem_cons] at hdown
    rw [List.cons_append, follow_cons_concat hdown.1]
    cases hnext : tree.entry? (start ++ [f]) with
    | none => exact ⟨.notFound, rfl, fun _ => rfl⟩
    | some entry =>
      cases entry with
      | folder =>
        have hrest : ¬ tree.FoldersAlong (start ++ [f]) fs := fun hr => h (along_cons.2 ⟨hstart, hr⟩)
        obtain ⟨fault, hfollow, hfault⟩ := ih hdown.2 hnext hrest
        exact ⟨fault, hfollow, fun hfree => hfault (along_cons.1 hfree).2⟩
      | file content =>
        refine ⟨.notFolder, rfl, fun hfree => ?_⟩
        have hnofile := (along_cons.1 hfree).2.here
        simp [content?, hnext] at hnofile

/-! ## Folders are made -/

theorem ensureFolder_of_folders (hdown : ∀ n ∈ folders ++ [name], LeadsDown n)
    (h : tree.FoldersAlong start folders)
    (hfree : tree.content? (start ++ (folders ++ [name])) = none) :
    ∃ made, tree.ensureFolder start (folders ++ [name]) = .ok made ∧
      made.FoldersAlong start (folders ++ [name]) := by
  have hfollow := follow_of_folders hdown h
  have hfind : tree.find (start ++ (folders ++ [name])) =
      .ok (tree.entry? (start ++ (folders ++ [name]))) := by
    simpa using (hdown name (by simp)).find tree (start ++ folders)
  cases hentry : tree.entry? (start ++ (folders ++ [name])) with
  | none =>
    rw [hentry] at hfind
    have hgrows : Grows [start ++ (folders ++ [name])] tree _ :=
      put_folder_grows hentry List.mem_cons_self
    have hother : tree.entry? (start ++ (folders ++ [name])) ≠ some .folder := by simp [hentry]
    refine ⟨tree.put (start ++ (folders ++ [name])) .folder, ?_, along_concat.2 ⟨h.grow hgrows, ?_⟩⟩
    · rw [ensureFolder, makeFolder_eq_ok_iff.2 ⟨_, hfollow, hfind, rfl⟩]
    · exact entry?_put_self (isStart_eq_false hother) .folder
  | some entry =>
    cases entry with
    | file content => simp [content?, hentry] at hfree
    | folder =>
      refine ⟨tree, ?_, along_concat.2 ⟨h, hentry⟩⟩
      simp [ensureFolder, makeFolder, isFolderAt, hfollow, hfind, hentry, bind, Except.bind]

theorem ensureFolder_of_missing (hdown : ∀ n ∈ folders ++ [name], LeadsDown n)
    (hstart : tree.entry? start = some .folder) (h : ¬ tree.FoldersAlong start folders)
    (hfree : tree.NoFileAlong start folders) :
    tree.ensureFolder start (folders ++ [name]) = .error .notFound := by
  obtain ⟨fault, hfollow, hfault⟩ := follow_of_missing hdown hstart h
  obtain rfl := hfault hfree
  simp [ensureFolder, makeFolder, isFolderAt, hfollow, bind, Except.bind]

/-- **Folders on the way**: where no file stands in place of one, all of them are made, as far as they
are missing. -/
theorem makeFoldersUp_names (hdown : ∀ n ∈ folders, LeadsDown n)
    (hstart : tree.entry? start = some .folder) (hfree : tree.NoFileAlong start folders) :
    ∃ made, tree.makeFoldersUp start folders.reverse = (made, .ok ()) ∧
      made.FoldersAlong start folders := by
  -- The last folder is made when those above it are there, which they are by the induction.
  induction folders using List.reverseRecOn with
  | nil => exact ⟨tree, rfl, along_nil.2 hstart⟩
  | append_singleton fs f ih =>
    obtain ⟨habove, hlast⟩ := along_concat.1 hfree
    rw [List.reverse_concat, makeFoldersUp]
    simp only [List.reverse_cons, List.reverse_reverse]
    by_cases hthere : tree.FoldersAlong start fs
    · obtain ⟨made, hmade, hfolders⟩ := ensureFolder_of_folders hdown hthere hlast
      exact ⟨made, by rw [hmade], hfolders⟩
    · obtain ⟨above, hup, hfolders⟩ := ih (fun n hn => hdown n (List.mem_append_left _ hn)) habove
      have hsame : SameFiles tree above := by
        have hgrows := makeFoldersUp_grows tree start fs.reverse
        rw [hup] at hgrows
        exact hgrows.sameFiles
      obtain ⟨made, hmade, hall⟩ :=
        ensureFolder_of_folders hdown hfolders ((hsame _).trans hlast)
      rw [ensureFolder_of_missing hdown hstart hthere habove, hup]
      exact ⟨made, by simp only [hmade], hall⟩

/-- The places on the way down are those that beginnings of the names make up. -/
theorem along_of_mem_placesAlong (hdown : ∀ n ∈ folders, LeadsDown n) {q : Place}
    (h : q ∈ Disk.placesAlong start folders) : ∃ above, above <+: folders ∧ q = start ++ above := by
  induction folders generalizing start with
  | nil => simp [Disk.placesAlong] at h
  | cons f fs ih =>
    rw [List.forall_mem_cons] at hdown
    simp only [Disk.placesAlong, if_neg hdown.1.ne_up] at h
    rcases List.mem_cons.1 h with rfl | h
    · exact ⟨[f], by simp, rfl⟩
    · obtain ⟨above, ha, rfl⟩ := ih hdown.2 h
      exact ⟨f :: above, List.cons_prefix_cons.2 ⟨rfl, ha⟩, by simp⟩

end

/-! ## Saving at plain paths -/

section
variable (tree : FileTree) (p : PlainPath)

theorem entry?_origin (fromRoot : Bool) : tree.entry? (origin fromRoot) = some .folder := by
  cases fromRoot <;> simp [isStart, entry?, origin]

theorem makeFolders_parent (hfits : p.Fits) :
    tree.makeFolders (Path.ofString p.text).parent =
      tree.makeFoldersUp (origin p.fromRoot) p.folders.reverse := by
  have hfolders : ∀ n ∈ p.folders, IsName n := fun n hn => p.ordinary n (List.mem_append_left _ hn)
  unfold makeFolders
  rw [p.fault?_parent hfits, p.parent_pieces]
  by_cases hf : p.folders = []
  · simp [hf, Path.ending, Path.names, makeFoldersUp]
  · simp only [if_neg hf, Path.names_plain hfolders, Path.start_plain hfolders p.fromRoot hf,
      Path.ending_plain hfolders p.fromRoot hf]

theorem placeOf_text (hfits : p.Fits) :
    tree.placeOf (Path.ofString p.text) = tree.follow (origin p.fromRoot) (p.folders ++ [p.name]) := by
  rw [placeOf, p.fault?_text hfits, p.ofString_text]
  simp only [Path.names_plain p.ordinary, Path.start_plain p.ordinary p.fromRoot p.names_ne_nil,
    PlainPath.names]

end

section
variable {tree made : FileTree} {p : PlainPath}

theorem leadsDown_of_fits (hfits : p.Fits) : ∀ n ∈ p.folders ++ [p.name], LeadsDown n :=
  fun n hn => ⟨(p.ordinary n hn).ne_up, hfits.1 n hn⟩

theorem leadsDown_folders (hfits : p.Fits) : ∀ n ∈ p.folders, LeadsDown n :=
  fun n hn => leadsDown_of_fits hfits n (List.mem_append_left _ hn)

/-- Making folders on the way changes nothing at the end of it. -/
theorem Grows.entry?_place (hfits : p.Fits)
    (h : Grows (Disk.placesAlong (origin p.fromRoot) p.folders) tree made) :
    made.entry? p.place = tree.entry? p.place := by
  rcases h p.place with heq | ⟨hmem, _, _⟩
  · exact heq
  · obtain ⟨above, ha, hplace⟩ := along_of_mem_placesAlong (leadsDown_folders hfits) hmem
    have hlength := ha.length_le
    rw [← List.append_cancel_left hplace, PlainPath.names, List.length_append] at hlength
    simp at hlength

/-- Where the path leads, once its folders have been made. -/
theorem placeOf_text_eq_ok_iff (hfits : p.Fits) {place : Place} :
    tree.placeOf (Path.ofString p.text) = .ok place ↔
      tree.FoldersAlong (origin p.fromRoot) p.folders ∧ place = p.place := by
  rw [placeOf_text tree p hfits]
  by_cases hfolders : tree.FoldersAlong (origin p.fromRoot) p.folders
  · rw [follow_of_folders (leadsDown_of_fits hfits) hfolders]
    simp [hfolders, PlainPath.place, PlainPath.names, eq_comm]
  · obtain ⟨fault, hfollow, _⟩ :=
      follow_of_missing (leadsDown_of_fits hfits) (entry?_origin tree p.fromRoot) hfolders
    simp [hfollow, hfolders]

/-- A file can be written at a plain path when its folders are there, and it is no folder itself. -/
theorem target_text_iff (hfits : p.Fits) {place : Place} : tree.Target p.text place ↔
    place = p.place ∧ tree.FoldersAlong (origin p.fromRoot) p.folders ∧
      tree.entry? p.place ≠ some .folder := by
  have hfind : tree.find p.place = .ok (tree.entry? p.place) := by
    have hname := leadsDown_of_fits hfits p.name (by simp)
    simpa [PlainPath.place, PlainPath.names] using hname.find tree (origin p.fromRoot ++ p.folders)
  constructor
  · intro h
    obtain ⟨hfolders, rfl⟩ := (placeOf_text_eq_ok_iff hfits).1 h.leads
    obtain ⟨before, hbefore, hfolder⟩ := h.free
    rw [hfind] at hbefore
    exact ⟨rfl, hfolders, Except.ok.inj hbefore ▸ hfolder⟩
  · rintro ⟨rfl, hfolders, hfolder⟩
    exact ⟨p.text_ne_empty, (placeOf_text_eq_ok_iff hfits).2 ⟨hfolders, rfl⟩, p.ofString_ending,
      _, hfind, hfolder⟩

/-- **Saving at a plain path**: it succeeds exactly when the path is no folder, and no file stands where
one of its folders must be. -/
theorem save_plain_iff (hfits : p.Fits) (content : List UInt8) :
    (∃ tree', tree.save p.text content = (tree', .ok ())) ↔
      tree.entry? p.place ≠ some .folder ∧ tree.NoFileAlong (origin p.fromRoot) p.folders := by
  have hgrows := makeFoldersUp_grows tree (origin p.fromRoot) p.folders.reverse
  rw [List.reverse_reverse] at hgrows
  constructor
  · rintro ⟨tree', h⟩
    obtain ⟨made, hmade, hwrite⟩ := save_eq_ok_iff.1 h
    rw [makeFolders_parent tree p hfits] at hmade
    rw [hmade] at hgrows
    obtain ⟨place, htarget, _⟩ := write_eq_ok_iff.1 hwrite
    obtain ⟨_, hfolders, hplace⟩ := (target_text_iff hfits).1 htarget
    rw [hgrows.entry?_place hfits] at hplace
    exact ⟨hplace, hgrows.sameFiles.noFileAlong.1 hfolders.noFile⟩
  · rintro ⟨hplace, hfree⟩
    obtain ⟨made, hmade, hfolders⟩ :=
      makeFoldersUp_names (leadsDown_folders hfits) (entry?_origin tree p.fromRoot) hfree
    rw [hmade] at hgrows
    rw [← hgrows.entry?_place hfits] at hplace
    have htarget : made.Target p.text p.place := (target_text_iff hfits).2 ⟨rfl, hfolders, hplace⟩
    have hmade' : tree.makeFolders (Path.ofString p.text).parent = (made, .ok ()) := by
      rw [makeFolders_parent tree p hfits, hmade]
    exact ⟨_, save_eq_ok_iff.2 ⟨made, hmade', write_eq_ok_iff.2 ⟨_, htarget, rfl⟩⟩⟩

end

end FileTree

end RouteBook
