import RouteBook.Proofs.Artifact.Loading
import RouteBook.Proofs.FileTree.Plain
import RouteBook.Proofs.Text.Utf8

/-!
# What saving an artifact does to the files

A saved artifact is UTF-8, so that it is read back as the text that was written, and its routes
as those that were saved (`load_of_save`).

Saving either succeeds, and then the path holds the written artifact and nothing else
(`saved_of_ok`), or it fails for a reason of the files, and then all files are as they were
(`untouched_of_error`). Main statement (`save_exact`): these are the only ends, and at a plain path it
is said which of them comes about.
-/

namespace RouteBook.Artifact
open Json (Layout)
open FileTree (SameFiles ChangesOnly Grows NoFileAlong placesAbove)

/-! ## Saved and loaded -/

theorem readText_of_read {tree : FileTree} {path : String} {cs : List Char}
    (h : tree.read path = .ok (Text.Utf8.encode cs)) : tree.readText path = .ok (String.ofList cs) := by
  simp [FileTree.readText, h, Text.Utf8.decode?_encode, bind, Except.bind]

theorem load_of_read {tree : FileTree} {path : String} {layout : Layout} {routes : List Route}
    (h : tree.read path = .ok (Text.Utf8.encode (encodeChars layout routes)))
    (hd : Route.defects routes = []) : load tree path = .ok routes := by
  have htext := readText_of_read h
  have hdecode := decode_encode layout hd
  rw [encode] at hdecode
  simp [load, htext, hdecode, Except.mapError, bind, Except.bind]

/-- **Saved and loaded**: routes without defects are saved wherever something can be, and loaded
as they were. -/
theorem load_of_save {tree : FileTree} {path : String} (hw : tree.Writable path) (layout : Layout)
    {routes : List Route} (hd : Route.defects routes = []) :
    ∃ tree' events, save tree path layout routes = (.ok (), tree', events) ∧
      load tree' path = .ok routes := by
  obtain ⟨tree', hs, hr⟩ := hw.save (Text.Utf8.encode (encodeChars layout routes))
  exact ⟨tree', _, by rw [save, hs], load_of_read hr hd⟩

theorem loadCatalog_of_load {tree : FileTree} {path : String} {routes : List Route}
    (h : load tree path = .ok routes) (strict : Bool) :
    loadCatalog tree path strict = (Catalog.build strict routes).mapError .repeated := by
  simp [loadCatalog, h, bind, Except.bind]

/-! ## The files after saving -/

/-- The octets of an artifact. -/
def octets (layout : Layout) (routes : List Route) : List UInt8 :=
  Text.Utf8.encode (encode layout routes).toList

/-- The path holds the artifact, other files are as before, and the routes are loaded, or refused for
their defects. -/
structure Saved (before after : FileTree) (path : String) (layout : Layout) (routes : List Route) :
    Prop where
  changed : ∃ place, after.placeOf (Path.ofString path) = .ok place ∧
    ChangesOnly before after place (octets layout routes)
  read : after.read path = .ok (octets layout routes)
  loaded : load after path =
    if Route.defects routes = [] then .ok routes else .error (.defective (Route.defects routes))

/-- All files are as before, and no folders have been made but some above the path. -/
structure Untouched (before after : FileTree) (path : String) : Prop where
  files : SameFiles before after
  folders : Grows (placesAbove path) before after

section
variable {tree after : FileTree} {path : String} {layout : Layout} {routes : List Route}

theorem octets_eq : octets layout routes = Text.Utf8.encode (encodeChars layout routes) := by
  rw [octets, encode, String.toList_ofList]

/-- A file that holds an artifact is loaded as its routes, if these are free of defects. -/
theorem load_octets (h : tree.read path = .ok (octets layout routes)) :
    load tree path =
      if Route.defects routes = [] then .ok routes else .error (.defective (Route.defects routes)) := by
  rw [octets_eq] at h
  exact load_of_json h (Text.Utf8.decode?_encode _) (readRoutes_encodeChars layout routes)

theorem saved_of_ok (h : tree.save path (octets layout routes) = (after, .ok ())) :
    Saved tree after path layout routes where
  changed := FileTree.save_changesOnly h
  read := FileTree.read_of_save h
  loaded := load_octets (FileTree.read_of_save h)

theorem untouched_of_error {fault : FileFault}
    (h : tree.save path (octets layout routes) = (after, .error fault)) :
    Untouched tree after path where
  files := FileTree.save_sameFiles h
  folders := FileTree.save_grows h

/-- An artifact is saved as its octets are. -/
theorem save_cases (tree : FileTree) (path : String) (layout : Layout) (routes : List Route) :
    (∃ after events, save tree path layout routes = (.ok (), after, events) ∧
      tree.save path (octets layout routes) = (after, .ok ())) ∨
    ∃ fault after, save tree path layout routes = (.error (.file fault), after, []) ∧
      tree.save path (octets layout routes) = (after, .error fault) := by
  rw [save, ← octets_eq]
  cases hsave : tree.save path (octets layout routes) with
  | mk after result =>
    cases result with
    | ok _ => exact Or.inl ⟨after, _, rfl, rfl⟩
    | error fault => exact Or.inr ⟨fault, after, rfl, rfl⟩

theorem save_fst_eq_ok_iff : (save tree path layout routes).1 = .ok () ↔
    ∃ after, tree.save path (octets layout routes) = (after, .ok ()) := by
  rcases save_cases tree path layout routes with ⟨after, _, h, hfile⟩ | ⟨fault, after, h, hfile⟩
  · simp [h, hfile]
  · simp [h, hfile]

end

/-- **Saving**: it succeeds, and leaves nothing but the artifact at the path, or it fails and leaves
the files alone. At a path of names it succeeds exactly when no folder stands there, and no file stands
where a folder above must be. At the empty path it fails. -/
theorem save_exact (tree : FileTree) (path : String) (layout : Layout) (routes : List Route) :
    ((∃ after events, save tree path layout routes = (.ok (), after, events) ∧
        Saved tree after path layout routes) ∨
      ∃ fault after, save tree path layout routes = (.error (.file fault), after, []) ∧
        Untouched tree after path) ∧
    (∀ p : PlainPath, p.Fits →
      ((save tree p.text layout routes).1 = .ok () ↔
        tree.entry? p.place ≠ some .folder ∧
          NoFileAlong tree (Path.origin p.fromRoot) p.folders)) ∧
    ∃ fault after, save tree "" layout routes = (.error (.file fault), after, []) := by
  refine ⟨?_, fun p hfits => ?_, ?_⟩
  · rcases save_cases tree path layout routes with ⟨after, events, h, hfile⟩ | ⟨fault, after, h, hfile⟩
    · exact Or.inl ⟨after, events, h, saved_of_ok hfile⟩
    · exact Or.inr ⟨fault, after, h, untouched_of_error hfile⟩
  · rw [save_fst_eq_ok_iff]
    exact FileTree.save_plain_iff hfits _
  · rcases save_cases tree "" layout routes with ⟨after, _, _, hfile⟩ | ⟨fault, after, h, _⟩
    · exact absurd rfl (FileTree.Writable.ne_empty ⟨_, _, hfile⟩)
    · exact ⟨fault, after, h⟩

/-- A long file is overwritten in a folder, and nothing can be saved below a file. -/
theorem save_exact_overwriting :
    let tree : FileTree :=
      { entries := [(["out"], .folder), (["out", "routes.json"], .file (List.replicate 40 32)),
          (["notes"], .file [])] }
    let inFolder : PlainPath := ⟨false, ["out"], "routes.json", by decide⟩
    let inFile : PlainPath := ⟨false, ["notes"], "routes.json", by decide⟩
    (inFolder.Fits ∧ ∃ after events,
      save tree inFolder.text .compact [] = (.ok (), after, events) ∧
        after.read inFolder.text = .ok (octets .compact [])) ∧
      inFile.Fits ∧ (save tree inFile.text .compact []).1 ≠ .ok () := by
  intro tree inFolder inFile
  obtain ⟨hends, hplain, -⟩ := save_exact tree inFolder.text .compact []
  have hfolderFits : inFolder.Fits := by decide
  have hfileFits : inFile.Fits := by decide
  have hok := (hplain inFolder hfolderFits).2
    ⟨by decide, FileTree.along_cons.2 ⟨by decide, FileTree.along_nil.2 (by decide)⟩⟩
  refine ⟨⟨hfolderFits, ?_⟩, hfileFits, fun h => ?_⟩
  · rcases hends with ⟨after, events, hsave, hsaved⟩ | ⟨fault, after, hsave, -⟩
    · exact ⟨after, events, hsave, hsaved.read⟩
    · rw [hsave] at hok
      cases hok
  · have hfree := (FileTree.along_cons.1 ((hplain inFile hfileFits).1 h).2).2
    exact absurd (FileTree.along_nil.1 hfree) (by decide)

end RouteBook.Artifact
