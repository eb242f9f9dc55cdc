import RouteBook.Proofs.Artifact.RoundTrip
import RouteBook.Proofs.Catalog.Names

/-!
# Which artifacts can be loaded

A file gives a catalog in five stages: it is read, taken as UTF-8, read as JSON, looked through for
defects, and under the strict rule for repeated names. `Loads` says that all of them succeed,
`Refused` at which one a file fails and with what. Every file is one or the other
(`loads_or_refused`), and loading does as they say (`loadCatalog_of_loads`,
`loadCatalog_of_refused`).
-/

namespace RouteBook.Artifact
open Text

section
variable {tree : FileTree} {path : String} {strict : Bool}

/-! ## Routes -/

/-- A file is loaded as the text that its octets make, if they make one. -/
theorem load_of_octets {octets : List UInt8} (h : tree.read path = .ok octets) :
    load tree path = match Utf8.decode? octets with
      | some cs => decode (String.ofList cs)
      | none => .error (.file .notText) := by
  rw [load, FileTree.readText, h]
  cases hd : Utf8.decode? octets with
  | none => simp [hd, Except.mapError, bind, Except.bind]
  | some cs => simp [hd, Except.mapError, bind, Except.bind]

theorem load_of_text {octets : List UInt8} {cs : List Char} (hread : tree.read path = .ok octets)
    (htext : Utf8.decode? octets = some cs) : load tree path = decode (String.ofList cs) := by
  rw [load_of_octets hread, htext]

theorem load_of_unreadable {fault : FileFault} (h : tree.read path = .error fault) :
    load tree path = .error (.file fault) := by
  rw [load, FileTree.readText, h]
  rfl

/-! ## Catalogs -/

theorem loadCatalog_of_load_error {failure : Failure} (h : load tree path = .error failure) :
    loadCatalog tree path strict = .error failure := by
  rw [loadCatalog, h]
  rfl

theorem build_of_distinct {routes : List Route} (h : strict = true → ¬ ShareName routes) :
    Catalog.build strict routes = .ok (Catalog.ofRoutes routes) := by
  cases strict with
  | false => rfl
  | true =>
    have hnone : repeatedNames routes = [] := by
      by_contra hne
      exact h rfl ((repeatedNames_ne_nil_iff routes).1 hne)
    rw [Catalog.build, if_pos rfl, Catalog.ofDistinct, hnone]

theorem build_strict_of_shared {routes : List Route} (h : ShareName routes) :
    Catalog.build true routes = .error ⟨repeatedNames routes⟩ := by
  have hne := (repeatedNames_ne_nil_iff routes).2 h
  rw [Catalog.build, if_pos rfl, Catalog.ofDistinct]
  cases hr : repeatedNames routes with
  | nil => exact absurd hr hne
  | cons n ns => rfl

/-- The file gives a catalog of these routes. -/
inductive Loads (tree : FileTree) (path : String) (strict : Bool) : List Route → Prop
  | intro {octets : List UInt8} {cs : List Char} {routes : List Route}
      (hread : tree.read path = .ok octets) (htext : Utf8.decode? octets = some cs)
      (hjson : readRoutes cs = .ok routes) (hsound : Route.defects routes = [])
      (hnames : strict = true → ¬ ShareName routes) : Loads tree path strict routes

/-- The file gives no catalog, and for this reason. -/
inductive Refused (tree : FileTree) (path : String) (strict : Bool) : Failure → Prop
  | unreadable {fault : FileFault} (h : tree.read path = .error fault) :
      Refused tree path strict (.file fault)
  | notText {octets : List UInt8} (hread : tree.read path = .ok octets)
      (h : Utf8.decode? octets = none) : Refused tree path strict (.file .notText)
  | notJson {octets : List UInt8} {cs : List Char} {fault : Json.Fault}
      (hread : tree.read path = .ok octets) (htext : Utf8.decode? octets = some cs)
      (h : readRoutes cs = .error fault) : Refused tree path strict (.json fault)
  | defective {octets : List UInt8} {cs : List Char} {routes : List Route}
      (hread : tree.read path = .ok octets) (htext : Utf8.decode? octets = some cs)
      (hjson : readRoutes cs = .ok routes) (h : Route.defects routes ≠ []) :
      Refused tree path strict (.defective (Route.defects routes))
  | repeated {octets : List UInt8} {cs : List Char} {routes : List Route}
      (hread : tree.read path = .ok octets) (htext : Utf8.decode? octets = some cs)
      (hjson : readRoutes cs = .ok routes) (hsound : Route.defects routes = [])
      (hstrict : strict = true) (h : ShareName routes) :
      Refused tree path strict (.repeated ⟨repeatedNames routes⟩)

theorem load_of_json {octets : List UInt8} {cs : List Char} {routes : List Route}
    (hread : tree.read path = .ok octets) (htext : Utf8.decode? octets = some cs)
    (hjson : readRoutes cs = .ok routes) :
    load tree path = if Route.defects routes = [] then .ok routes
      else .error (.defective (Route.defects routes)) := by
  rw [← String.toList_ofList (l := cs)] at hjson
  rw [load_of_text hread htext, decode_of_readRoutes hjson]

theorem loadCatalog_of_loads {routes : List Route} (h : Loads tree path strict routes) :
    loadCatalog tree path strict = .ok (Catalog.ofRoutes routes) := by
  obtain ⟨hread, htext, hjson, hsound, hnames⟩ := h
  have hload := load_of_json hread htext hjson
  rw [if_pos hsound] at hload
  rw [loadCatalog, hload]
  change (Catalog.build strict routes).mapError Failure.repeated = _
  rw [build_of_distinct hnames]
  rfl

theorem loadCatalog_of_refused {failure : Failure} (h : Refused tree path strict failure) :
    loadCatalog tree path strict = .error failure := by
  cases h with
  | unreadable h => exact loadCatalog_of_load_error (load_of_unreadable h)
  | notText hread h =>
    apply loadCatalog_of_load_error
    rw [load_of_octets hread, h]
  | @notJson octets cs fault hread htext h =>
    apply loadCatalog_of_load_error
    rw [← String.toList_ofList (l := cs)] at h
    rw [load_of_text hread htext, decode_of_readRoutes_error h]
  | defective hread htext hjson h =>
    apply loadCatalog_of_load_error
    rw [load_of_json hread htext hjson, if_neg h]
  | @repeated octets cs routes hread htext hjson hsound hstrict h =>
    subst hstrict
    have hload := load_of_json hread htext hjson
    rw [if_pos hsound] at hload
    rw [loadCatalog, hload]
    change (Catalog.build true routes).mapError Failure.repeated = _
    rw [build_strict_of_shared h]
    rfl

/-- Every file gives a catalog or a reason. -/
theorem loads_or_refused (tree : FileTree) (path : String) (strict : Bool) :
    (∃ routes, Loads tree path strict routes) ∨ ∃ failure, Refused tree path strict failure := by
  cases hread : tree.read path with
  | error fault => exact Or.inr ⟨_, .unreadable hread⟩
  | ok octets =>
    cases htext : Utf8.decode? octets with
    | none => exact Or.inr ⟨_, .notText hread htext⟩
    | some cs =>
      cases hjson : readRoutes cs with
      | error fault => exact Or.inr ⟨_, .notJson hread htext hjson⟩
      | ok routes =>
        by_cases hsound : Route.defects routes = []
        · by_cases hnames : strict = true ∧ ShareName routes
          · exact Or.inr ⟨_, .repeated hread htext hjson hsound hnames.1 hnames.2⟩
          · exact Or.inl ⟨routes, hread, htext, hjson, hsound, fun hs hshare => hnames ⟨hs, hshare⟩⟩
        · exact Or.inr ⟨_, .defective hread htext hjson hsound⟩

theorem loadCatalog_eq_ok_iff {catalog : Catalog} :
    loadCatalog tree path strict = .ok catalog ↔
      ∃ routes, Loads tree path strict routes ∧ catalog = Catalog.ofRoutes routes := by
  constructor
  · intro h
    rcases loads_or_refused tree path strict with ⟨routes, hr⟩ | ⟨failure, hr⟩
    · rw [loadCatalog_of_loads hr] at h
      exact ⟨routes, hr, (Except.ok.inj h).symm⟩
    · rw [loadCatalog_of_refused hr] at h
      cases h
  · rintro ⟨routes, hr, rfl⟩
    exact loadCatalog_of_loads hr

theorem loadCatalog_eq_error_iff {failure : Failure} :
    loadCatalog tree path strict = .error failure ↔ Refused tree path strict failure := by
  constructor
  · intro h
    rcases loads_or_refused tree path strict with ⟨routes, hr⟩ | ⟨failure', hr⟩
    · rw [loadCatalog_of_loads hr] at h
      cases h
    · rw [loadCatalog_of_refused hr] at h
      cases h
      exact hr
  · exact loadCatalog_of_refused

/-- Loading looks at nothing but the file at the path. -/
theorem loadCatalog_congr {tree' : FileTree} (h : tree'.read path = tree.read path) :
    loadCatalog tree' path strict = loadCatalog tree path strict := by
  simp only [loadCatalog, load, FileTree.readText, h]

theorem load_of_loads {routes : List Route} (h : Loads tree path strict routes) :
    load tree path = .ok routes := by
  obtain ⟨hread, htext, hjson, hsound, _⟩ := h
  rw [load_of_json hread htext hjson, if_pos hsound]

end

end RouteBook.Artifact
