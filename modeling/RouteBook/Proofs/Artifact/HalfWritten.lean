import RouteBook.Proofs.Artifact.CutShort
import RouteBook.Proofs.Artifact.Loading
import RouteBook.Proofs.Registry

/-!
# Artifacts that are read while they are written

An artifact is written in place, and whoever reads it meanwhile finds the octets written so far.
If some are missing, whoever loads the file fails and leaves the registry as it was
(`Unloadable`); and the beginning of any file that can be loaded holds the routes of the whole
file, if it can be loaded at all (`OnlyHolds`). Main statement: `halfWritten_never_whole`.
-/

namespace RouteBook.Artifact
open Json (Layout Spaces)
open Text

/-! ## Texts -/

/-- A written text that lacks some of its end is refused for that. -/
theorem decode_cut {layout : Layout} {routes : List Route} {part : List Char}
    (h : Cut part (encodeChars layout routes)) :
    ∃ fault, decode (String.ofList part) = .error (.json fault) ∧ fault.category = .truncated := by
  obtain ⟨fault, hread, hcategory⟩ := readRoutes_cut h
  rw [← String.toList_ofList (l := part)] at hread
  exact ⟨fault, decode_of_readRoutes_error hread, hcategory⟩

/-- The beginning of a text that is accepted is refused, or it lacks nothing but white space. -/
theorem decode_append {text : String} {routes : List Route} (h : decode text = .ok routes)
    {part rest : List Char} (ht : text.toList = part ++ rest) :
    (∃ failure, decode (String.ofList part) = .error failure) ∨
      decode (String.ofList part) = .ok routes ∧ Spaces rest := by
  cases hpart : decode (String.ofList part) with
  | error failure => exact Or.inl ⟨failure, rfl⟩
  | ok found =>
    right
    have hfound := (decode_eq_ok_iff.1 hpart).1
    have hroutes := (decode_eq_ok_iff.1 h).1
    rw [String.toList_ofList] at hfound
    rw [ht] at hroutes
    obtain ⟨rfl, hrest⟩ := readRoutes_append hfound hroutes
    exact ⟨rfl, hrest⟩

/-! ## Files -/

/-- The artifact at a path cannot be loaded, since it is no text or a text that ends too early;
nothing is opened, published or forwarded. -/
structure Unloadable (tree : FileTree) (path : String) : Prop where
  loaded : load tree path = .error (.file .notText) ∨
    ∃ fault, load tree path = .error (.json fault) ∧ fault.category = .truncated
  opened : ∀ config : Config, config.artifactPath = path →
    ∃ failure, (Registry.openWith tree config).1 = .error failure
  reloaded : ∀ registry : Registry, registry.artifact = some path →
    (registry.reload tree).1 = registry ∧ ∃ failure, (registry.reload tree).2.1 = .error failure
  forwarded : ∀ strict, (Watcher.reload ⟨path, strict⟩ tree).1 = none

/-- No routes but these are loaded from a path, opened, published or forwarded. -/
structure OnlyHolds (tree : FileTree) (path : String) (routes : List Route) : Prop where
  loaded : ∀ found, load tree path = .ok found → found = routes
  opened : ∀ (config : Config) (registry : Registry), config.artifactPath = path →
    (Registry.openWith tree config).1 = .ok registry → registry.catalog = Catalog.ofRoutes routes
  reloaded : ∀ registry : Registry, registry.artifact = some path →
    (registry.reload tree).1 = registry ∨
      (registry.reload tree).1 = { registry with catalog := Catalog.ofRoutes routes }
  forwarded : ∀ strict catalog, (Watcher.reload ⟨path, strict⟩ tree).1 = some catalog →
    catalog = Catalog.ofRoutes routes

theorem unloadable_of_load {tree : FileTree} {path : String}
    (h : load tree path = .error (.file .notText) ∨
      ∃ fault, load tree path = .error (.json fault) ∧ fault.category = .truncated) :
    Unloadable tree path := by
  have hfailed : ∃ failure, load tree path = .error failure := by
    rcases h with hload | ⟨fault, hload, _⟩
    · exact ⟨_, hload⟩
    · exact ⟨_, hload⟩
  obtain ⟨failure, hload⟩ := hfailed
  have hcatalog : ∀ strict, loadCatalog tree path strict = .error failure := by
    intro strict
    exact loadCatalog_of_load_error hload
  refine ⟨h, ?_, ?_, ?_⟩
  · rintro config rfl
    rw [Registry.openWith_fst, hcatalog]
    exact ⟨failure, rfl⟩
  · intro registry hpath
    rw [Registry.reload_backed hpath, Registry.reload_result hpath, hcatalog]
    exact ⟨rfl, failure, rfl⟩
  · intro strict
    rw [Watcher.reload_fst, hcatalog]
    rfl

theorem onlyHolds_of_load {tree : FileTree} {path : String} {routes : List Route}
    (h : ∀ found, load tree path = .ok found → found = routes) : OnlyHolds tree path routes := by
  have hcatalog : ∀ strict catalog, loadCatalog tree path strict = .ok catalog →
      catalog = Catalog.ofRoutes routes := by
    intro strict catalog hl
    obtain ⟨found, hfound, rfl⟩ := loadCatalog_eq_ok_iff.1 hl
    rw [h found (load_of_loads hfound)]
  refine ⟨h, ?_, ?_, ?_⟩
  · rintro config registry rfl hopen
    rw [Registry.openWith_fst] at hopen
    cases hl : loadCatalog tree config.artifactPath config.strictNames with
    | error failure =>
      rw [hl] at hopen
      cases hopen
    | ok catalog =>
      rw [hl] at hopen
      cases hopen
      exact hcatalog _ catalog hl
  · intro registry hpath
    rw [Registry.reload_backed hpath]
    cases hl : loadCatalog tree path registry.strictNames with
    | error failure => exact Or.inl rfl
    | ok catalog =>
      right
      rw [hcatalog _ catalog hl]
      rfl
  · intro strict catalog hw
    rw [Watcher.reload_fst] at hw
    cases hl : loadCatalog tree path strict with
    | error failure =>
      rw [hl] at hw
      cases hw
    | ok catalog' =>
      rw [hl] at hw
      cases hw
      exact hcatalog strict catalog hl

/-- A file that is only partly written cannot be loaded. -/
theorem unloadable_of_cut {tree : FileTree} {path : String} {octets : List UInt8} {layout : Layout}
    {routes : List Route} (h : tree.read path = .ok octets)
    (hcut : Cut octets (Utf8.encode (encodeChars layout routes))) : Unloadable tree path := by
  apply unloadable_of_load
  rw [load_of_octets h]
  cases hd : Utf8.decode? octets with
  | none => exact Or.inl rfl
  | some part =>
    obtain ⟨hpart, rfl⟩ := Text.Utf8.decode?_prefix hcut.1 hd
    have hne : part ≠ encodeChars layout routes := by
      rintro rfl
      exact hcut.2 rfl
    exact Or.inr (decode_cut ⟨hpart, hne⟩)

/-- The beginning of a file that can be loaded holds the routes of all of it, or cannot be
loaded. -/
theorem onlyHolds_of_beginning {tree : FileTree} {path : String} {octets : List UInt8} {text : String}
    {routes : List Route} (h : tree.read path = .ok octets) (hdecode : decode text = .ok routes)
    (hbegin : octets <+: Utf8.encode text.toList) : OnlyHolds tree path routes := by
  apply onlyHolds_of_load
  intro found hfound
  rw [load_of_octets h] at hfound
  cases hd : Utf8.decode? octets with
  | none =>
    rw [hd] at hfound
    cases hfound
  | some part =>
    rw [hd] at hfound
    change decode (String.ofList part) = .ok found at hfound
    obtain ⟨⟨rest, hrest⟩, _⟩ := Text.Utf8.decode?_prefix hbegin hd
    rcases decode_append hdecode hrest.symm with ⟨failure, hfailure⟩ | ⟨hpart, _⟩
    · rw [hfailure] at hfound
      cases hfound
    · rw [hpart] at hfound
      exact (Except.ok.inj hfound).symm

/-- **Half written**: a text that was written and lacks some of its end is refused as one that ends
too early, and the beginning of any text that is accepted is refused, or holds the same routes and
lacks nothing but white space. So a file that holds the beginning of an artifact never gives a
part of its routes: it cannot be loaded, or it gives all of them. -/
theorem halfWritten_never_whole :
    (∀ layout routes part, Cut part (encodeChars layout routes) →
      ∃ fault, decode (String.ofList part) = .error (.json fault) ∧ fault.category = .truncated) ∧
    (∀ text routes part rest, decode text = .ok routes → text.toList = part ++ rest →
      (∃ failure, decode (String.ofList part) = .error failure) ∨
        decode (String.ofList part) = .ok routes ∧ Spaces rest) ∧
    (∀ tree path octets layout routes, tree.read path = .ok octets →
      Cut octets (Utf8.encode (encodeChars layout routes)) → Unloadable tree path) ∧
    (∀ tree path octets text routes, tree.read path = .ok octets → decode text = .ok routes →
      octets <+: Utf8.encode text.toList → OnlyHolds tree path routes) := by
  refine ⟨?_, ?_, ?_, ?_⟩
  · intro layout routes part h
    exact decode_cut h
  · intro text routes part rest h ht
    exact decode_append h ht
  · intro tree path octets layout routes h hcut
    exact unloadable_of_cut h hcut
  · intro tree path octets text routes h hdecode hbegin
    exact onlyHolds_of_beginning h hdecode hbegin

/-- A file of which only the opening bracket has been written. -/
def bracketOnly : FileTree :=
  { entries := [(["routes.json"], .file [0x5B])] }

/-- The bracket alone is refused, as text and as a file. An accepted text without its line feed is
as good as with it, and a file with the bracket holds nothing that the whole text does not. -/
theorem halfWritten_bracketOnly :
    (∃ fault, decode (String.ofList ['[']) = .error (.json fault) ∧ fault.category = .truncated) ∧
    ((∃ failure, decode (String.ofList "[[\"/a\"]]".toList) = .error failure) ∨
      decode (String.ofList "[[\"/a\"]]".toList) = .ok [{ path := "/a" }] ∧ Spaces ['\n']) ∧
    Unloadable bracketOnly "routes.json" ∧
    OnlyHolds bracketOnly "routes.json" [{ path := "/a" }] := by
  have hread : bracketOnly.read "routes.json" = .ok [0x5B] := by rfl
  have hwhole : decode "[[\"/a\"]]\n" = .ok [{ path := "/a" }] := by rfl
  have hpieces : "[[\"/a\"]]\n".toList = "[[\"/a\"]]".toList ++ ['\n'] := by decide
  have hcut : Cut ['['] (encodeChars .compact [{ path := "/a" }]) := by decide
  have hoctets : Cut [0x5B] (Utf8.encode (encodeChars .compact [{ path := "/a" }])) := by decide
  have hbegin : [0x5B] <+: Utf8.encode "[[\"/a\"]]\n".toList := by decide
  obtain ⟨htext, haccepted, hfile, honly⟩ := halfWritten_never_whole
  exact ⟨htext _ _ _ hcut, haccepted _ _ _ _ hwhole hpieces, hfile _ _ _ _ _ hread hoctets,
    honly _ _ _ _ _ hread hwhole hbegin⟩

end RouteBook.Artifact
