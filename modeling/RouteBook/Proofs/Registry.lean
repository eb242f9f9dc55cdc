import RouteBook.Watch

/-!
# What loading an artifact leads to

Opening a registry, reading its artifact again and watching a file load a catalog in one way, and
each does nothing but pass on what was loaded. These equations say so without the events, and
hold for files of any content.
-/

namespace RouteBook

namespace Registry

theorem openWith_fst (tree : FileTree) (config : Config) :
    (openWith tree config).1 =
      (Artifact.loadCatalog tree config.artifactPath config.strictNames).map fun catalog =>
        { catalog, artifact := some config.artifactPath, strictNames := config.strictNames,
          addScriptName := config.addScriptName,
          metricsEnabled := config.observability.metricsEnabled } := by
  cases h : Artifact.loadCatalog tree config.artifactPath config.strictNames with
  | error failure => simp [openWith, Catalog.load, h, Except.map]
  | ok catalog => simp [openWith, Catalog.load, h, Except.map]

theorem reload_fst (r : Registry) (tree : FileTree) :
    (r.reload tree).1 = { r with
      catalog := (r.artifact.bind fun path =>
        (Artifact.loadCatalog tree path r.strictNames).toOption).getD r.catalog } := by
  obtain ⟨catalog, artifact, strictNames, addScriptName, metricsEnabled⟩ := r
  cases artifact with
  | none => rfl
  | some path =>
    cases h : Artifact.loadCatalog tree path strictNames with
    | error failure => simp [reload, Catalog.load, h, Except.toOption]
    | ok catalog' => simp [reload, Catalog.load, h, Except.toOption, publish]

theorem reload_backed {r : Registry} {path : String} (h : r.artifact = some path) (tree : FileTree) :
    (r.reload tree).1 = { r with
      catalog := (Artifact.loadCatalog tree path r.strictNames).toOption.getD r.catalog } := by
  have hbind : (r.artifact.bind fun path =>
      (Artifact.loadCatalog tree path r.strictNames).toOption) =
        (Artifact.loadCatalog tree path r.strictNames).toOption := by
    rw [h, Option.bind_some]
  rw [reload_fst, hbind]

theorem reload_result {r : Registry} {path : String} (h : r.artifact = some path) (tree : FileTree) :
    (r.reload tree).2.1 = (Artifact.loadCatalog tree path r.strictNames).map fun _ => () := by
  unfold reload
  rw [h]
  cases hl : Artifact.loadCatalog tree path r.strictNames with
  | error failure => simp [Catalog.load, hl, Except.map]
  | ok catalog => simp [Catalog.load, hl, Except.map]

theorem resolve_fst (r : Registry) (name : String) (values : Option Values) :
    (r.resolve name values).1 = r.catalog.resolve name values := by
  unfold resolve
  split
  · next h => exact h.symm
  · next h => exact h.symm

end Registry

theorem Watcher.reload_fst (watcher : Watcher) (tree : FileTree) :
    (watcher.reload tree).1 = (Artifact.loadCatalog tree watcher.path watcher.strict).toOption := by
  cases h : Artifact.loadCatalog tree watcher.path watcher.strict with
  | error failure => simp [reload, Catalog.load, h, Except.toOption]
  | ok catalog => simp [reload, Catalog.load, h, Except.toOption]

end RouteBook
