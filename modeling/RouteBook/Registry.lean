import RouteBook.Artifact.Store
import RouteBook.Config
import RouteBook.Report

/-!
# The registry of routes

A registry has one catalog published at a time. It is opened from an artifact, or made of
routes at hand; a catalog can be published in place of the current one, and the artifact
can be read again. A reading that fails leaves the registry as it was. Whoever took the
catalog before keeps what was taken.
-/

namespace RouteBook

/-- The events of a catalog that was loaded from a path. -/
def Catalog.loadEvents (catalog : Catalog) (path : String) : List Event :=
  (redefinitions catalog.routes).map .redefined ++ [.artifactLoaded path catalog.size]

/-- Loads the catalog of an artifact (`load_index`). A failed reading reports nothing by itself.
-/
def Catalog.load (tree : FileTree) (path : String) (strict : Bool) :
    Except Artifact.Failure Catalog × List Event :=
  match Artifact.loadCatalog tree path strict with
  | .ok catalog => (.ok catalog, catalog.loadEvents path)
  | .error failure => (.error failure, [])

/-- A published catalog with the settings under which it is used (`RouteTable`). -/
structure Registry where
  /-- The catalog that is published now. -/
  catalog : Catalog
  /-- Where the catalog can be read again, if it was read. -/
  artifact : Option String := none
  strictNames : Bool := false
  addScriptName : Bool := false
  metricsEnabled : Bool := false
deriving DecidableEq, Repr

namespace Registry

/-- The marks of the current catalog's publication (`record_loaded`). -/
def publicationMarks (registry : Registry) : List Mark :=
  if registry.metricsEnabled then [.published registry.catalog.size] else []

/-- Opens the registry that a configuration describes (`open` of `RouteTable`). -/
def openWith (tree : FileTree) (config : Config) :
    Except Artifact.Failure Registry × Report :=
  let path := config.artifactPath
  match Catalog.load tree path config.strictNames with
  | (.error failure, events) => (.error failure, { events })
  | (.ok catalog, events) =>
    let registry : Registry :=
      { catalog, artifact := some path, strictNames := config.strictNames,
        addScriptName := config.addScriptName,
        metricsEnabled := config.observability.metricsEnabled }
    (.ok registry, { events, marks := registry.publicationMarks })

/-- A registry of a catalog at hand, which no artifact stands behind (`from_index` of
`RouteTable`). -/
def ofCatalog (catalog : Catalog) : Registry :=
  { catalog }

/-- Switches the name of the mount point on or off (`with_script_name`). -/
def withScriptName (registry : Registry) (enabled : Bool) : Registry :=
  { registry with addScriptName := enabled }

/-- Publishes a catalog in place of the current one (`replace` of `RouteTable`). -/
def publish (registry : Registry) (catalog : Catalog) : Registry × Report :=
  let registry := { registry with catalog }
  (registry, { events := [.published catalog.size], marks := registry.publicationMarks })

/-- Reads the artifact again and publishes what it holds (`reload` of `RouteTable`). Without an
artifact there is nothing to do; on a failure the current catalog stays. -/
def reload (registry : Registry) (tree : FileTree) :
    Registry × Except Artifact.Failure Unit × Report :=
  match registry.artifact with
  | none => (registry, .ok (), {})
  | some path =>
    match Catalog.load tree path registry.strictNames with
    | (.ok catalog, events) =>
      let (registry, report) := registry.publish catalog
      (registry, .ok (), { events } ++ report)
    | (.error failure, events) =>
      (registry, .error failure, { events := events ++ [.reloadFailed path failure] })

/-- Resolves a name with the current catalog (`resolve` of `RouteTable`). -/
def resolve (registry : Registry) (name : String) (values : Option Values) :
    Except Refusal String × Report :=
  match registry.catalog.resolve name values with
  | .ok path => (.ok path, {})
  | .error refusal =>
    (.error refusal,
      { events := [.resolutionRefused refusal],
        marks := if registry.metricsEnabled then [.refused refusal.kind] else [] })

/-- Resolves a name, with the name of the mount point in front where that is wanted
(`resolve_mounted`). -/
def resolveMounted (registry : Registry) (scriptName name : String) (values : Option Values) :
    Except Refusal String × Report :=
  let (result, report) := registry.resolve name values
  (result.map fun path => if registry.addScriptName then scriptName ++ path else path, report)

end Registry

end RouteBook
