/-!
# Configuration

Where the artifact lies, how strict its reading is, and what is reported. Every setting has
a default, so that nothing need be configured. Names of levels may be written in any case, where only
ASCII letters have case.
-/

namespace RouteBook

/-- A text with its capital ASCII letters made small. -/
def Text.lowercase (s : String) : String :=
  String.ofList (s.toList.map Char.toLower)

/-- What is reported, and where from (`ObservabilityConfig`). -/
structure Observability where
  /-- One of the log levels, in any case. -/
  logLevel : String := "info"
  metricsEnabled : Bool := true
deriving DecidableEq, Repr

/-- The settings of a registry of routes (`RouteListConfig`). -/
structure Config where
  /-- The artifact, seen from `root` unless it is absolute. -/
  file : String := "routes.json"
  root : Option String := none
  /-- Paths are given with the name of the mount point in front. -/
  addScriptName : Bool := false
  /-- An artifact that repeats a name is refused. -/
  strictNames : Bool := false
  observability : Observability := {}
deriving DecidableEq, Repr

namespace Config

/-- A path seen from a root: an absolute path stands alone, others follow after a slash. -/
def join (root path : String) : String :=
  if path.toList.head? = some '/' then path
  else if root.toList.getLast?.all (· = '/') then root ++ path
  else root ++ "/" ++ path

/-- Where the artifact lies (`artifact_path`). -/
def artifactPath (config : Config) : String :=
  match config.root with
  | none => config.file
  | some root => join root config.file

/-- The log levels, from the most talkative to the least (`LOG_LEVELS`). -/
def logLevels : List String := ["trace", "debug", "info", "warn", "error"]

/-- A setting that makes no sense (`ValidationError`). -/
inductive Defect where
  | emptyFile
  | unknownLevel (level : String)
deriving DecidableEq, Repr

/-- The wording of a defect. -/
def Defect.message : Defect → String
  | .emptyFile => "file must not be empty"
  | .unknownLevel level =>
    let known := ", ".intercalate logLevels
    s!"unknown log level '{level}' (expected one of {known})"

/-- The defects of a configuration: the file first, then the level (`validate_config`). -/
def defects (config : Config) : List Defect :=
  (if config.file.isEmpty then [.emptyFile] else []) ++
    (if Text.lowercase config.observability.logLevel ∈ logLevels then []
      else [.unknownLevel config.observability.logLevel])

end Config

end RouteBook
