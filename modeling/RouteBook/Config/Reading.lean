import RouteBook.Config
import RouteBook.FileTree
import RouteBook.Toml.Document

/-!
# Reading a configuration

A configuration is a TOML document. Settings that are missing keep their defaults, settings
that are not known are ignored, and a known one must have its type. Only a document that
can be read is then searched for defects.
-/

namespace RouteBook.Config
open Toml (Item Members)

/-- Why a configuration is refused (`ConfigError`). -/
inductive Failure where
  | file (fault : FileFault)
  /-- The text is no TOML, or a setting has the wrong type. -/
  | unreadable
  | defective (defects : List Defect)
deriving DecidableEq, Repr

/-- The wording of a failure. Where the text is at fault, the place in it is not told. -/
def Failure.message : Failure → String
  | .file fault => "IO error: " ++ fault.message
  | .unreadable => "Parse error"
  | .defective defects => "Validation failed: " ++ ", ".intercalate (defects.map Defect.message)

/-- A failure that wraps another error, as all do but defects. -/
def Failure.hasCause : Failure → Bool
  | .defective _ => false
  | _ => true

/-- A setting that is a string, or its default where it is missing. -/
def stringOr (default : String) : Option Item → Option String
  | none => some default
  | some (.string s) => some s
  | some _ => none

/-- A setting that is a truth value, or its default where it is missing. -/
def booleanOr (default : Bool) : Option Item → Option Bool
  | none => some default
  | some (.boolean b) => some b
  | some _ => none

/-- A setting that is a string and may be missing. -/
def string? : Option Item → Option (Option String)
  | none => some none
  | some (.string s) => some (some s)
  | some _ => none

/-- What is reported, from its two settings. -/
def observabilityOf (level metrics : Option Item) : Option Observability := do
  let default : Observability := {}
  let logLevel ← stringOr default.logLevel level
  let metricsEnabled ← booleanOr default.metricsEnabled metrics
  some { logLevel, metricsEnabled }

/-- What is reported: a table with the two settings, or an array with the level first. A
time is taken for a table with neither of them. -/
def observability? : Option Item → Option Observability
  | none => some {}
  | some (.table _ members) =>
    observabilityOf (members.lookup "log_level") (members.lookup "metrics_enabled")
  | some (.array items) => observabilityOf items[0]? items[1]?
  | some (.time _) => some {}
  | some _ => none

/-- The configuration that the members of a document make up. -/
def ofMembers (members : Members) : Option Config := do
  let default : Config := {}
  let file ← stringOr default.file (members.lookup "file")
  let root ← string? (members.lookup "root")
  let addScriptName ← booleanOr default.addScriptName (members.lookup "add_script_name")
  let strictNames ← booleanOr default.strictNames (members.lookup "strict_names")
  let observability ← observability? (members.lookup "observability")
  some { file, root, addScriptName, strictNames, observability }

/-- The configuration that a text is (`parse_config`). -/
def ofText (text : String) : Except Failure Config :=
  match (Toml.document? text).bind ofMembers with
  | none => .error .unreadable
  | some config =>
    match config.defects with
    | [] => .ok config
    | defects => .error (.defective defects)

/-- The configuration in a file (`load_config`). -/
def load (tree : FileTree) (path : String) : Except Failure Config := do
  ofText (← (tree.readText path).mapError .file)

end RouteBook.Config
