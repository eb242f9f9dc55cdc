import RouteBook.CommandLine.Arguments
import RouteBook.CommandLine.Outcome
import RouteBook.Config.Reading

/-!
# The inspector

`route-cli` opens the registry that a configuration describes, and lists its routes,
resolves a name, or watches its artifact. It reads files and writes none.
-/

namespace RouteBook.CommandLine.Inspect
open Json (Layout)

/-! ## Requests -/

/-- The options before the command. -/
def grammar : Grammar where
  switches := [
    { long := "config", short := some 'c', value := some .path },
    { long := "file", short := some 'f', value := some .path },
    { long := "strict" }]
  commands := true

/-- The arguments of `list`. -/
def listGrammar : Grammar where
  switches := [{ long := "pretty", short := some 'p' }]

/-- The arguments of `resolve`: a name, and values. -/
def resolveGrammar : Grammar where
  switches := [
    { long := "arg", short := some 'a', value := some .pair, repeats := true },
    { long := "positional" },
    { long := "script-name", value := some .text }]
  positional := some .text

/-- The arguments of `watch`, of which there are none. -/
def watchGrammar : Grammar where
  switches := []

/-- What the inspector can do (`Commands`). -/
inductive Command where
  | list (layout : Layout)
  | resolve (scriptName name : String) (values : Option Values)
  | watch
deriving DecidableEq, Repr

/-- A request: a command, and what is said about the registry it works on (`Cli` of `route-cli`). -/
structure Request where
  config : Option String
  file : Option String
  strict : Bool
  command : Command
deriving DecidableEq, Repr

/-- How the inspector is called. -/
def usage : String :=
  "Usage: route-cli [-c CONFIG] [-f FILE] [--strict] list [-p]\n" ++
  "       route-cli [-c CONFIG] [-f FILE] [--strict] resolve NAME " ++
  "[-a KEY=VALUE]... [VALUES]... [--positional] [--script-name NAME]\n" ++
  "       route-cli [-c CONFIG] [-f FILE] [--strict] watch"

/-- A keyed value: what stands before and after the first equals sign (`parse_key_val`). -/
def keyedValue? (arg : String) : Option (String × String) :=
  match arg.toList.dropWhile (· ≠ '=') with
  | [] => none
  | _ :: value => some (String.ofList (arg.toList.takeWhile (· ≠ '=')), String.ofList value)

/-- The values that `resolve` is to use: keyed ones if there are any, else positional ones
if there are any or that is asked for. Keyed and positional values exclude each other. -/
def valuesOf (keyed : List (String × String)) (positional : Bool) (values : List String) :
    Except Refused (Option Values) :=
  if keyed.isEmpty then
    .ok (if positional || !values.isEmpty then some (.positional values) else none)
  else if positional || !values.isEmpty then .error .misused
  else .ok (some (.keyed keyed))

/-- The command `resolve`, from its arguments. -/
def readResolve (args : List String) : Except Refused Command := do
  let r ← read resolveGrammar args
  match r.positionals, (r.valuesOf "arg").mapM keyedValue? with
  | name :: values, some keyed => do
    let values ← valuesOf keyed (r.has "positional") values
    .ok (.resolve ((r.value? "script-name").getD "") name values)
  | _, _ => .error .misused

/-- The command `list`, from its arguments. -/
def readList (args : List String) : Except Refused Command := do
  let r ← read listGrammar args
  .ok (.list (if r.has "pretty" then .indented else .compact))

/-- The command `watch`, from its arguments. -/
def readWatch (args : List String) : Except Refused Command := do
  let _ ← read watchGrammar args
  .ok .watch

/-- What the command `help` says to its arguments: it wants at most one, the name of a
command. -/
def readHelp : List String → Refused
  | [] => .help
  | [name] => if name ∈ ["list", "resolve", "watch", "help"] then .help else .misused
  | _ => .misused

/-- A command, from its name and arguments. -/
def readCommand (name : String) (args : List String) : Except Refused Command :=
  match name with
  | "list" => readList args
  | "resolve" => readResolve args
  | "watch" => readWatch args
  | "help" => .error (readHelp args)
  | _ => .error .misused

/-- The request that arguments make. -/
def Request.ofArgs (args : List String) : Except Refused Request := do
  let r ← read grammar args
  match r.command with
  | none => .error .misused
  | some (name, args) => do
    let command ← readCommand name args
    let r ← r.settled
    .ok { config := r.value? "config", file := r.value? "file", strict := r.has "strict", command }

/-! ## Runs -/

/-- Why a request cannot be met. -/
inductive Failure where
  | config (failure : Config.Failure)
  | artifact (failure : Artifact.Failure)
  | refused (refusal : Refusal)
deriving DecidableEq, Repr

/-- The wording of a failure. -/
def Failure.message : Failure → String
  | .config failure => failure.message
  | .artifact failure => failure.message
  | .refused refusal => refusal.message

/-- The configuration of a request. A file that is named stands for itself, without the
root of the configuration. -/
def Request.configIn (request : Request) (tree : FileTree) : Except Failure Config := do
  let config ←
    match request.config with
    | none => .ok {}
    | some path => (Config.load tree path).mapError .config
  let config :=
    match request.file with
    | none => config
    | some file => { config with file, root := none }
  .ok { config with strictNames := config.strictNames || request.strict }

/-- The paths that a request reads, as far as the files seen so far tell: the configuration,
and once that can be read the artifact. -/
def Request.paths (request : Request) (tree : FileTree) : List String :=
  request.config.toList ++
    match request.configIn tree with
    | .ok config => [config.artifactPath]
    | .error _ => []

/-- Carries out a command on a registry. -/
def Command.run (command : Command) (registry : Registry) (artifact : String) :
    Result × List Event :=
  match command with
  | .list layout =>
    (.ended (.done (Artifact.encode layout registry.catalog.routes ++ "\n")), [])
  | .resolve scriptName name values =>
    match registry.resolveMounted scriptName name values with
    | (.ok path, report) => (.ended (.done (path ++ "\n")), report.events)
    | (.error refusal, report) =>
      (.ended (.failed (Failure.refused refusal).message), report.events)
  | .watch => (.watching (WatchLoop.start registry artifact), [.watchStarted artifact])

/-- Carries out a request (`run` of `route-cli`). -/
def Request.run (request : Request) (tree : FileTree) : Outcome :=
  match request.configIn tree with
  | .error failure => { result := .ended (.failed failure.message), tree }
  | .ok config =>
    let logLevel := config.observability.logLevel
    match Registry.openWith tree config with
    | (.error failure, report) =>
      let message := (Failure.artifact failure).message
      { result := .ended (.failed message), tree, logLevel, events := report.events }
    | (.ok registry, report) =>
      let (result, events) := request.command.run registry config.artifactPath
      { result, tree, logLevel, events := report.events ++ events }

/-- A run of the inspector on arguments. -/
def run (args : List String) (tree : FileTree) : Outcome :=
  match Request.ofArgs args with
  | .error .misused => { result := .ended .misused, tree }
  | .error .help => { result := .ended .help, tree }
  | .ok request => request.run tree

end RouteBook.CommandLine.Inspect
