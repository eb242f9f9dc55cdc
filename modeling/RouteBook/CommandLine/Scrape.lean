import RouteBook.Artifact.Store
import RouteBook.CommandLine.Arguments
import RouteBook.CommandLine.Outcome
import RouteBook.Annotations

/-!
# The scraper

`route-parser` collects the annotations of source files, or of standard input if none are
named, and writes them as an artifact to a file or, for the file name `-`, to standard
output.
-/

namespace RouteBook.CommandLine.Scrape
open Json (Layout)

/-- The arguments of the scraper. -/
def grammar : Grammar where
  switches := [
    { long := "file", short := some 'f', value := some .path },
    { long := "pretty", short := some 'p' },
    { long := "log-level", value := some .text }]
  positional := some .path

/-- What a run of the scraper is asked to do (`Cli` of `route-parser`). -/
structure Request where
  /-- Where the artifact goes. -/
  file : String
  layout : Layout
  logLevel : String
  /-- The source files; none means standard input. -/
  inputs : List String
deriving DecidableEq, Repr

/-- How the scraper is called. -/
def usage : String :=
  "Usage: route-parser [-f FILE] [-p] [--log-level LEVEL] [INPUTS]..."

/-- The request that arguments make. -/
def Request.ofArgs (args : List String) : Except Refused Request := do
  let r ← read grammar args
  .ok {
    file := (r.value? "file").getD "routes.json"
    layout := if r.has "pretty" then .indented else .compact
    logLevel := (r.value? "log-level").getD "warn"
    inputs := r.positionals }

/-- The routes that a request is about, with the events of reading them. -/
def Request.routes (request : Request) (tree : FileTree) (stdin : List UInt8) :
    Except FileFault (List Route) × List Event :=
  if request.inputs.isEmpty then (.ok (Annotations.ofOctets stdin), [])
  else Source.scan tree request.inputs

/-- The paths that a request reads or writes. -/
def Request.paths (request : Request) : List String :=
  if request.file = "-" then request.inputs else request.inputs ++ [request.file]

/-- Writes the routes that were found to where a request wants them. -/
def Request.deliver (request : Request) (tree : FileTree) (routes : List Route) :
    Ending × FileTree × List Event :=
  if request.file = "-" then
    (.done (Artifact.encode request.layout routes ++ "\n"), tree, [])
  else
    match Artifact.save tree request.file request.layout routes with
    | (.ok (), tree, events) => (.done "", tree, events)
    | (.error failure, tree, events) => (.failed failure.message, tree, events)

/-- Carries out a request (`run` of `route-parser`). -/
def Request.run (request : Request) (tree : FileTree) (stdin : List UInt8) : Outcome :=
  let logLevel := request.logLevel
  match request.routes tree stdin with
  | (.error fault, events) => { result := .ended (.failed fault.message), tree, logLevel, events }
  | (.ok routes, events) =>
    let scanned := .inputsScanned routes.length request.inputs.length
    let (ending, tree, more) := request.deliver tree routes
    { result := .ended ending, tree, logLevel, events := events ++ scanned :: more }

/-- A run of the scraper on arguments. -/
def run (args : List String) (tree : FileTree) (stdin : List UInt8) : Outcome :=
  match Request.ofArgs args with
  | .error .misused => { result := .ended .misused, tree }
  | .error .help => { result := .ended .help, tree }
  | .ok request => request.run tree stdin

end RouteBook.CommandLine.Scrape
