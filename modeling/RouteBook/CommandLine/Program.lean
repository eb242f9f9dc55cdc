import RouteBook.CommandLine.Inspect
import RouteBook.CommandLine.Scrape

/-!
# The two programs

Either program is a function from its arguments, the files and the standard input to what
becomes of the run. Which files a run is about can be told beforehand, as far as the files
that are known already tell.
-/

namespace RouteBook.CommandLine

/-- A program. -/
inductive Program where
  | scraper
  | inspector
deriving DecidableEq, Repr

namespace Program

/-- The name under which a program is called. -/
def name : Program → String
  | .scraper => "route-parser"
  | .inspector => "route-cli"

/-- The program of a name. -/
def ofName? (name : String) : Option Program :=
  [scraper, inspector].find? fun program => program.name = name

/-- How a program is called. -/
def usage : Program → String
  | .scraper => Scrape.usage
  | .inspector => Inspect.usage

/-- The paths that a run reads or writes, as far as the files in `tree` tell. -/
def paths (program : Program) (args : List String) (tree : FileTree) : List String :=
  match program with
  | .scraper => ((Scrape.Request.ofArgs args).map fun r => r.paths).toOption.getD []
  | .inspector => ((Inspect.Request.ofArgs args).map fun r => r.paths tree).toOption.getD []

/-- A run reads the standard input. -/
def readsInput (program : Program) (args : List String) : Bool :=
  match program, Scrape.Request.ofArgs args with
  | .scraper, .ok request => request.inputs.isEmpty
  | _, _ => false

/-- A run of a program. -/
def run (program : Program) (args : List String) (tree : FileTree) (stdin : List UInt8) :
    Outcome :=
  match program with
  | .scraper => Scrape.run args tree stdin
  | .inspector => Inspect.run args tree

end Program

end RouteBook.CommandLine
