import RouteBook.CommandLine.Program
import RouteBook.Disk
import RouteBook.LogFilter

/-!
# The command line

The outer side of the two programs: it takes up the files that a run is about, carries out
the run, writes out what has changed, and prints. The name under which it is called says
which program it is; under any other name the first argument does.
-/

namespace RouteBook.CommandLine

/-- A value as a log line shows it. -/
def fieldText : Field → String
  | .text s => s
  | .number n => toString n
  | .flag b => toString b

/-- The log line of an event. -/
def logLine (event : Event) : String :=
  let level :=
    match event.level with
    | .error => "ERROR"
    | .warn => "WARN"
    | .info => "INFO"
    | .debug => "DEBUG"
    | .trace => "TRACE"
  let fields := event.fields.map fun (name, value) => " " ++ name ++ "=" ++ fieldText value
  level ++ " " ++ event.target ++ ": " ++ event.message ++ String.join fields

/-- Logs the events that a level lets through. -/
def log (level : String) (events : List Event) : IO Unit := do
  for event in events do
    if LogFilter.allows level event.target event.level then
      IO.eprintln (logLine event)

/-- Prints how a run ended, and gives its exit code. -/
def finish (program : Program) (ending : Ending) : IO UInt32 := do
  match ending with
  | .done output => IO.print output
  | .failed _ => IO.eprintln (ending.complaint?.getD "")
  | .misused => IO.eprintln program.usage
  | .help => IO.println program.usage
  return ending.code.toUInt32

/-- Prints the latest summary. -/
def printSummary (loop : WatchLoop) : IO Unit := do
  for line in loop.printed.head?.getD [] do
    IO.println line
  (← IO.getStdout).flush

/-- Keeps a registry up to date for as long as the program runs. `seen` holds the artifact
as it was last found. -/
partial def keepWatch (logLevel : String) (loop : WatchLoop) (seen : FileTree) : IO Unit := do
  IO.sleep 200
  let tree ← Disk.take [loop.watcher.path]
  if tree = seen then
    keepWatch logLevel loop seen
  else
    let (next, report) := loop.run [.change tree, .take]
    log logLevel report.events
    if loop.printed.length < next.printed.length then
      printSummary next
    keepWatch logLevel next tree

/-- Carries out a run of a program. -/
def carryOut (program : Program) (args : List String) : IO UInt32 := do
  let known ← Disk.take (program.paths args {})
  let tree ← Disk.take (program.paths args known)
  let input ←
    if program.readsInput args then pure (← (← IO.getStdin).readBinToEnd).toList else pure []
  let outcome := program.run args tree input
  Disk.bring tree outcome.tree
  log outcome.logLevel outcome.events
  match outcome.result with
  | .ended ending => finish program ending
  | .watching loop =>
    let seen ← Disk.take [loop.watcher.path]
    printSummary loop
    keepWatch outcome.logLevel loop seen
    return 0

end RouteBook.CommandLine

open RouteBook.CommandLine in
/-- Runs the program that the name of the executable says, or else the first argument. -/
def main (args : List String) : IO UInt32 := do
  let called := (← IO.appPath).fileName.getD ""
  match Program.ofName? called, args with
  | some program, args => carryOut program args
  | none, [] => IO.eprintln "Usage: PROGRAM [ARGS]..."; return 2
  | none, first :: rest =>
    match Program.ofName? first with
    | some program => carryOut program rest
    | none => IO.eprintln ("No program has the name " ++ first); return 2
