import RouteBook.Watch

/-!
# What becomes of a run

A run prints its result and succeeds, or it fails with one message, or its arguments are
wrong and it does nothing at all; or it keeps watch and has no end of its own. Beside that
stand the files after the run and what is to be logged of it.
-/

namespace RouteBook.CommandLine

/-- The end of a run. -/
inductive Ending where
  /-- Success, with what was printed. -/
  | done (output : String)
  /-- Failure of a step; nothing was printed before. -/
  | failed (message : String)
  /-- The arguments are wrong. -/
  | misused
  /-- Help was asked for. -/
  | help
deriving DecidableEq, Repr

namespace Ending

/-- The exit code of a run. -/
def code : Ending → Nat
  | .done _ | .help => 0
  | .failed _ => 1
  | .misused => 2

/-- What the run printed as its result. -/
def output : Ending → String
  | .done output => output
  | _ => ""

/-- What the run says about a failure. -/
def complaint? : Ending → Option String
  | .failed message => some ("Error: " ++ message)
  | _ => none

end Ending

/-- A run ends, or goes on and keeps a registry up to date. -/
inductive Result where
  | ended (ending : Ending)
  | watching (loop : WatchLoop)
deriving DecidableEq, Repr

/-- What becomes of a run. -/
structure Outcome where
  result : Result
  /-- The files after the run. -/
  tree : FileTree
  /-- The level from which on events are logged. -/
  logLevel : String := "off"
  events : List Event := []
deriving DecidableEq, Repr

end RouteBook.CommandLine
