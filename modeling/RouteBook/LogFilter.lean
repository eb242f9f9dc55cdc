import RouteBook.Config
import RouteBook.Report

/-!
# Which events are logged

A filter lets through, for the library and its two programs, the events of a level and of
all weightier levels; of other origins it lets nothing through.
-/

namespace RouteBook.LogFilter

/-- The origins whose events can be logged; events of parts of them count as theirs. -/
def targets : List String := ["route_list", "route_parser", "route_cli"]

/-- The text of the filter for a level (`default_filter`). -/
def text (level : String) : String :=
  ",".intercalate (targets.map fun target => target ++ "=" ++ level)

/-- The place of a level, from the weightiest on. -/
def rank : Level → Nat
  | .error => 1
  | .warn => 2
  | .info => 3
  | .debug => 4
  | .trace => 5

/-- How many levels the name of a level lets through; `off` and unknown names none. -/
def threshold (level : String) : Nat :=
  match level with
  | "error" => 1
  | "warn" => 2
  | "info" => 3
  | "debug" => 4
  | "trace" => 5
  | _ => 0

/-- The filter for a level, which may be written in any case, lets an event through
(`level_filter`). -/
def allows (level target : String) (event : Level) : Bool :=
  (targets.any fun known => known.isPrefixOf target) &&
    rank event ≤ threshold (Text.lowercase level)

end RouteBook.LogFilter
