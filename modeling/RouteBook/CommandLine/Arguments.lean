/-!
# Arguments of a command

Options are written `--name value`, `--name=value`, `-n value`, `-nvalue` or `-n=value`,
flags `--name` or `-n`; short flags can be joined, also with an option at their end. After
`--` nothing is an option any more, and `-` alone never is one. A value that is an argument
of its own must not look like an option. Where commands are wanted, the first argument that
is no option is the command, and all after it belongs to the command.

Arguments are read from left to right, and the first that is wrong, or asks for help,
decides. Only what can be repeated may be, and a value must be of its kind. A value that is
an argument of its own is looked at when the next switch comes or the arguments end, and
thus after the arguments of a command that follows it.
-/

namespace RouteBook.CommandLine

/-- The kinds of values. -/
inductive Kind where
  | text
  /-- A text that is not empty. -/
  | path
  /-- A key and a value with an equals sign between them. -/
  | pair
deriving DecidableEq, Repr

/-- The kind accepts a value. -/
def Kind.accepts (kind : Kind) (value : String) : Bool :=
  match kind with
  | .text => true
  | .path => value ≠ ""
  | .pair => value.toList.contains '='

/-- A flag or option that is understood. -/
structure Switch where
  long : String
  short : Option Char := none
  /-- The kind of its value, if it takes one. -/
  value : Option Kind := none
  /-- It can be given more than once. -/
  repeats : Bool := false
deriving DecidableEq, Repr

/-- The arguments that are understood. -/
structure Grammar where
  switches : List Switch
  /-- The kind of arguments that are no options, if there can be such. -/
  positional : Option Kind := none
  /-- The first argument that is no option is a command. -/
  commands : Bool := false
deriving DecidableEq, Repr

/-- Why arguments lead to no action. -/
inductive Refused where
  /-- The arguments are wrong. -/
  | misused
  /-- Help was asked for. -/
  | help
deriving DecidableEq, Repr

/-- What an argument, or two together, amount to. -/
inductive Given where
  | flag (long : String)
  | value (long value : String)
  | positional (value : String)
deriving DecidableEq, Repr

/-- Something given stands for a flag or option. -/
def Given.isFor (g : Given) (long : String) : Bool :=
  match g with
  | .flag l | .value l _ => l = long
  | .positional _ => false

/-- An argument by its looks. -/
inductive Shape where
  /-- Two dashes and nothing else. -/
  | separator
  /-- Two dashes, a name, and perhaps a value after an equals sign. -/
  | long (name : List Char) (value : Option (List Char))
  /-- A dash and characters after it. -/
  | short (letters : List Char)
  | plain
deriving DecidableEq, Repr

/-- The looks of an argument. -/
def Shape.of (arg : String) : Shape :=
  match arg.toList with
  | ['-', '-'] => .separator
  | '-' :: '-' :: rest =>
    match rest.dropWhile (· ≠ '=') with
    | [] => .long rest none
    | _ :: value => .long (rest.takeWhile (· ≠ '=')) (some value)
  | ['-'] => .plain
  | '-' :: letters => .short letters
  | _ => .plain

/-! ## Taking arguments -/

/-- A flag or option can be given after others. -/
def Switch.fits (s : Switch) (given : List Given) : Bool :=
  s.repeats || !given.any (·.isFor s.long)

/-- Adds a flag. -/
def addFlag (given : List Given) (s : Switch) : Except Refused (List Given) :=
  if s.fits given then .ok (given ++ [.flag s.long]) else .error .misused

/-- Adds an option with its value. -/
def addValue (given : List Given) (s : Switch) (value : String) :
    Except Refused (List Given) :=
  if s.fits given && s.value.any (·.accepts value) then .ok (given ++ [.value s.long value])
  else .error .misused

/-- Adds an argument that is no option. -/
def addPositional (grammar : Grammar) (given : List Given) (value : String) :
    Except Refused (List Given) :=
  if grammar.positional.any (·.accepts value) then .ok (given ++ [.positional value])
  else .error .misused

/-- An option that is still to be added. -/
inductive Pending where
  | nothing
  /-- It wants its value from the next argument. -/
  | wanting (s : Switch)
  /-- It has its value, which was an argument of its own. -/
  | holding (s : Switch) (value : String)
deriving DecidableEq, Repr

/-- Adds what is pending. An option without its value is wrong. -/
def settle (given : List Given) : Pending → Except Refused (List Given)
  | .nothing => .ok given
  | .wanting _ => .error .misused
  | .holding s value => addValue given s value

/-- Takes a long switch. -/
def takeLong (grammar : Grammar) (given : List Given) (name : List Char)
    (value : Option (List Char)) : Except Refused (List Given × Pending) :=
  match grammar.switches.find? (·.long.toList = name), value with
  | some s, some v => do
    let given ← addValue given s (String.ofList v)
    .ok (given, .nothing)
  | some s, none =>
    if s.value.isSome then .ok (given, .wanting s)
    else do
      let given ← addFlag given s
      .ok (given, .nothing)
  | none, none => .error (if name = "help".toList then .help else .misused)
  | none, some _ => .error .misused

/-- Takes joined letters. The rest of them is the value of the first option met, less an
equals sign. -/
def takeShort (grammar : Grammar) (given : List Given) :
    List Char → Except Refused (List Given × Pending)
  | [] => .ok (given, .nothing)
  | letter :: rest =>
    match grammar.switches.find? (·.short = some letter) with
    | none => .error (if letter = 'h' then .help else .misused)
    | some s =>
      if s.value.isSome then
        match rest with
        | [] => .ok (given, .wanting s)
        | '=' :: value | value => do
          let given ← addValue given s (String.ofList value)
          .ok (given, .nothing)
      else do
        let given ← addFlag given s
        takeShort grammar given rest

/-- What all arguments amount to: what was given, and the command with its own arguments.
Only before a command something can be pending. -/
structure Reading where
  given : List Given := []
  pending : Pending := .nothing
  command : Option (String × List String) := none
deriving DecidableEq, Repr

/-- Reads arguments from left to right, after those that were given before. -/
def readFrom (grammar : Grammar) (given : List Given) (pending : Pending) :
    List String → Except Refused Reading
  | [] => do
    let given ← settle given pending
    .ok { given }
  | arg :: args =>
    match pending, Shape.of arg with
    | .wanting s, .plain => readFrom grammar given (.holding s arg) args
    | pending, .plain =>
      if grammar.commands then .ok { given, pending, command := some (arg, args) }
      else do
        let given ← settle given pending
        let given ← addPositional grammar given arg
        readFrom grammar given .nothing args
    | pending, .separator => do
      let given ← settle given pending
      if grammar.commands then .error .misused
      else do
        let given ← args.foldlM (addPositional grammar) given
        .ok { given }
    | pending, .long name value => do
      let given ← settle given pending
      let (given, pending) ← takeLong grammar given name value
      readFrom grammar given pending args
    | pending, .short letters => do
      let given ← settle given pending
      let (given, pending) ← takeShort grammar given letters
      readFrom grammar given pending args

/-- Reads the arguments of a command. -/
def read (grammar : Grammar) (args : List String) : Except Refused Reading :=
  readFrom grammar [] .nothing args

namespace Reading

/-- The reading with nothing pending any more. -/
def settled (r : Reading) : Except Refused Reading := do
  let given ← settle r.given r.pending
  .ok { r with given, pending := .nothing }

/-- The flag was given. -/
def has (r : Reading) (long : String) : Bool :=
  r.given.contains (.flag long)

/-- The values of an option, in order. -/
def valuesOf (r : Reading) (long : String) : List String :=
  r.given.filterMap fun g =>
    match g with
    | .value l v => if l = long then some v else none
    | _ => none

/-- The value of an option, if it was given. -/
def value? (r : Reading) (long : String) : Option String :=
  (r.valuesOf long).head?

/-- The arguments that are no options. -/
def positionals (r : Reading) : List String :=
  r.given.filterMap fun g =>
    match g with
    | .positional v => some v
    | _ => none

end Reading

end RouteBook.CommandLine
