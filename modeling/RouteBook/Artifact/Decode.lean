import RouteBook.Json.Number
import RouteBook.Json.Skip
import RouteBook.Route

/-!
# Reading an artifact

An artifact is a JSON list of routes. A route is an object, whose members may stand in any
order beside members of other names, or a list of one to three items: path, methods, name.
Methods and name may be null, which is as good as absent. A repeated or missing member, a
value of another type and an item too many are faults, each at the place where it shows.
-/

namespace RouteBook.Artifact
open Json

/-! ## Values -/

/-- The fault of a value that is not of the wanted type. Words, numbers and strings are
read to their end first, and are at fault themselves if they are malformed. -/
def mismatch (wanted : Wanted) : List Char → Fault
  | [] => .expectedValue
  | c :: rest =>
    let found (r : Except Fault Found) : Fault :=
      match r with
      | .error fault => fault
      | .ok f => .unexpected f wanted
    match c with
    | 'n' => found ((word ['u', 'l', 'l'] rest).map fun _ => .null)
    | 't' => found ((word ['r', 'u', 'e'] rest).map fun _ => .boolean true)
    | 'f' => found ((word ['a', 'l', 's', 'e'] rest).map fun _ => .boolean false)
    | '"' => found ((string rest).map fun (s, _) => .string s)
    | '[' => .unexpected .list wanted
    | '\x7b' => .unexpected .object wanted
    | c => if c = '-' ∨ c.isDigit then found (numberFound (c :: rest)) else .expectedValue

/-- Reads a string. -/
def readString (cs : List Char) : Except Fault (String × List Char) :=
  match trim cs with
  | [] => .error .endInValue
  | '"' :: rest => string rest
  | cs => .error (mismatch .string cs)

/-- Reads a value or null, which is no value. -/
def readOptional {α : Type} (read : List Char → Except Fault (α × List Char))
    (cs : List Char) : Except Fault (Option α × List Char) :=
  match trim cs with
  | 'n' :: rest => do
    let rest ← word ['u', 'l', 'l'] rest
    .ok (none, rest)
  | cs => do
    let (value, rest) ← read cs
    .ok (some value, rest)

/-! ## Lists -/

/-- What comes after an item of a list: the end of the list, or a further item. -/
inductive Next where
  | closed (rest : List Char)
  | item (rest : List Char)
deriving DecidableEq, Repr

/-- Reads what separates an item from the next, or closes the list. -/
def readNext (cs : List Char) : Except Fault Next :=
  match trim cs with
  | [] => .error .endInList
  | ']' :: rest => .ok (.closed rest)
  | ',' :: rest =>
    match trim rest with
    | [] => .error .endInValue
    | ']' :: _ => .error .trailingComma
    | rest => .ok (.item rest)
  | _ => .error .expectedListSeparator

/-- Reads the items of a list from an item on, and the end of the list. Every item takes at
least one character, so the length of the text is fuel enough. -/
def readItems {α : Type} (read : List Char → Except Fault (α × List Char)) :
    Nat → List Char → Except Fault (List α × List Char)
  | 0, _ => .error .endInValue
  | fuel + 1, cs => do
    let (x, rest) ← read cs
    match ← readNext rest with
    | .closed rest => .ok ([x], rest)
    | .item rest => do
      let (xs, rest) ← readItems read fuel rest
      .ok (x :: xs, rest)

/-- Reads a list after its opening bracket. -/
def readListBody {α : Type} (read : List Char → Except Fault (α × List Char))
    (cs : List Char) : Except Fault (List α × List Char) :=
  match trim cs with
  | [] => .error .endInList
  | ']' :: rest => .ok ([], rest)
  | cs => readItems read (cs.length + 1) cs

/-- Reads a list. -/
def readList {α : Type} (read : List Char → Except Fault (α × List Char)) (cs : List Char) :
    Except Fault (List α × List Char) :=
  match trim cs with
  | [] => .error .endInValue
  | '[' :: rest => readListBody read rest
  | cs => .error (mismatch .list cs)

/-! ## Routes as objects -/

/-- The members of a route that have been read. A member given as null has been read. -/
structure Members where
  path : Option String := none
  methods : Option (Option (List String)) := none
  name : Option (Option String) := none
deriving DecidableEq, Repr

/-- The route that members make up. Only the path must be there. -/
def Members.toRoute (m : Members) : Except Fault Route :=
  match m.path with
  | none => .error (.missingMember "path")
  | some path => .ok { path, methods := m.methods.join, name := m.name.join }

/-- Reads the colon after a key. -/
def readColon (cs : List Char) : Except Fault (List Char) :=
  match trim cs with
  | [] => .error .endInObject
  | ':' :: rest => .ok rest
  | _ => .error .expectedColon

/-- A member that is kept: its key, its place among those that have been read, and how its value
is read. -/
structure Member (α : Type) where
  key : String
  get : Members → Option α
  put : Members → Option α → Members
  read : List Char → Except Fault (α × List Char)
  get_put (m : Members) (value : Option α) : get (put m value) = value := by intros; rfl
  put_get (m : Members) : put m (get m) = m := by intros; rfl
  put_put (m : Members) (value value' : Option α) : put (put m value) value' = put m value' := by
    intros; rfl

namespace Member

def path : Member String where
  key := "path"
  get m := m.path
  put m path := { m with path }
  read := readString

def methods : Member (Option (List String)) where
  key := "methods"
  get m := m.methods
  put m methods := { m with methods }
  read := readOptional (readList readString)

def name : Member (Option String) where
  key := "name"
  get m := m.name
  put m name := { m with name }
  read := readOptional readString

end Member

/-- Reads the value of a member that is kept, colon included. A member that has been read before
is a fault before its value is looked at. -/
def readField {α : Type} (member : Member α) (m : Members) (cs : List Char) :
    Except Fault (Members × List Char) :=
  if (member.get m).isSome then .error (.repeatedMember member.key)
  else do
    let (value, rest) ← member.read (← readColon cs)
    .ok (member.put m (some value), rest)

/-- Reads the value of the member `key`, colon included. Members of other names are passed over. -/
def readMember (m : Members) (key : String) (cs : List Char) :
    Except Fault (Members × List Char) :=
  if key = Member.path.key then readField .path m cs
  else if key = Member.methods.key then readField .methods m cs
  else if key = Member.name.key then readField .name m cs
  else do
    let rest ← skip (← readColon cs)
    .ok (m, rest)

/-- Reads the members of an object from a key on, and the end of the object. -/
def readMembers : Nat → Members → List Char → Except Fault (Members × List Char)
  | 0, _, _ => .error .endInValue
  | fuel + 1, m, cs =>
    match cs with
    | '"' :: rest => do
      let (key, rest) ← string rest
      let (m, rest) ← readMember m key rest
      match trim rest with
      | [] => .error .endInObject
      | '\x7d' :: rest => .ok (m, rest)
      | ',' :: rest =>
        match trim rest with
        | [] => .error .endInValue
        | '\x7d' :: _ => .error .trailingComma
        | rest => readMembers fuel m rest
      | _ => .error .expectedObjectSeparator
    | _ => .error .keyNoString

/-- Reads a route that is an object, after its opening brace. -/
def readObject (cs : List Char) : Except Fault (Route × List Char) := do
  let (m, rest) ←
    match trim cs with
    | [] => Except.error Fault.endInObject
    | '\x7d' :: rest => .ok ({}, rest)
    | cs => readMembers (cs.length + 1) {} cs
  .ok (← m.toRoute, rest)

/-! ## Routes as lists -/

/-- Reads the end of a route that is a list, after its third item. -/
def readClose (cs : List Char) : Except Fault (List Char) :=
  match trim cs with
  | [] => .error .endInList
  | ']' :: rest => .ok rest
  | ',' :: rest =>
    match trim rest with
    | ']' :: _ => .error .trailingComma
    | _ => .error .trailingCharacters
  | _ => .error .trailingCharacters

/-- Reads a route that is a list, after its opening bracket. -/
def readTuple (cs : List Char) : Except Fault (Route × List Char) :=
  match trim cs with
  | [] => .error .endInList
  | ']' :: _ => .error .emptyRecord
  | cs => do
    let (path, rest) ← readString cs
    match ← readNext rest with
    | .closed rest => .ok ({ path }, rest)
    | .item rest => do
      let (methods, rest) ← readOptional (readList readString) rest
      match ← readNext rest with
      | .closed rest => .ok ({ path, methods }, rest)
      | .item rest => do
        let (name, rest) ← readOptional readString rest
        .ok ({ path, methods, name }, ← readClose rest)

/-! ## The artifact -/

/-- Reads a route in either form (how a `RouteRecord` is deserialized). -/
def readRoute (cs : List Char) : Except Fault (Route × List Char) :=
  match trim cs with
  | [] => .error .endInValue
  | '[' :: rest => readTuple rest
  | '\x7b' :: rest => readObject rest
  | cs => .error (mismatch .record cs)

/-- Reads a whole artifact, given as its characters. -/
def readRoutes (cs : List Char) : Except Fault (List Route) := do
  let (routes, rest) ← readList readRoute cs
  if (trim rest).isEmpty then .ok routes else .error .trailingCharacters

end RouteBook.Artifact
