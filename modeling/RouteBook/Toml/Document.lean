import RouteBook.Toml.Number

/-!
# Reading a TOML document

A document is read line by line into statements, which are then carried out in order. A
line that is no TOML, or that a line before it forbids, makes the whole document invalid;
which line that was is not told.
-/

namespace RouteBook.Toml

/-- How deep arrays and inline tables may be nested, and how many names a key may have. -/
def nestingLimit : Nat := 79

/-! ## Values -/

/-- The items of an array after its bracket, or after a comma, up to its end. The length of
the text is fuel enough. -/
def arrayBody (value : List Char → Option (Item × List Char)) :
    Nat → List Char → Option (List Item × List Char)
  | 0, _ => none
  | fuel + 1, cs =>
    match skipLines false cs with
    | ']' :: rest => some ([], rest)
    | cs => do
      let (item, rest) ← value cs
      match skipLines false rest with
      | ',' :: rest => do
        let (items, rest) ← arrayBody value fuel rest
        some (item :: items, rest)
      | ']' :: rest => some ([item], rest)
      | _ => none

/-- A key, an equals sign and a value, with blanks around each. -/
def assignment? (value : List Char → Option (Item × List Char)) (cs : List Char) :
    Option (List String × String × Item × List Char) := do
  let (way, key, rest) ← key? nestingLimit cs
  let (item, rest) ← value (skipBlanks (← mark? '=' rest))
  some (way, key, item, skipBlanks rest)

/-- The members of an inline table from a key on, up to its end. -/
def inlineBody (value : List Char → Option (Item × List Char)) :
    Nat → Members → List Char → Option (Members × List Char)
  | 0, _, _ => none
  | fuel + 1, members, cs => do
    let (way, key, item, rest) ← assignment? value cs
    let members ← assign .inline way key item .inline members
    match rest with
    | ',' :: rest => inlineBody value fuel members rest
    | '\x7d' :: rest => some (members, rest)
    | _ => none

/-- A value, in which arrays and inline tables may be nested to the given depth. -/
def value? : Nat → List Char → Option (Item × List Char)
  | _, [] => none
  | depth, c :: rest =>
    match c with
    | '"' | '\'' => (string? (c :: rest)).map fun (s, rest) => (.string s, rest)
    | 't' =>
      match rest with
      | 'r' :: 'u' :: 'e' :: rest => some (.boolean true, rest)
      | _ => none
    | 'f' =>
      match rest with
      | 'a' :: 'l' :: 's' :: 'e' :: rest => some (.boolean false, rest)
      | _ => none
    | '[' =>
      match depth with
      | 0 => none
      | depth + 1 => (arrayBody (value? depth) (rest.length + 1) rest).map fun (items, rest) =>
        (.array items, rest)
    | '\x7b' =>
      match depth with
      | 0 => none
      | depth + 1 =>
        match skipBlanks rest with
        | '\x7d' :: rest => some (.table .inline [], rest)
        | rest => (inlineBody (value? depth) (rest.length + 1) [] rest).map fun (ms, rest) =>
          (.table .inline ms, rest)
    | _ => number? (c :: rest)

/-! ## Lines -/

/-- The header of a table, after its opening bracket. -/
def header? (cs : List Char) : Option (Statement × List Char) := do
  let (way, key, rest) ← key? nestingLimit cs
  some (.header way key, ← mark? ']' rest)

/-- The header of one table of several, after its opening brackets. -/
def repeatedHeader? (cs : List Char) : Option (Statement × List Char) := do
  let (way, key, rest) ← key? nestingLimit cs
  some (.repeatedHeader way key, ← mark? ']' (← mark? ']' rest))

/-- A statement, from its first character on. -/
def statement? : List Char → Option (Statement × List Char)
  | '[' :: '[' :: rest => repeatedHeader? rest
  | '[' :: rest => header? rest
  | cs => do
    let (way, key, item, rest) ← assignment? (value? nestingLimit) cs
    some (.assignment way key item, rest)

/-- The statements of a text. Every line takes at least one character. -/
def statements? : Nat → List Char → Option (List Statement)
  | 0, _ => none
  | fuel + 1, cs =>
    match skipBlanks cs with
    | [] => some []
    | c :: rest =>
      if c = '#' ∨ c = '\n' ∨ c = '\r' then do
        statements? fuel (← lineEnd? (c :: rest))
      else do
        let (statement, rest) ← statement? (c :: rest)
        let more ← statements? fuel (← lineEnd? rest)
        some (statement :: more)

/-- The members of the document that a text is, if it is one. A byte order mark at its
start is skipped. -/
def document? (text : String) : Option Members := do
  let cs :=
    match text.toList with
    | '\uFEFF' :: cs => cs
    | cs => cs
  build (← statements? (cs.length + 1) cs)

end RouteBook.Toml
