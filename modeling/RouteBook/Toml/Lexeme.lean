/-!
# Blanks, keys and strings of a TOML text

Each reader returns what it read with the text that is left, or nothing if the text is no
TOML there.
-/

namespace RouteBook.Toml

/-- A blank within a line. -/
def isBlank (c : Char) : Bool := c = ' ' || c = '\t'

/-- The text after the blanks at its start. -/
def skipBlanks (cs : List Char) : List Char := cs.dropWhile isBlank

/-- A character that comments and strings may hold: no control but the tab. -/
def isTextChar (c : Char) : Bool :=
  c = '\t' || (0x20 ≤ c.toNat && c.toNat ≠ 0x7F)

/-- The text after a line break: a line feed, or a carriage return with a line feed. -/
def newline? : List Char → Option (List Char)
  | '\n' :: rest => some rest
  | '\r' :: '\n' :: rest => some rest
  | _ => none

/-- The text after the end of a line, before which blanks and a comment may stand. The end
of the text ends a line too. -/
def lineEnd? (cs : List Char) : Option (List Char) :=
  let cs :=
    match skipBlanks cs with
    | '#' :: rest => rest.dropWhile isTextChar
    | cs => cs
  match cs with
  | [] => some []
  | cs => newline? cs

/-- The text after blanks, line breaks and comments. -/
def skipLines (inComment : Bool) : List Char → List Char
  | [] => []
  | c :: cs =>
    if c = '\n' then skipLines false cs
    else if c = '\r' ∧ cs.head? = some '\n' then skipLines false cs
    else if inComment then if isTextChar c then skipLines true cs else c :: cs
    else if isBlank c then skipLines false cs
    else if c = '#' then skipLines true cs
    else c :: cs

/-- The text after blanks and line breaks. -/
def skipBreaks : List Char → List Char
  | [] => []
  | c :: cs =>
    if isBlank c ∨ c = '\n' ∨ (c = '\r' ∧ cs.head? = some '\n') then skipBreaks cs
    else c :: cs

/-! ## Strings -/

/-- A hex digit of either case. -/
def isHexDigit (c : Char) : Bool :=
  c.isDigit || ('a' ≤ c && c ≤ 'f') || ('A' ≤ c && c ≤ 'F')

/-- The value of a hex digit. -/
def hexDigitValue (c : Char) : Nat :=
  if c.isDigit then c.toNat - '0'.toNat
  else if 'a' ≤ c then c.toNat - 'a'.toNat + 10
  else c.toNat - 'A'.toNat + 10

/-- The number that digits of a base stand for. -/
def numberOf (base : Nat) (ds : List Char) : Nat :=
  ds.foldl (fun n d => n * base + hexDigitValue d) 0

/-- The character whose number is written with `count` hex digits. -/
def hexChar? (count : Nat) (cs : List Char) : Option (Char × List Char) :=
  let ds := cs.take count
  let n := numberOf 16 ds
  if ds.length = count ∧ ds.all isHexDigit ∧ n.isValidChar then
    some (Char.ofNat n, cs.drop count)
  else none

/-- What follows a backslash in a string. -/
def escape? : List Char → Option (Char × List Char)
  | [] => none
  | c :: rest =>
    match c with
    | 'b' => some ('\x08', rest)
    | 't' => some ('\t', rest)
    | 'n' => some ('\n', rest)
    | 'f' => some ('\x0c', rest)
    | 'r' => some ('\r', rest)
    | '"' => some ('"', rest)
    | '\\' => some ('\\', rest)
    | 'u' => hexChar? 4 rest
    | 'U' => hexChar? 8 rest
    | _ => none

/-- The rest of a string of one line after its opening quote. Where `escapes` is false a
backslash is a character like others. `read` holds the characters so far, latest first;
the length of the text is fuel enough. -/
def lineBody (quote : Char) (escapes : Bool) :
    Nat → List Char → List Char → Option (List Char × List Char)
  | 0, _, _ => none
  | _ + 1, _, [] => none
  | fuel + 1, read, c :: rest =>
    if c = quote then some (read.reverse, rest)
    else if c = '\\' ∧ escapes then do
      let (e, rest) ← escape? rest
      lineBody quote escapes fuel (e :: read) rest
    else if isTextChar c then lineBody quote escapes fuel (c :: read) rest
    else none

/-- The rest of a string of several lines after its opening quotes. Three quotes end it;
up to two more before them belong to it. A line break counts as a line feed, and a
backslash at the end of a line takes away all blanks and line breaks that follow. -/
def blockBody (quote : Char) (escapes : Bool) :
    Nat → List Char → List Char → Option (List Char × List Char)
  | 0, _, _ => none
  | _ + 1, _, [] => none
  | fuel + 1, read, c :: rest =>
    if c = quote then
      let run := (c :: rest).takeWhile (· = quote)
      if run.length < 3 then
        blockBody quote escapes fuel (run ++ read) ((c :: rest).dropWhile (· = quote))
      else
        let kept := min (run.length - 3) 2
        some ((List.replicate kept quote ++ read).reverse, (c :: rest).drop (kept + 3))
    else if c = '\\' ∧ escapes then
      match newline? (skipBlanks rest) with
      | some rest => blockBody quote escapes fuel read (skipBreaks rest)
      | none => do
        let (e, rest) ← escape? rest
        blockBody quote escapes fuel (e :: read) rest
    else if isTextChar c then blockBody quote escapes fuel (c :: read) rest
    else do
      let rest ← newline? (c :: rest)
      blockBody quote escapes fuel ('\n' :: read) rest

/-- A string of one line, from its quote on. -/
def lineString? : List Char → Option (String × List Char)
  | [] => none
  | c :: rest =>
    if c = '"' ∨ c = '\'' then do
      let (s, rest) ← lineBody c (c = '"') (rest.length + 1) [] rest
      some (String.ofList s, rest)
    else none

/-- A string of several lines, after its three quotes. A line break right there is no part
of it. -/
def blockString? (quote : Char) (cs : List Char) : Option (String × List Char) := do
  let cs := (newline? cs).getD cs
  let (s, rest) ← blockBody quote (quote = '"') (cs.length + 1) [] cs
  some (String.ofList s, rest)

/-- A string of either kind, from its first quote on. -/
def string? : List Char → Option (String × List Char)
  | '"' :: '"' :: '"' :: rest => blockString? '"' rest
  | '\'' :: '\'' :: '\'' :: rest => blockString? '\'' rest
  | cs => lineString? cs

/-! ## Keys -/

/-- A character of a key that stands without quotes. -/
def isKeyChar (c : Char) : Bool :=
  c.isAlphanum || c = '_' || c = '-'

/-- A name of a key: bare, or a string of one line. -/
def keyName? (cs : List Char) : Option (String × List Char) :=
  match cs.takeWhile isKeyChar with
  | [] => lineString? cs
  | name => some (String.ofList name, cs.dropWhile isKeyChar)

/-- A key: names with dots between them and blanks around them, at most `limit` names. The
last name is given apart. -/
def key? : Nat → List Char → Option (List String × String × List Char)
  | 0, _ => none
  | limit + 1, cs => do
    let (name, rest) ← keyName? (skipBlanks cs)
    match skipBlanks rest with
    | '.' :: rest => do
      let (way, last, rest) ← key? limit rest
      some (name :: way, last, rest)
    | rest => some ([], name, rest)

end RouteBook.Toml
