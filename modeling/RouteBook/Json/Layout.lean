/-!
# Writing JSON

Strings are written with the fewest escapes JSON allows. Lists and objects are written in
one of two layouts: compact, with no white space at all, or indented, one item to a line,
two blanks to a level, an empty list on one line.
-/

namespace RouteBook.Json

/-- How a text is laid out. -/
inductive Layout where
  | compact
  | indented
deriving DecidableEq, Repr

/-- The digit of a number below 16, in lower case. -/
def hexDigit (n : Nat) : Char :=
  if n < 10 then Char.ofNat ('0'.toNat + n) else Char.ofNat ('a'.toNat + (n - 10))

/-- A character of a string: only quotes, backslashes and controls are escaped. -/
def writeChar (c : Char) : List Char :=
  match c with
  | '"' => ['\\', '"']
  | '\\' => ['\\', '\\']
  | '\x08' => ['\\', 'b']
  | '\x0c' => ['\\', 'f']
  | '\n' => ['\\', 'n']
  | '\r' => ['\\', 'r']
  | '\t' => ['\\', 't']
  | c =>
    if c.toNat < 0x20 then ['\\', 'u', '0', '0', hexDigit (c.toNat / 16), hexDigit (c.toNat % 16)]
    else [c]

/-- A string as JSON. -/
def writeString (s : String) : List Char :=
  '"' :: s.toList.flatMap writeChar ++ ['"']

/-- The line break before an item at a level. -/
def Layout.newline (layout : Layout) (level : Nat) : List Char :=
  match layout with
  | .compact => []
  | .indented => '\n' :: List.replicate (2 * level) ' '

/-- What stands between a key and its value. -/
def Layout.colon : Layout → List Char
  | .compact => [':']
  | .indented => [':', ' ']

/-- Items between brackets, at a level of nesting. -/
def Layout.block (layout : Layout) (level : Nat) (opening closing : Char)
    (items : List (List Char)) : List Char :=
  if items.isEmpty then [opening, closing]
  else
    opening :: List.intercalate [','] (items.map (layout.newline (level + 1) ++ ·)) ++
      layout.newline level ++ [closing]

/-- A member of an object. -/
def Layout.member (layout : Layout) (key : String) (value : List Char) : List Char :=
  writeString key ++ layout.colon ++ value

end RouteBook.Json
