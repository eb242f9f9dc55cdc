import RouteBook.Json.Fault
import RouteBook.Text.Utf8

/-!
# Words and strings of a JSON text

Each reader takes the text from where its lexeme goes on and returns what it read with the
text that is left. A string is read under one of two rules for `\u`: values that are kept
must pair their surrogates, values that are passed over need four hex digits only.
-/

namespace RouteBook.Json

/-- White space between lexemes. -/
def isSpace (c : Char) : Bool :=
  c = ' ' || c = '\t' || c = '\n' || c = '\r'

/-- The text from its first lexeme on. -/
def trim (cs : List Char) : List Char :=
  cs.dropWhile isSpace

/-! ## Words -/

/-- Reads the letters of a word that its first letter has announced. -/
def word : List Char → List Char → Except Fault (List Char)
  | [], cs => .ok cs
  | _ :: _, [] => .error .endInValue
  | l :: ls, c :: cs => if c = l then word ls cs else .error .expectedWord

/-! ## Strings -/

/-- The value of a hex digit of either case. -/
def hexValue? (c : Char) : Option Nat :=
  if c.isDigit then some (c.toNat - '0'.toNat)
  else if 'a' ≤ c ∧ c ≤ 'f' then some (c.toNat - 'a'.toNat + 10)
  else if 'A' ≤ c ∧ c ≤ 'F' then some (c.toNat - 'A'.toNat + 10)
  else none

/-- The value of four hex digits. -/
def hexQuad? (a b c d : Char) : Option Nat := do
  let high := (← hexValue? a) * 16 + (← hexValue? b)
  let low := (← hexValue? c) * 16 + (← hexValue? d)
  some (high * 256 + low)

/-- Reads four hex digits. The text has ended if fewer than four octets are left of it,
whatever they are. -/
def hexEscape : List Char → Except Fault (Nat × List Char)
  | a :: b :: c :: d :: rest =>
    match hexQuad? a b c d with
    | some n => .ok (n, rest)
    | none => .error .invalidEscape
  | rest =>
    .error (if Text.Utf8.size rest < 4 then .endInString else .invalidEscape)

/-- The first halves of pairs that stand for values above U+FFFF. -/
def isHighSurrogate (n : Nat) : Bool := 0xD800 ≤ n && n ≤ 0xDBFF

/-- The second halves of such pairs. -/
def isLowSurrogate (n : Nat) : Bool := 0xDC00 ≤ n && n ≤ 0xDFFF

/-- The character that a pair of surrogates stands for. -/
def pairedChar (high low : Nat) : Char :=
  Char.ofNat (0x10000 + (high - 0xD800) * 0x400 + (low - 0xDC00))

/-- Reads what follows `\u` in a string that is kept. -/
def unicodeEscape (cs : List Char) : Except Fault (Char × List Char) := do
  let (n, rest) ← hexEscape cs
  if isLowSurrogate n then .error .loneSurrogate
  else if isHighSurrogate n then
    match rest with
    | [] | ['\\'] => .error .endInString
    | '\\' :: 'u' :: rest => do
      let (m, rest) ← hexEscape rest
      if isLowSurrogate m then .ok (pairedChar n m, rest) else .error .loneSurrogate
    | _ => .error .unfinishedSurrogate
  else .ok (Char.ofNat n, rest)

/-- Reads what follows `\u` in a string that is passed over. -/
def skippedEscape (cs : List Char) : Except Fault (Char × List Char) := do
  let (n, rest) ← hexEscape cs
  .ok (Char.ofNat n, rest)

/-- Reads what follows a backslash, under the given rule for `\u`. -/
def escape (unicode : List Char → Except Fault (Char × List Char)) :
    List Char → Except Fault (Char × List Char)
  | [] => .error .endInString
  | c :: rest =>
    match c with
    | '"' => .ok ('"', rest)
    | '\\' => .ok ('\\', rest)
    | '/' => .ok ('/', rest)
    | 'b' => .ok ('\x08', rest)
    | 'f' => .ok ('\x0c', rest)
    | 'n' => .ok ('\n', rest)
    | 'r' => .ok ('\r', rest)
    | 't' => .ok ('\t', rest)
    | 'u' => unicode rest
    | _ => .error .invalidEscape

/-- Reads a string after its opening quote; `read` holds its characters so far, the latest
first. Every step takes at least one character, so the length of the text is fuel enough. -/
def stringBody (unicode : List Char → Except Fault (Char × List Char)) :
    Nat → List Char → List Char → Except Fault (List Char × List Char)
  | 0, _, _ => .error .endInString
  | _ + 1, _, [] => .error .endInString
  | fuel + 1, read, c :: rest =>
    if c = '"' then .ok (read.reverse, rest)
    else if c = '\\' then do
      let (e, rest) ← escape unicode rest
      stringBody unicode fuel (e :: read) rest
    else if c.toNat < 0x20 then .error .controlCharacter
    else stringBody unicode fuel (c :: read) rest

/-- Reads a string that is kept, after its opening quote. -/
def string (cs : List Char) : Except Fault (String × List Char) := do
  let (s, rest) ← stringBody unicodeEscape (cs.length + 1) [] cs
  .ok (String.ofList s, rest)

/-- Passes over a string, after its opening quote. -/
def skipString (cs : List Char) : Except Fault (List Char) := do
  let (_, rest) ← stringBody skippedEscape (cs.length + 1) [] cs
  .ok rest

/-! ## Digits -/

/-- The digits at the start of a text. -/
def digits (cs : List Char) : List Char := cs.takeWhile Char.isDigit

/-- The text after the digits at its start. -/
def afterDigits (cs : List Char) : List Char := cs.dropWhile Char.isDigit

end RouteBook.Json
