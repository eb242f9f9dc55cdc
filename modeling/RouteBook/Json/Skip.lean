import RouteBook.Json.Lexeme

/-!
# Values that are passed over

The value of an unknown member may be any JSON, at any depth. It is passed over under
weaker rules than those for values that are kept: numbers may have any size, and the
surrogates of a string need not be paired.
-/

namespace RouteBook.Json

/-! ## Numbers -/

/-- Passes over one digit or more. -/
def skipDigits (cs : List Char) : Except Fault (List Char) :=
  if (digits cs).isEmpty then .error .invalidNumber else .ok (afterDigits cs)

/-- Passes over an exponent, if there is one. -/
def skipExponent (cs : List Char) : Except Fault (List Char) :=
  match cs with
  | 'e' :: rest | 'E' :: rest =>
    match rest with
    | '+' :: rest | '-' :: rest => skipDigits rest
    | rest => skipDigits rest
  | cs => .ok cs

/-- Passes over a fraction and an exponent, each if there is one. -/
def skipFraction (cs : List Char) : Except Fault (List Char) :=
  match cs with
  | '.' :: rest => do skipExponent (← skipDigits rest)
  | cs => skipExponent cs

/-- Passes over a number from its first digit on. It may have any size; a leading zero
stands alone. -/
def skipUnsigned (cs : List Char) : Except Fault (List Char) :=
  match cs with
  | '0' :: rest =>
    if (digits rest).isEmpty then skipFraction rest else .error .invalidNumber
  | cs => do skipFraction (← skipDigits cs)

/-! ## Values -/

mutual

/-- Passes over a value of any kind. Each call takes a character, or leaves it to the call
it makes; twice the length of the text is fuel enough. -/
def skipValue : Nat → List Char → Except Fault (List Char)
  | 0, _ => .error .endInValue
  | fuel + 1, cs =>
    match trim cs with
    | [] => .error .endInValue
    | c :: rest =>
      match c with
      | 'n' => word ['u', 'l', 'l'] rest
      | 't' => word ['r', 'u', 'e'] rest
      | 'f' => word ['a', 'l', 's', 'e'] rest
      | '"' => skipString rest
      | '-' => skipUnsigned rest
      | '[' =>
        match trim rest with
        | [] => .error .endInList
        | ']' :: rest => .ok rest
        | rest => skipItems fuel rest
      | '\x7b' =>
        match trim rest with
        | [] => .error .endInObject
        | '\x7d' :: rest => .ok rest
        | rest => skipMembers fuel rest
      | c => if c.isDigit then skipUnsigned (c :: rest) else .error .expectedValue

/-- Passes over the items of a list from the next one on, and over its end. -/
def skipItems : Nat → List Char → Except Fault (List Char)
  | 0, _ => .error .endInValue
  | fuel + 1, cs => do
    match trim (← skipValue fuel cs) with
    | [] => .error .endInList
    | ']' :: rest => .ok rest
    | ',' :: rest => skipItems fuel rest
    | _ => .error .expectedListSeparator

/-- Passes over the members of an object from the next one on, and over its end. -/
def skipMembers : Nat → List Char → Except Fault (List Char)
  | 0, _ => .error .endInValue
  | fuel + 1, cs =>
    match trim cs with
    | [] => .error .endInObject
    | '"' :: rest => do
      match trim (← skipString rest) with
      | [] => .error .endInObject
      | ':' :: rest =>
        match trim (← skipValue fuel rest) with
        | [] => .error .endInObject
        | '\x7d' :: rest => .ok rest
        | ',' :: rest => skipMembers fuel rest
        | _ => .error .expectedObjectSeparator
      | _ => .error .expectedColon
    | _ => .error .keyNoString

end

/-- Passes over the value at the start of a text. -/
def skip (cs : List Char) : Except Fault (List Char) :=
  skipValue (2 * cs.length + 2) cs

end RouteBook.Json
