import RouteBook.Text.Quoted

/-!
# What can be wrong with a JSON text

A text is read once from left to right, straight into what is wanted of it, and the first
problem met is the answer. Its category says whether the text ended too early, is no JSON,
or is JSON of another shape than the one wanted.
-/

namespace RouteBook.Json

/-- The three categories of faults. -/
inductive Category where
  /-- The text is no JSON. -/
  | malformed
  /-- The text is JSON up to here, but not of the wanted shape. -/
  | mistyped
  /-- The text ended where more was needed. -/
  | truncated
deriving DecidableEq, Repr

/-- What was found where something else was wanted. -/
inductive Found where
  | null
  | boolean (b : Bool)
  | integer (i : Int)
  /-- A number with a fraction or an exponent, or too large for an integer, as its text. -/
  | decimal (text : String)
  | string (s : String)
  | list
  | object
deriving DecidableEq, Repr

/-- What is wanted at some place of the text. -/
inductive Wanted where
  | list
  | record
  | string
deriving DecidableEq, Repr

/-- Why a text cannot be read. -/
inductive Fault where
  | endInValue
  | endInString
  | endInList
  | endInObject
  | expectedValue
  | expectedWord
  | invalidNumber
  | numberOutOfRange
  | trailingComma
  | trailingCharacters
  | expectedListSeparator
  | expectedObjectSeparator
  | expectedColon
  | keyNoString
  | controlCharacter
  | invalidEscape
  | loneSurrogate
  | unfinishedSurrogate
  | unexpected (found : Found) (wanted : Wanted)
  | emptyRecord
  | repeatedMember (key : String)
  | missingMember (key : String)
deriving DecidableEq, Repr

/-- The category of a fault. -/
def Fault.category : Fault → Category
  | .endInValue | .endInString | .endInList | .endInObject => .truncated
  | .unexpected _ _ | .emptyRecord | .repeatedMember _ | .missingMember _ => .mistyped
  | _ => .malformed

/-- How a message names what was found. -/
def Found.describe : Found → String
  | .null => "null"
  | .boolean b => s!"boolean `{b}`"
  | .integer i => s!"integer `{i}`"
  | .decimal text => s!"floating point `{text}`"
  | .string s => "string " ++ Text.Quoted.quote s
  | .list => "sequence"
  | .object => "map"

/-- How a message names what is wanted. -/
def Wanted.describe : Wanted → String
  | .list => "a sequence"
  | .record => "struct RouteRecord"
  | .string => "a string"

/-- The wording of a fault. -/
def Fault.message : Fault → String
  | .endInValue => "EOF while parsing a value"
  | .endInString => "EOF while parsing a string"
  | .endInList => "EOF while parsing a list"
  | .endInObject => "EOF while parsing an object"
  | .expectedValue => "expected value"
  | .expectedWord => "expected ident"
  | .invalidNumber => "invalid number"
  | .numberOutOfRange => "number out of range"
  | .trailingComma => "trailing comma"
  | .trailingCharacters => "trailing characters"
  | .expectedListSeparator => "expected `,` or `]`"
  | .expectedObjectSeparator => "expected `,` or `\x7d`"
  | .expectedColon => "expected `:`"
  | .keyNoString => "key must be a string"
  | .controlCharacter =>
    "control character (\\u0000-\\u001F) found while parsing a string"
  | .invalidEscape => "invalid escape"
  | .loneSurrogate => "lone leading surrogate in hex escape"
  | .unfinishedSurrogate => "unexpected end of hex escape"
  | .unexpected found wanted => s!"invalid type: {found.describe}, expected {wanted.describe}"
  | .emptyRecord => "invalid length 0, expected struct RouteRecord with 3 elements"
  | .repeatedMember key => s!"duplicate field `{key}`"
  | .missingMember key => s!"missing field `{key}`"

end RouteBook.Json
