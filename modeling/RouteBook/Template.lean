import RouteBook.Text.Utf8

/-!
# Path templates

A placeholder is a colon followed by at least one character other than `/`; it runs up to
the next `/` or the end of the template. A colon followed by `/` or by nothing is literal
text. The parts of a template, written one after the other, give the template back.
-/

namespace RouteBook.Template

/-- A part of a template: a literal character, or a placeholder with its key, which is
the placeholder's text without the colon. -/
inductive Part where
  | literal (c : Char)
  | hole (key : List Char)
deriving DecidableEq, Repr

/-- The text that a part takes up in the template. -/
def Part.text : Part → List Char
  | .literal c => [c]
  | .hole key => ':' :: key

/-- Where a placeholder that starts after a colon ends. -/
def keyOf (cs : List Char) : List Char :=
  cs.takeWhile (· ≠ '/')

/-- Cuts a template into its parts, from left to right (`next` of `Placeholders`). -/
def parts : List Char → List Part
  | [] => []
  | c :: cs =>
    if c = ':' ∧ keyOf cs ≠ [] then .hole (keyOf cs) :: parts (cs.dropWhile (· ≠ '/'))
    else .literal c :: parts cs
termination_by cs => cs.length
decreasing_by
  · exact Nat.lt_succ_of_le (List.dropWhile_sublist _).length_le
  · exact Nat.lt_succ_self _

/-- A placeholder of a template, with the UTF-8 octets it covers. -/
structure Placeholder where
  start : Nat
  stop : Nat
  /-- The text of the placeholder, colon included. -/
  token : String
  /-- The text without the colon, by which keyed values are found. -/
  key : String
deriving DecidableEq, Repr

/-- The placeholders among parts that begin at octet `start`. -/
def locate (start : Nat) : List Part → List Placeholder
  | [] => []
  | p :: ps =>
    let stop := start + Text.Utf8.size p.text
    match p with
    | .literal _ => locate stop ps
    | .hole key =>
      { start, stop, token := String.ofList (':' :: key), key := String.ofList key } ::
        locate stop ps

/-- The placeholders of a template, from left to right. -/
def placeholders (template : String) : List Placeholder :=
  locate 0 (parts template.toList)

end RouteBook.Template
