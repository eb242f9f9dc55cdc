import RouteBook.Report
import RouteBook.Text.Line
import RouteBook.Text.Utf8

/-!
# Annotations

A line declares a route if the whole of it reads

    # route: PATH
    # route: METHODS PATH
    # route[NAME]: PATH
    # route[NAME]: METHODS PATH

with blanks allowed before and after `#`, wanted after the colon, and allowed at the end.
Any other line declares nothing; there are no errors. Octets that are no UTF-8 are read
lossily, line by line, so that they can spoil their own line only.

Files are scanned one after the other, each from its own first line, and their routes are
joined in the order given. The first file that cannot be read ends the scan.
-/

namespace RouteBook.Annotations
open Text

/-- A character of a name: an ASCII letter, an ASCII digit or `_` (`is_word`). -/
def isNameChar (c : Char) : Bool :=
  c.isAlphanum || c = '_'

/-- A word that may stand for methods: capital ASCII letters and bars only (`is_method_spec`). -/
def isMethodWord (word : List Char) : Bool :=
  word.all fun c => c.isUpper || c = '|'

/-- Takes the keyword off the start of a line, with the blanks around `#`. -/
def afterKeyword? (line : List Char) : Option (List Char) :=
  match line.dropWhile isBlank with
  | '#' :: rest =>
    match rest.dropWhile isBlank with
    | 'r' :: 'o' :: 'u' :: 't' :: 'e' :: rest => some rest
    | _ => none
  | _ => none

/-- Takes an optional name in brackets off the start. It ends at the first `]`. -/
def splitName? : List Char → Option (Option (List Char) × List Char)
  | '[' :: rest =>
    let name := rest.takeWhile (· ≠ ']')
    match rest.dropWhile (· ≠ ']') with
    | _ :: rest => if !name.isEmpty && name.all isNameChar then some (some name, rest) else none
    | [] => none
  | rest => some (none, rest)

/-- The methods a word lists: its non-empty pieces between bars, if there are any. -/
def methodsOf (word : List Char) : Option (List String) :=
  match (word.splitOn '|').filter fun piece => !piece.isEmpty with
  | [] => none
  | pieces => some (pieces.map String.ofList)

/-- Reads what stands after the colon: one word is a path; of two, the first lists methods
and the second is the path. -/
def body? (rest : List Char) : Option (Option (List String) × String) :=
  match words rest with
  | [path] => some (none, String.ofList path)
  | [methods, path] =>
    if isMethodWord methods then some (methodsOf methods, String.ofList path) else none
  | _ => none

/-- Reads one line, given as its characters (`scan_line`). -/
def scanChars (line : List Char) : Option Route := do
  let rest ← afterKeyword? line
  let (name, rest) ← splitName? rest
  match rest with
  | ':' :: rest =>
    if startsBlank rest then
      let (methods, path) ← body? rest
      some { path, methods, name := name.map String.ofList }
    else none
  | _ => none

/-- The route that a line declares, if it declares one. -/
def scan (line : String) : Option Route :=
  scanChars line.toList

/-- The routes that a text declares, in order (`parse_str`). -/
def ofText (text : String) : List Route :=
  (Line.ofText text.toList).filterMap scanChars

/-- The routes that lines of octets declare: each line is decoded by itself. -/
def ofLines (lines : List (List UInt8)) : List Route :=
  lines.filterMap fun line => scanChars (Utf8.decodeLossy line)

/-- The routes that an octet sequence declares (`parse_reader`). -/
def ofOctets (bs : List UInt8) : List Route :=
  ofLines (Line.ofOctets bs)

/-- The routes that octets declare which arrive in chunks (`parse_reader`). -/
def ofChunks (chunks : List (List UInt8)) : List Route :=
  ofLines (Line.ofChunks chunks)

end RouteBook.Annotations

/-! ## Source files -/

namespace RouteBook.Source

/-- The routes that files declare, with an event for each file that was scanned (`parse_files`).
-/
def scan (tree : FileTree) : List String → Except FileFault (List Route) × List Event
  | [] => (.ok [], [])
  | path :: paths =>
    match tree.read path with
    | .error fault => (.error fault, [])
    | .ok content =>
      let found := Annotations.ofOctets content
      let (more, events) := scan tree paths
      (more.map (found ++ ·), .sourceScanned path found.length :: events)

end RouteBook.Source
