/-!
# Lines and words

A text is cut after each of its end marks; a last line without a mark counts too. `Line.ofText`
takes the mark away, together with a carriage return before it. `Line.ofOctets` cuts octets at
0x0A and keeps the mark, so that each line can be decoded alone. In a line, six characters separate
the words; every other character, whatever its Unicode class, belongs to a word.
-/

namespace RouteBook.Text

/-! ## Words -/

/-- A blank: space, tab, line feed, vertical tab, form feed or carriage return (`is_space`). -/
def isBlank (c : Char) : Bool :=
  c = ' ' || c = '\t' || c = '\n' || c = '\x0b' || c = '\x0c' || c = '\r'

/-- The words of a text: its longest runs of characters that are no blanks, in order. -/
def words (cs : List Char) : List (List Char) :=
  (cs.splitOnP isBlank).filter fun word => !word.isEmpty

/-- Text that starts with a blank, as is wanted between a colon and the word after it. -/
def startsBlank : List Char → Bool
  | [] => false
  | c :: _ => isBlank c

/-! ## Lines -/

namespace Line

/-- Collects the line that is being read, latest item first. -/
def cutInto {α : Type} (isEnd : α → Bool) (line : List α) : List α → List (List α)
  | [] => if line.isEmpty then [] else [line.reverse]
  | c :: cs =>
    if isEnd c then (c :: line).reverse :: cutInto isEnd [] cs
    else cutInto isEnd (c :: line) cs

/-- Cuts after every end mark. The parts joined give the whole back, and none is empty. -/
def cut {α : Type} (isEnd : α → Bool) (cs : List α) : List (List α) :=
  cutInto isEnd [] cs

/-- Takes the end mark of a line away: a line feed, and a carriage return before it. A
carriage return at the very end of a text, with no line feed after it, stays. -/
def dropEnd (line : List Char) : List Char :=
  match line.reverse with
  | '\n' :: '\r' :: kept => kept.reverse
  | '\n' :: kept => kept.reverse
  | _ => line

/-- The lines of a text without their end marks. -/
def ofText (cs : List Char) : List (List Char) :=
  (cut (· = '\n') cs).map dropEnd

/-- The lines of an octet sequence, each with its line feed if it has one. -/
def ofOctets (bs : List UInt8) : List (List UInt8) :=
  cut (· = 0x0A) bs

/-- Takes the next line off octets that arrive in chunks: chunks without a line feed, then
the start of the first that has one. Returns the line and what is left. -/
def next : List (List UInt8) → List UInt8 × List (List UInt8)
  | [] => ([], [])
  | chunk :: chunks =>
    match chunk.dropWhile (· ≠ 0x0A) with
    | [] =>
      let (line, rest) := next chunks
      (chunk ++ line, rest)
    | feed :: left => (chunk.takeWhile (· ≠ 0x0A) ++ [feed], left :: chunks)

/-- The lines of octets that arrive in chunks, until there is nothing left. The number of
octets is fuel enough. -/
def ofChunksWithin : Nat → List (List UInt8) → List (List UInt8)
  | 0, _ => []
  | fuel + 1, chunks =>
    match next chunks with
    | ([], _) => []
    | (line, rest) => line :: ofChunksWithin fuel rest

/-- The lines of octets that arrive in chunks, in whatever way they are divided. -/
def ofChunks (chunks : List (List UInt8)) : List (List UInt8) :=
  ofChunksWithin chunks.flatten.length chunks

end Line

end RouteBook.Text
