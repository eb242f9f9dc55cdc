/-!
# UTF-8, strictly and lossily

One reader goes through the octets once and yields, for each scalar value, that character,
and for each maximal invalid subpart the mark `none`. Strict reading refuses a text with a
mark; lossy reading writes U+FFFD for each. A maximal invalid subpart is the longest start
of a well-formed sequence that its next octet does not continue, or else a single octet.
-/

namespace RouteBook.Text.Utf8

/-- The octets of a text. -/
def encode (cs : List Char) : List UInt8 :=
  cs.flatMap String.utf8EncodeChar

/-- The number of octets that a text takes up. -/
def size (cs : List Char) : Nat :=
  (encode cs).length

/-- A sequence that has begun: how many octets it wants, the range of the next of them,
and the bits read so far. -/
structure Pending where
  wanted : Nat
  low : UInt8
  high : UInt8
  bits : Nat
deriving DecidableEq, Repr

/-- What an octet means where a scalar value may start. -/
inductive Lead where
  | scalar (c : Char)
  | opens (p : Pending)
  | stray
deriving DecidableEq, Repr

/-- Overlong forms, surrogates and values above U+10FFFF are excluded by the range of the
second octet, or by having no lead at all. -/
def lead (b : UInt8) : Lead :=
  if b < 0x80 then .scalar (Char.ofNat b.toNat)
  else if 0xC2 ≤ b ∧ b ≤ 0xDF then .opens ⟨1, 0x80, 0xBF, b.toNat - 0xC0⟩
  else if b = 0xE0 then .opens ⟨2, 0xA0, 0xBF, 0⟩
  else if b = 0xED then .opens ⟨2, 0x80, 0x9F, 0xD⟩
  else if 0xE1 ≤ b ∧ b ≤ 0xEF then .opens ⟨2, 0x80, 0xBF, b.toNat - 0xE0⟩
  else if b = 0xF0 then .opens ⟨3, 0x90, 0xBF, 0⟩
  else if 0xF1 ≤ b ∧ b ≤ 0xF3 then .opens ⟨3, 0x80, 0xBF, b.toNat - 0xF0⟩
  else if b = 0xF4 then .opens ⟨3, 0x80, 0x8F, 4⟩
  else .stray

/-- The reader between two octets: what it has read, latest first, and a sequence that has
begun. -/
structure Reader where
  found : List (Option Char) := []
  pending : Option Pending := none

/-- Reads an octet at which a scalar value may start. -/
def Reader.start (r : Reader) (b : UInt8) : Reader :=
  match lead b with
  | .scalar c => ⟨some c :: r.found, none⟩
  | .opens p => ⟨r.found, some p⟩
  | .stray => ⟨none :: r.found, none⟩

/-- Reads one octet. One that does not continue the sequence ends it as invalid and is
then read as a start. -/
def Reader.feed (r : Reader) (b : UInt8) : Reader :=
  match r.pending with
  | none => r.start b
  | some p =>
    if p.low ≤ b ∧ b ≤ p.high then
      let bits := p.bits * 64 + (b.toNat - 0x80)
      if p.wanted ≤ 1 then ⟨some (Char.ofNat bits) :: r.found, none⟩
      else ⟨r.found, some ⟨p.wanted - 1, 0x80, 0xBF, bits⟩⟩
    else Reader.start ⟨none :: r.found, none⟩ b

/-- The end of the octets: a sequence that has begun is invalid. -/
def Reader.finish (r : Reader) : List (Option Char) :=
  match r.pending with
  | none => r.found.reverse
  | some _ => (none :: r.found).reverse

/-- The scalar values of an octet sequence, `none` for each maximal invalid subpart. -/
def decode (bs : List UInt8) : List (Option Char) :=
  (bs.foldl Reader.feed {}).finish

/-- Lossy reading: each maximal invalid subpart becomes one U+FFFD. -/
def decodeLossy (bs : List UInt8) : List Char :=
  (decode bs).map fun c => c.getD '\uFFFD'

/-- Strict reading: the text, if all of it is valid. -/
def decode? (bs : List UInt8) : Option (List Char) :=
  (decode bs).mapM id

end RouteBook.Text.Utf8
