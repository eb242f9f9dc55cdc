import RouteBook.Decimal.Double
import RouteBook.Json.Lexeme

/-!
# Numbers of a JSON text

No member that is kept holds a number, so a number is read only to say what was found in
place of the value wanted. It is an integer where it has no fraction and no exponent and
fits 64 bits, and else a double, which may be too large.
-/

namespace RouteBook.Json

/-- The number that digits stand for. -/
def digitsValue (ds : List Char) : Nat :=
  ds.foldl (fun n d => n * 10 + (d.toNat - '0'.toNat)) 0

/-- A decimal number being read: `significand * 10 ^ exponent`. The significand has 64
bits; `full` means that a digit did not fit, after which no digit is added. -/
structure Significand where
  value : Nat
  exponent : Int
  full : Bool
deriving DecidableEq, Repr

/-- Takes a digit before the point. One that does not fit counts as a power of ten. -/
def Significand.whole (s : Significand) (d : Char) : Significand :=
  let next := s.value * 10 + (d.toNat - '0'.toNat)
  if s.full || UInt64.size ≤ next then { s with exponent := s.exponent + 1, full := true }
  else { s with value := next }

/-- Takes a digit after the point. One that does not fit is dropped. -/
def Significand.fraction (s : Significand) (d : Char) : Significand :=
  let next := s.value * 10 + (d.toNat - '0'.toNat)
  if s.full || UInt64.size ≤ next then { s with full := true }
  else { s with value := next, exponent := s.exponent - 1 }

/-- The double that a significand comes to: exponents below -308 are applied 308 at a
time, and exponents above 308 are too large for any value but zero. -/
def scaled? (x : Decimal.Double) (exponent : Int) : Nat → Option Decimal.Double
  | 0 => some x
  | fuel + 1 =>
    if exponent.natAbs ≤ 308 then x.timesTen? exponent
    else if x.mantissa = 0 then some x
    else if 0 ≤ exponent then none
    else do scaled? (← x.timesTen? (-308)) (exponent + 308) fuel

/-- What a number with a fraction or an exponent is found to be. -/
def decimalFound (negative : Bool) (value : Nat) (exponent : Int) : Except Fault Found :=
  match (Decimal.Ratio.toDouble? ⟨value, 1⟩).bind (scaled? · exponent 4) with
  | none => .error .numberOutOfRange
  | some x => .ok (.decimal ((if negative then "-" else "") ++ x.text))

/-- Reads an exponent after its `e`. Beyond 31 bits it decides alone. -/
def exponentPart (negative : Bool) (value : Nat) (exponent : Int) (cs : List Char) :
    Except Fault Found := do
  let (down, cs) := match cs with
    | '+' :: cs => (false, cs)
    | '-' :: cs => (true, cs)
    | cs => (false, cs)
  match cs with
  | [] => .error .endInValue
  | c :: _ =>
    if !c.isDigit then .error .invalidNumber else
    let power := digitsValue (digits cs)
    if 2147483647 < power then
      if value ≠ 0 ∧ !down then .error .numberOutOfRange else decimalFound negative 0 0
    else decimalFound negative value (if down then exponent - power else exponent + power)

/-- The value of a number without fraction and exponent: an integer where it fits 64 bits,
except that minus zero is none. -/
def wholeFound (negative : Bool) (s : Significand) : Except Fault Found :=
  if s.full then decimalFound negative s.value s.exponent
  else if !negative then .ok (.integer s.value)
  else if s.value = 0 ∨ 9223372036854775808 < s.value then decimalFound true s.value 0
  else .ok (.integer (-s.value))

/-- Reads what follows the whole digits of a number. -/
def afterWhole (negative : Bool) (s : Significand) (cs : List Char) : Except Fault Found :=
  match cs with
  | '.' :: cs =>
    match digits cs, afterDigits cs with
    | [], [] => .error .endInValue
    | [], _ :: _ => .error .invalidNumber
    | ds, rest =>
      let s := ds.foldl Significand.fraction { s with full := false }
      match rest with
      | 'e' :: cs | 'E' :: cs => exponentPart negative s.value s.exponent cs
      | _ => decimalFound negative s.value s.exponent
  | 'e' :: cs | 'E' :: cs => exponentPart negative s.value s.exponent cs
  | _ => wholeFound negative s

/-- Reads a number where another kind of value was wanted, from its first digit on. -/
def unsignedFound (negative : Bool) (cs : List Char) : Except Fault Found :=
  match cs with
  | [] => .error .endInValue
  | '0' :: rest =>
    match rest with
    | c :: _ =>
      if c.isDigit then .error .invalidNumber else afterWhole negative ⟨0, 0, false⟩ rest
    | [] => afterWhole negative ⟨0, 0, false⟩ rest
  | c :: _ =>
    if c.isDigit then
      afterWhole negative ((digits cs).foldl Significand.whole ⟨0, 0, false⟩) (afterDigits cs)
    else .error .invalidNumber

/-- Reads a number where another kind of value was wanted. -/
def numberFound : List Char → Except Fault Found
  | '-' :: rest => unsignedFound true rest
  | cs => unsignedFound false cs

end RouteBook.Json
