/-!
# Double-precision numbers, exactly

A non-negative double is kept as a mantissa and a power of two, so that rounding, products
and quotients can be computed in natural numbers. The decimal form of a double has the
fewest digits that round back to it, and of those the nearest.
-/

namespace RouteBook.Decimal

/-- The value `mantissa * 2 ^ exponent`, with `mantissa < 2 ^ 53`. -/
structure Double where
  mantissa : Nat
  exponent : Int
deriving DecidableEq, Repr

/-- A fraction of natural numbers, for exact intermediate values. -/
structure Ratio where
  num : Nat
  den : Nat
deriving DecidableEq, Repr

/-- The fraction multiplied by a power of `base`. -/
def Ratio.scale (r : Ratio) (base : Nat) (power : Int) : Ratio :=
  match power with
  | .ofNat k => { r with num := r.num * Nat.pow base k }
  | .negSucc k => { r with den := r.den * Nat.pow base (k + 1) }

/-- The nearest natural number, a half going to the even neighbour. -/
def Ratio.round (r : Ratio) : Nat :=
  let low := r.num / r.den
  let twice := 2 * (r.num % r.den)
  if twice < r.den ∨ (twice = r.den ∧ low % 2 = 0) then low else low + 1

/-- The exponent of the doubles around a positive fraction: mantissas there have 53 bits,
or fewer where no smaller exponent exists. -/
def Ratio.exponent (r : Ratio) : Int :=
  let guess : Int := (r.num.log2 : Int) - r.den.log2
  let scaled := r.scale 2 (-guess)
  let top := if scaled.num < scaled.den then guess - 1 else guess
  max (top - 52) (-1074)

/-- The nearest double of a fraction, or none if that would be infinite. -/
def Ratio.toDouble? (r : Ratio) : Option Double :=
  if r.num = 0 then some ⟨0, -1074⟩ else
  let exponent := r.exponent
  let mantissa := (r.scale 2 (-exponent)).round
  let result : Double :=
    if mantissa = Nat.pow 2 53 then ⟨Nat.pow 2 52, exponent + 1⟩ else ⟨mantissa, exponent⟩
  if result.exponent > 971 then none else some result

/-- The exact value of a double. -/
def Double.toRatio (x : Double) : Ratio :=
  (Ratio.mk x.mantissa 1).scale 2 x.exponent

/-- The nearest double of the product with `10 ^ power`, where that power is itself taken
as the nearest double, as a table of powers holds it. -/
def Double.timesTen? (x : Double) (power : Int) : Option Double := do
  let table ← (Ratio.mk (Nat.pow 10 power.natAbs) 1).toDouble?
  let a := x.toRatio
  let b := table.toRatio
  if 0 ≤ power then Ratio.toDouble? ⟨a.num * b.num, a.den * b.den⟩
  else Ratio.toDouble? ⟨a.num * b.den, a.den * b.num⟩

/-- The digits of a number: `digits` stand for `0.d₁d₂… * 10 ^ point`. -/
structure Digits where
  digits : List Char
  point : Int
deriving DecidableEq, Repr

/-- The least `point` with the value below `10 ^ point`. -/
def Double.point (x : Double) : Int :=
  let r := x.toRatio
  let guess : Int := ((r.num.log2 : Int) - r.den.log2) * 30103 / 100000
  let reaches (k : Int) : Bool :=
    let s := r.scale 10 (-k)
    s.den ≤ s.num
  if reaches (guess + 1) then guess + 2 else if reaches guess then guess + 1 else guess

/-- The point of the decimal grid with `count` digits that is nearest to the value, if it
rounds back to the value. -/
def Double.onGrid? (x : Double) (count : Nat) : Option Digits :=
  let step : Int := x.point - count
  let scaled := x.toRatio.scale 10 (-step)
  let low := scaled.num / scaled.den
  let readsBack (n : Nat) : Bool := (Ratio.scale ⟨n, 1⟩ 10 step).toDouble? = some x
  let nearest := scaled.round
  let other := if nearest = low then low + 1 else low
  let chosen : Option Nat :=
    if readsBack nearest then some nearest else if readsBack other then some other else none
  chosen.map fun n =>
    let digits := Nat.toDigits 10 n
    { digits, point := step + digits.length }

/-- Tries the grids with `count`, `count + 1`, … digits, at most `more` of them. -/
def Double.shortestFrom (x : Double) (count : Nat) : Nat → Digits
  | 0 => { digits := ['0'], point := 1 }
  | more + 1 => (x.onGrid? count).getD (x.shortestFrom (count + 1) more)

/-- The fewest digits that round back to a double; 17 are always enough. -/
def Double.shortest (x : Double) : Digits :=
  if x.mantissa = 0 then { digits := ['0'], point := 1 } else x.shortestFrom 1 17

/-- The same number without zeros at the end of the digits. -/
def Digits.trimmed (d : Digits) : Digits :=
  { d with digits := (d.digits.reverse.dropWhile (· = '0')).reverse }

/-- Positional writing, always with a decimal point. -/
def Digits.positional (d : Digits) : List Char :=
  if d.point ≤ 0 then '0' :: '.' :: List.replicate d.point.natAbs '0' ++ d.digits
  else
    let whole := d.point.toNat
    if d.digits.length ≤ whole then
      d.digits ++ List.replicate (whole - d.digits.length) '0' ++ ['.', '0']
    else d.digits.take whole ++ '.' :: d.digits.drop whole

/-- Writing with an exponent, which always has a sign, after one digit and the others
behind a point, if there are others. -/
def Digits.scientific (d : Digits) : List Char :=
  let exponent := d.point - 1
  let fraction := if d.digits.length ≤ 1 then [] else '.' :: d.digits.drop 1
  let mark := if exponent < 0 then '-' else '+'
  d.digits.take 1 ++ fraction ++ 'e' :: mark :: Nat.toDigits 10 exponent.natAbs

/-- Numbers below `10 ^ 16` and from `10 ^ -5` on are written positionally, all others with
an exponent. -/
def Digits.text (d : Digits) : List Char :=
  if -5 < d.point ∧ d.point ≤ 16 then d.positional else d.scientific

/-- The decimal text of a non-negative double. -/
def Double.text (x : Double) : String :=
  if x.mantissa = 0 then "0.0" else String.ofList x.shortest.trimmed.text

end RouteBook.Decimal
