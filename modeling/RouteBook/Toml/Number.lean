import RouteBook.Decimal.Double
import RouteBook.Toml.Item
import RouteBook.Toml.Lexeme

/-!
# Numbers and times of a TOML text

What starts with a sign or a digit is a time, a decimal number or an integer, tried in this
order. An underscore may stand between two digits. Integers must fit 64 bits; a decimal
number must not be too large, unless it is negative.
-/

namespace RouteBook.Toml

/-! ## Integers -/

/-- More digits of a kind, each of which may have an underscore before it. An underscore
with no digit after it is an error. -/
def moreDigits (isDigit : Char → Bool) : List Char → Option (List Char × List Char)
  | [] => some ([], [])
  | '_' :: d :: rest =>
    if isDigit d then (moreDigits isDigit rest).map fun (ds, rest) => (d :: ds, rest) else none
  | ['_'] => none
  | d :: rest =>
    if isDigit d then (moreDigits isDigit rest).map fun (ds, rest) => (d :: ds, rest)
    else some ([], d :: rest)

/-- One digit or more. -/
def digits? (isDigit : Char → Bool) : List Char → Option (List Char × List Char)
  | [] => none
  | d :: rest =>
    if isDigit d then (moreDigits isDigit rest).map fun (ds, rest) => (d :: ds, rest) else none

/-- A sign, if there is one: whether it is a minus, and the rest. -/
def sign : List Char → Bool × List Char
  | '-' :: rest => (true, rest)
  | '+' :: rest => (false, rest)
  | cs => (false, cs)

/-- The digits of a whole number: a zero stands alone. -/
def wholeDigits? : List Char → Option (List Char × List Char)
  | '0' :: rest => some (['0'], rest)
  | cs => digits? Char.isDigit cs

/-- An integer that fits 64 bits. -/
def fitting? (i : Int) : Option Item :=
  if -9223372036854775808 ≤ i ∧ i ≤ 9223372036854775807 then some (.integer i) else none

/-- An integer without a sign, of digits of a base. -/
def unsigned? (base : Nat) (isDigit : Char → Bool) (cs : List Char) :
    Option (Item × List Char) := do
  let (ds, rest) ← digits? isDigit cs
  some (← fitting? (numberOf base ds), rest)

/-- An integer in base ten, or after a mark in base two, eight or sixteen. -/
def integer? (cs : List Char) : Option (Item × List Char) :=
  match cs with
  | '0' :: 'x' :: rest => unsigned? 16 isHexDigit rest
  | '0' :: 'o' :: rest => unsigned? 8 (fun c => '0' ≤ c && c ≤ '7') rest
  | '0' :: 'b' :: rest => unsigned? 2 (fun c => c = '0' || c = '1') rest
  | cs => do
    let (negative, cs) := sign cs
    let (ds, rest) ← wholeDigits? cs
    let n : Int := numberOf 10 ds
    some (← fitting? (if negative then -n else n), rest)

/-! ## Decimal numbers -/

/-- An exponent, if there is one: the power of ten, and the rest. -/
def exponent? : List Char → Option (Option Int × List Char)
  | 'e' :: rest | 'E' :: rest => do
    let (negative, rest) := sign rest
    let (ds, rest) ← digits? Char.isDigit rest
    let n : Int := numberOf 10 ds
    some (some (if negative then -n else n), rest)
  | cs => some (none, cs)

/-- The digits stand for a number with a finite double, when multiplied by a power of ten.
Only near the limit is the number worked out. -/
def isFinite (ds : List Char) (power : Int) : Bool :=
  let ds := ds.dropWhile (· = '0')
  let magnitude : Int := ds.length + power
  if ds.isEmpty ∨ magnitude ≤ 300 then true
  else if 320 ≤ magnitude then false
  else ((Decimal.Ratio.mk (numberOf 10 ds) 1).scale 10 power).toDouble?.isSome

/-- What a text consists of up to a rest of it. -/
def textUpTo (rest cs : List Char) : String :=
  String.ofList (cs.take (cs.length - rest.length))

/-- Infinity and what is no number, after a sign. -/
def special? : List Char → Option (List Char)
  | 'i' :: 'n' :: 'f' :: rest => some rest
  | 'n' :: 'a' :: 'n' :: rest => some rest
  | _ => none

/-- A decimal number: it has a fraction or an exponent, or both, or is a special one. -/
def decimal? (cs : List Char) : Option (Item × List Char) := do
  let (negative, body) := sign cs
  match special? body with
  | some rest => some (.decimal (textUpTo rest cs), rest)
  | none =>
    let (whole, rest) ← wholeDigits? body
    let (fraction, rest) ←
      match rest with
      | '.' :: rest => digits? Char.isDigit rest
      | rest => some ([], rest)
    let (power, rest) ← exponent? rest
    if fraction = [] ∧ power = none then none
    else if negative ∨ isFinite (whole ++ fraction) (power.getD 0 - fraction.length) then
      some (.decimal (textUpTo rest cs), rest)
    else none

/-! ## Dates and times -/

/-- A number of exactly `count` digits. -/
def fixed? (count : Nat) (cs : List Char) : Option (Nat × List Char) :=
  let ds := cs.take count
  if ds.length = count ∧ ds.all Char.isDigit then some (numberOf 10 ds, cs.drop count) else none

/-- A given character. -/
def mark? (c : Char) : List Char → Option (List Char)
  | d :: rest => if d = c then some rest else none
  | [] => none

/-- The number of days of a month. -/
def daysOf (year month : Nat) : Nat :=
  if month = 2 then
    if year % 4 = 0 ∧ (year % 100 ≠ 0 ∨ year % 400 = 0) then 29 else 28
  else if month ∈ [4, 6, 9, 11] then 30 else 31

/-- A date that exists. -/
def date? (cs : List Char) : Option (List Char) := do
  let (year, cs) ← fixed? 4 cs
  let (month, cs) ← fixed? 2 (← mark? '-' cs)
  let (day, cs) ← fixed? 2 (← mark? '-' cs)
  if 1 ≤ month ∧ month ≤ 12 ∧ 1 ≤ day ∧ day ≤ daysOf year month then some cs else none

/-- Digits of a second, if there are any. -/
def afterSecond (cs : List Char) : List Char :=
  match cs with
  | '.' :: d :: rest => if d.isDigit then rest.dropWhile Char.isDigit else cs
  | cs => cs

/-- A time of day; a minute may have a leap second. -/
def timeOfDay? (cs : List Char) : Option (List Char) := do
  let (hour, cs) ← fixed? 2 cs
  let (minute, cs) ← fixed? 2 (← mark? ':' cs)
  let (second, cs) ← fixed? 2 (← mark? ':' cs)
  if hour ≤ 23 ∧ minute ≤ 59 ∧ second ≤ 60 then some (afterSecond cs) else none

/-- How far a time is off, if it says so. -/
def offset? : List Char → Option (List Char)
  | [] => some []
  | c :: cs =>
    if c = 'Z' ∨ c = 'z' then some cs
    else if c = '+' ∨ c = '-' then do
      let (hour, cs) ← fixed? 2 cs
      let (minute, cs) ← fixed? 2 (← mark? ':' cs)
      if hour ≤ 23 ∧ minute ≤ 59 then some cs else none
    else some (c :: cs)

/-- A date, a time of day, or a date with a time after it and perhaps an offset. -/
def time? (cs : List Char) : Option (Item × List Char) := do
  let rest ←
    match date? cs with
    | none => timeOfDay? cs
    | some rest =>
      match rest with
      | c :: later =>
        if c = 'T' ∨ c = 't' ∨ c = ' ' then
          match timeOfDay? later with
          | some rest => offset? rest
          | none => some rest
        else some rest
      | [] => some []
  some (.time (textUpTo rest cs), rest)

/-- A time, a decimal number or an integer. -/
def number? (cs : List Char) : Option (Item × List Char) :=
  ((time? cs).orElse fun _ => decimal? cs).orElse fun _ => integer? cs

end RouteBook.Toml
