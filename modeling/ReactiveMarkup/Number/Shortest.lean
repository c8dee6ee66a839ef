import ReactiveMarkup.Number.Reading

/-!
# Shortest decimal text

A finite number is written with the fewest digits that read back as it, and among those with the
digits nearest to it. For each count of digits only the two neighbours of the number on that decimal
grid can do, since every point that reads back lies around the number.
-/

namespace ReactiveMarkup.Decimal

/-- Significant digits with the position of the decimal point: the value is
`0.d₁d₂… * 10 ^ point`. -/
structure Digits where
  digits : List Char
  point : Int

/-- How numbers are written. -/
structure Format where
  /-- The least decimal exponent that is written without an exponent part. -/
  leastPlain : Int
  /-- The greatest decimal exponent that is written without an exponent part. -/
  greatestPlain : Int

/-- The least `k` with `num < 10 ^ k * den`, searched upward from `k`. -/
def decimalPointFrom (num den : Nat) : Nat → Int → Int
  | 0, k => k
  | fuel + 1, k =>
    if num * Nat.pow 10 (-k).toNat < den * Nat.pow 10 k.toNat then k
    else decimalPointFrom num den fuel (k + 1)

/-- The position of the decimal point of a positive quotient. -/
def decimalPoint (num den : Nat) : Int :=
  let low := (Double.binaryMagnitude num den * 30103) / 100000 - 1
  decimalPointFrom num den 4 low

/-- The nearest number of `count` digits that reads back as `target`, in units of
`10 ^ (point - count)`. -/
def digitsOfCount (target : Double) (num den : Nat) (point : Int) (count : Nat) : Option Nat :=
  let unit := point - count
  let num := num * Nat.pow 10 (-unit).toNat
  let den := den * Nat.pow 10 unit.toNat
  let below := num / den
  let readsBack (n : Nat) := Double.ofDecimal false n unit == target
  let nearer := if 2 * (num % den) < den then below
    else if den < 2 * (num % den) then below + 1
    else if below % 2 = 0 then below else below + 1
  let farther := if nearer = below then below + 1 else below
  if readsBack nearer then some nearer else if readsBack farther then some farther else none

/-- The first count of digits from `count` on that has a number reading back. -/
def shortestFrom (target : Double) (num den : Nat) (point : Int) : Nat → Nat → Nat × Int
  | 0, count =>
    (num * Nat.pow 10 (count - point).toNat / (den * Nat.pow 10 (point - count).toNat),
      point - count)
  | fuel + 1, count =>
    match digitsOfCount target num den point count with
    | some n => (n, point - count)
    | none => shortestFrom target num den point fuel (count + 1)

/-- The shortest digits of a positive number `mantissa * 2 ^ exponent`, without zeros at the end. -/
def shortest (mantissa : Nat) (exponent : Int) : Digits :=
  let num := Double.numerator mantissa exponent
  let den := Double.denominator exponent
  let (n, unit) :=
    shortestFrom (.finite false mantissa exponent) num den (decimalPoint num den) 17 1
  let digits := Nat.toDigits 10 n
  ⟨(digits.reverse.dropWhile (· == '0')).reverse, unit + digits.length⟩

/-- Digits without an exponent part, with at least one digit on each side of the point. -/
def plain (d : Digits) : String :=
  let zeros (n : Int) := List.replicate n.toNat '0'
  let whole :=
    if d.point ≤ 0 then ['0']
    else d.digits.take d.point.toNat ++ zeros (d.point - d.digits.length)
  let fraction :=
    if d.point ≤ 0 then zeros (-d.point) ++ d.digits else d.digits.drop d.point.toNat
  String.ofList (whole ++ '.' :: (if fraction.isEmpty then ['0'] else fraction))

/-- Digits with one digit before the point and a signed exponent. -/
def scientific (d : Digits) : String :=
  let exponent := d.point - 1
  let fraction := d.digits.drop 1
  String.ofList (d.digits.take 1 ++ (if fraction.isEmpty then [] else '.' :: fraction)
    ++ ['e', if exponent < 0 then '-' else '+'] ++ Nat.toDigits 10 exponent.natAbs)

/-- The text of a number in a format. -/
def write (format : Format) : Double → String
  | .nan => "NaN"
  | .infinite negative => if negative then "-inf" else "inf"
  | .finite negative mantissa exponent =>
    let size :=
      if mantissa = 0 then "0.0"
      else
        let d := shortest mantissa exponent
        if format.leastPlain ≤ d.point - 1 && d.point - 1 ≤ format.greatestPlain then plain d
        else scientific d
    if negative then "-" ++ size else size

end ReactiveMarkup.Decimal
