/-!
# Binary64 numbers

Double precision numbers with their arithmetic in exact integers: every operation computes the exact
result as a quotient and rounds it once, a half going to the even neighbour. Finite numbers are held
in one canonical form (the mantissa has 53 bits unless the exponent is the least one), so equal
numbers with equal signs are equal as data.
-/

namespace ReactiveMarkup

/-- A binary64 number. A finite one is `mantissa * 2 ^ exponent` with a sign. -/
inductive Double where
  | finite (negative : Bool) (mantissa : Nat) (exponent : Int)
  | infinite (negative : Bool)
  | nan
deriving DecidableEq, Repr, Inhabited

namespace Double

/-- Zero of either sign. -/
def zero (negative : Bool) : Double := .finite negative 0 (-1074)

/-- The quotient rounded to the nearest integer, a half to the even one. -/
def roundDiv (num den : Nat) : Nat :=
  let floor := num / den
  let twice := 2 * (num % den)
  if twice < den then floor
  else if den < twice then floor + 1
  else if floor % 2 = 0 then floor else floor + 1

/-- The greatest `k` with `2 ^ k * den ≤ num`, for positive arguments. -/
def binaryMagnitude (num den : Nat) : Int :=
  let guess : Int := num.log2 - den.log2
  if num <<< (-guess).toNat < den <<< guess.toNat then guess - 1 else guess

/-- The number nearest to a quotient of natural numbers. -/
def ofRatio (negative : Bool) (num den : Nat) : Double :=
  if num = 0 then zero negative
  else
    let exponent := max (binaryMagnitude num den - 52) (-1074)
    let mantissa := roundDiv (num <<< (-exponent).toNat) (den <<< exponent.toNat)
    let (mantissa, exponent) :=
      if mantissa = 1 <<< 53 then (1 <<< 52, exponent + 1) else (mantissa, exponent)
    if 971 < exponent then .infinite negative else .finite negative mantissa exponent

/-- The number nearest to an integer. -/
def ofInt (n : Int) : Double := ofRatio (n < 0) n.natAbs 1

/-- The number nearest to `digits * 10 ^ exponent`. Exponents out of reach are decided by the count
of digits, so that no huge power is formed. -/
def ofDecimal (negative : Bool) (digits : Nat) (exponent : Int) : Double :=
  if digits = 0 then zero negative
  else
    let magnitude := exponent + (Nat.toDigits 10 digits).length
    if 310 < magnitude then .infinite negative
    else if magnitude < -330 then zero negative
    else ofRatio negative (digits * Nat.pow 10 exponent.toNat) (Nat.pow 10 (-exponent).toNat)

/-- Numerator of the exact absolute value. -/
def numerator (mantissa : Nat) (exponent : Int) : Nat := mantissa <<< exponent.toNat

/-- Denominator of the exact absolute value. -/
def denominator (exponent : Int) : Nat := 1 <<< (-exponent).toNat

/-- The signed mantissa of a finite number written with a smaller exponent. -/
def signedAt (negative : Bool) (mantissa : Nat) (exponent base : Int) : Int :=
  let size := Int.ofNat (mantissa <<< (exponent - base).toNat)
  if negative then -size else size

def neg : Double → Double
  | .finite negative mantissa exponent => .finite (!negative) mantissa exponent
  | .infinite negative => .infinite (!negative)
  | .nan => .nan

/-- The rounded sum. An exact zero is negative only between two negative numbers. -/
def add : Double → Double → Double
  | .nan, _ => .nan
  | _, .nan => .nan
  | .infinite a, .infinite b => if a = b then .infinite a else .nan
  | .infinite a, .finite .. => .infinite a
  | .finite .., .infinite b => .infinite b
  | .finite na ma ea, .finite nb mb eb =>
    let base := min ea eb
    let sum := signedAt na ma ea base + signedAt nb mb eb base
    if sum = 0 then zero (na && nb)
    else ofRatio (sum < 0) (numerator sum.natAbs base) (denominator base)

def sub (a b : Double) : Double := add a (neg b)

/-- Whether a finite number is a zero; infinities are not. -/
def isZero : Double → Bool
  | .finite _ mantissa _ => mantissa == 0
  | _ => false

def mul : Double → Double → Double
  | .nan, _ => .nan
  | _, .nan => .nan
  | .infinite a, .infinite b => .infinite (a != b)
  | .infinite a, .finite b m _ => if m = 0 then .nan else .infinite (a != b)
  | .finite a m _, .infinite b => if m = 0 then .nan else .infinite (a != b)
  | .finite na ma ea, .finite nb mb eb =>
    ofRatio (na != nb) (numerator ma ea * numerator mb eb) (denominator ea * denominator eb)

def div : Double → Double → Double
  | .nan, _ => .nan
  | _, .nan => .nan
  | .infinite _, .infinite _ => .nan
  | .infinite a, .finite b _ _ => .infinite (a != b)
  | .finite a _ _, .infinite b => zero (a != b)
  | .finite na ma ea, .finite nb mb eb =>
    if mb = 0 then if ma = 0 then .nan else .infinite (na != nb)
    else ofRatio (na != nb) (numerator ma ea * denominator eb) (denominator ea * numerator mb eb)

/-- The exact remainder of the quotient cut off toward zero; it has the sign of the dividend. -/
def rem : Double → Double → Double
  | .nan, _ => .nan
  | _, .nan => .nan
  | .infinite _, _ => .nan
  | .finite a m e, .infinite _ => .finite a m e
  | .finite na ma ea, .finite nb mb eb =>
    if mb = 0 then .nan
    else
      let base := min ea eb
      let rest := (signedAt na ma ea base).natAbs % (signedAt nb mb eb base).natAbs
      ofRatio na (numerator rest base) (denominator base)

/-- The order of two numbers; nothing is comparable to a NaN, and both zeros are equal. -/
def compare? : Double → Double → Option Ordering
  | .nan, _ => none
  | _, .nan => none
  | .infinite a, .infinite b =>
    some (if a = b then .eq else if a then .lt else .gt)
  | .infinite a, .finite .. => some (if a then .lt else .gt)
  | .finite .., .infinite b => some (if b then .gt else .lt)
  | .finite na ma ea, .finite nb mb eb =>
    let base := min ea eb
    some (compare (signedAt na ma ea base) (signedAt nb mb eb base))

/-- The integer a number is equal to. -/
def toInt? : Double → Option Int
  | .finite negative mantissa exponent =>
    let den := denominator exponent
    let num := numerator mantissa exponent
    if num % den = 0 then some (if negative then -(num / den : Nat) else (num / den : Nat))
    else none
  | _ => none

/-- Whether a number is neither infinite nor a NaN. -/
def isFinite : Double → Bool
  | .finite .. => true
  | _ => false

end Double

end ReactiveMarkup
