import ReactiveMarkup.Value.Basic
import ReactiveMarkup.Number.Reading

/-!
# Number literals

A literal without fraction and exponent is an integer when it fits 64 bits, signed or unsigned.
Every other literal is a binary64 number: the leading digits that fit 64 bits are taken as one
integer, which is rounded and then scaled by a rounded power of ten. Of a literal that is too large
there is no value.
-/

namespace ReactiveMarkup.Value.Numeral

structure Parts where
  negative : Bool
  whole : List Char
  fraction : List Char
  exponent : Option (Bool × List Char)

/-- Reads the parts of a literal and the rest of the text. -/
def readParts (text : List Char) : Option (Parts × List Char) :=
  let (negative, text) := match text with
    | '-' :: rest => (true, rest)
    | _ => (false, text)
  let (whole, rest) := Decimal.spanDigits text
  if whole.isEmpty || (whole.head? == some '0' && whole.length > 1) then none
  else
    let (fraction, afterFraction) := Decimal.readFraction rest
    if rest.head? == some '.' && fraction.isEmpty then none
    else match afterFraction with
      | mark :: more =>
        if mark == 'e' || mark == 'E' then
          let (down, more) := Decimal.readSign more
          let (digits, rest) := Decimal.spanDigits more
          if digits.isEmpty then none
          else some (⟨negative, whole, fraction, some (down, digits)⟩, rest)
        else some (⟨negative, whole, fraction, none⟩, afterFraction)
      | [] => some (⟨negative, whole, fraction, none⟩, [])

/-- Appends digits to a number while it stays below `2 ^ 64`; the second part counts the digits
left out. -/
def keepDigits : Nat → List Char → Nat × Nat
  | kept, [] => (kept, 0)
  | kept, c :: rest =>
    let next := 10 * kept + (c.toNat - '0'.toNat)
    if next < 1 <<< 64 then keepDigits next rest else (kept, rest.length + 1)

/-- Divides by `10 ^ 308` until the exponent is in reach. -/
def scaleDown : Nat → Double → Nat → Double
  | 0, d, _ => d
  | fuel + 1, d, exponent =>
    if exponent ≤ 308 then d.div (.ofDecimal false 1 exponent)
    else if d.isZero then d
    else scaleDown fuel (d.div (.ofDecimal false 1 308)) (exponent - 308)

/-- A rounded integer scaled by a power of ten; none when the result is too large. -/
def scale (digits : Nat) (exponent : Int) : Option Double :=
  let d := Double.ofInt digits
  if exponent < 0 then some (scaleDown 4 d exponent.natAbs)
  else if 308 < exponent then if d.isZero then some d else none
  else
    let scaled := d.mul (.ofDecimal false 1 exponent)
    if scaled.isFinite then some scaled else none

/-- The greatest exponent that is read digit by digit. -/
def greatestExponent : Nat := 1 <<< 31 - 1

/-- The value of a literal's parts. -/
def Parts.value (parts : Parts) : Option Number :=
  let (whole, dropped) := keepDigits 0 parts.whole
  let signed (d : Double) : Number := .float (if parts.negative then d.neg else d)
  if parts.fraction.isEmpty && parts.exponent.isNone && dropped == 0
      && !(parts.negative && (whole == 0 || 1 <<< 63 < whole)) then
    some (.int (if parts.negative then -(whole : Int) else whole))
  else
    let (digits, ignored) := keepDigits whole parts.fraction
    let shift : Int := dropped - (parts.fraction.length - ignored : Nat)
    match parts.exponent with
    | none => (scale digits shift).map signed
    | some (down, exponent) =>
      let size := Decimal.natOfDigits exponent
      if greatestExponent < size then
        if digits != 0 && !down then none else some (signed (.zero false))
      else (scale digits (if down then shift - size else shift + size)).map signed

end ReactiveMarkup.Value.Numeral
