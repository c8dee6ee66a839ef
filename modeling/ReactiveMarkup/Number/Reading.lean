import ReactiveMarkup.Number.Double

/-!
# Reading numbers

The written form of a number: an optional sign, digits with an optional fraction of which at least
one part is not empty, and an optional exponent; or one of the words for infinity and NaN. The value
is the binary64 number nearest to the written one. Escapes are written in hexadecimal digits.
-/

namespace ReactiveMarkup.Decimal

/-- The digits at the front of a text and the rest. -/
def spanDigits (text : List Char) : List Char × List Char := text.span Char.isDigit

/-- The natural number some decimal digits spell. -/
def natOfDigits (digits : List Char) : Nat :=
  digits.foldl (fun n c => 10 * n + (c.toNat - '0'.toNat)) 0

/-- A sign at the front of a text: whether it is a minus, and the rest. -/
def readSign : List Char → Bool × List Char
  | '-' :: rest => (true, rest)
  | '+' :: rest => (false, rest)
  | text => (false, text)

/-- The exponent part, which has to fill the text; an empty text is exponent zero. -/
def readExponent : List Char → Option Int
  | [] => some 0
  | mark :: rest =>
    if mark == 'e' || mark == 'E' then
      let (negative, digits) := readSign rest
      if digits.isEmpty || !digits.all Char.isDigit then none
      else some (if negative then -(natOfDigits digits : Int) else natOfDigits digits)
    else none

/-- The digits of the fraction and the rest of the text. -/
def readFraction : List Char → List Char × List Char
  | '.' :: rest => spanDigits rest
  | text => ([], text)

/-- Reads an unsigned number in digits. -/
def readUnsigned (negative : Bool) (text : List Char) : Option Double :=
  let (whole, rest) := spanDigits text
  let (fraction, rest) := readFraction rest
  if whole.isEmpty && fraction.isEmpty then none
  else do
    let exponent ← readExponent rest
    return .ofDecimal negative (natOfDigits (whole ++ fraction)) (exponent - fraction.length)

/-- Reads a number; the whole text has to be one. The words are read in any case. -/
def readDouble (text : List Char) : Option Double :=
  let (negative, body) := readSign text
  let word := String.ofList (body.map Char.toLower)
  if word == "inf" || word == "infinity" then some (.infinite negative)
  else if word == "nan" then some .nan
  else readUnsigned negative body

/-- Reads a signed integer between two bounds. -/
def readInt (low high : Int) (text : List Char) : Option Int :=
  let (negative, digits) := readSign text
  if digits.isEmpty || !digits.all Char.isDigit then none
  else
    let n : Int := if negative then -(natOfDigits digits : Int) else natOfDigits digits
    if low ≤ n && n ≤ high then some n else none

/-- Reads a natural number up to a bound; a plus sign may stand before it, a minus may not. -/
def readNat (high : Nat) (text : List Char) : Option Nat :=
  let digits := match text with
    | '+' :: rest => rest
    | _ => text
  if digits.isEmpty || !digits.all Char.isDigit then none
  else if natOfDigits digits ≤ high then some (natOfDigits digits) else none

end ReactiveMarkup.Decimal

namespace ReactiveMarkup.Hexadecimal

/-- The number a hexadecimal digit of either case stands for. -/
def digit? (c : Char) : Option Nat :=
  if '0' ≤ c && c ≤ '9' then some (c.toNat - 48)
  else if 'a' ≤ c && c ≤ 'f' then some (c.toNat - 87)
  else if 'A' ≤ c && c ≤ 'F' then some (c.toNat - 55)
  else none

end ReactiveMarkup.Hexadecimal
