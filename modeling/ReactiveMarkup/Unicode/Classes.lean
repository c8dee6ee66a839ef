import ReactiveMarkup.Unicode.Letters
import ReactiveMarkup.Unicode.Marks
import ReactiveMarkup.Unicode.Recent

/-!
# Character classes

The classes that names, numbers, levels and patterns are made of. All of them follow the Unicode
properties and agree with ASCII below code point 128. The classes of patterns, digits and words,
leave out the characters that only the latest version of Unicode has.
-/

namespace ReactiveMarkup.Unicode

/-- A letter: the property Alphabetic. -/
def isLetter (c : Char) : Bool := letterRanges.covers c.toNat

/-- A letter, or a number of any kind (Nd, Nl, No). -/
def isLetterOrNumber (c : Char) : Bool := isLetter c || numericRanges.covers c.toNat

/-- White space: the property White_Space. -/
def isBlank (c : Char) : Bool := blankRanges.covers c.toNat

/-- A character too recent for the classes of patterns. -/
def isRecent (c : Char) : Bool := recentRanges.covers c.toNat

/-- A decimal digit of any script. -/
def isDecimalDigit (c : Char) : Bool := decimalDigitRanges.covers c.toNat && !isRecent c

/-- A character of a word: letters, marks, decimal digits, connectors and the two joiners. -/
def isWordChar (c : Char) : Bool :=
  (isLetter c || markRanges.covers c.toNat || decimalDigitRanges.covers c.toNat
    || connectorRanges.covers c.toNat || c.toNat == 0x200C || c.toNat == 0x200D) && !isRecent c

end ReactiveMarkup.Unicode
