import ReactiveMarkup.Unicode.Classes

/-!
# Sets of characters

A pattern names a set of characters by its members, by a class, or as two other sets combined.
-/

namespace ReactiveMarkup

inductive CharSet where
  | empty
  | range (first last : Char)
  | word
  | digit
  | blank
  | union (a b : CharSet)
  | intersection (a b : CharSet)
  | difference (a b : CharSet)
  | symmetricDifference (a b : CharSet)
  | complement (a : CharSet)
deriving Repr, DecidableEq

namespace CharSet

/-- Whether a set holds a character. -/
def holds : CharSet → Char → Bool
  | .empty, _ => false
  | .range first last, c => first ≤ c && c ≤ last
  | .word, c => Unicode.isWordChar c
  | .digit, c => Unicode.isDecimalDigit c
  | .blank, c => Unicode.isBlank c
  | .union a b, c => a.holds c || b.holds c
  | .intersection a b, c => a.holds c && b.holds c
  | .difference a b, c => a.holds c && !b.holds c
  | .symmetricDifference a b, c => a.holds c != b.holds c
  | .complement a, c => !a.holds c

/-- The set of one character. -/
def single (c : Char) : CharSet := .range c c

/-- Every character but the line feed. -/
def anyButLineFeed : CharSet := .complement (.single '\n')

/-- The characters in any of some ranges. -/
def ofRanges (ranges : List (Char × Char)) : CharSet :=
  ranges.foldr (fun (first, last) set => .union (.range first last) set) .empty

/-- The ASCII class of a name. -/
def named? : String → Option CharSet
  | "alnum" => some (ofRanges [('0', '9'), ('A', 'Z'), ('a', 'z')])
  | "alpha" => some (ofRanges [('A', 'Z'), ('a', 'z')])
  | "ascii" => some (.range (Char.ofNat 0) (Char.ofNat 127))
  | "blank" => some (ofRanges [('\t', '\t'), (' ', ' ')])
  | "cntrl" => some (ofRanges [(Char.ofNat 0, Char.ofNat 31), (Char.ofNat 127, Char.ofNat 127)])
  | "digit" => some (.range '0' '9')
  | "graph" => some (.range '!' '~')
  | "lower" => some (.range 'a' 'z')
  | "print" => some (.range ' ' '~')
  | "punct" => some (ofRanges [('!', '/'), (':', '@'), ('[', Char.ofNat 96), ('\x7b', '~')])
  | "space" => some (ofRanges [('\t', '\r'), (' ', ' ')])
  | "upper" => some (.range 'A' 'Z')
  | "word" => some (ofRanges [('0', '9'), ('A', 'Z'), ('_', '_'), ('a', 'z')])
  | "xdigit" => some (ofRanges [('0', '9'), ('A', 'F'), ('a', 'f')])
  | _ => none

end CharSet

end ReactiveMarkup
