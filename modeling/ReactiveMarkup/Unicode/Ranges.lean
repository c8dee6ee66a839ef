/-!
# Tables of code points

A set of characters is a list of disjoint ranges in ascending order, so a search stops at the first
range that begins behind the character. A case mapping is a list of runs whose members all move by
the same distance.
-/

namespace ReactiveMarkup.Unicode

/-- Disjoint code point ranges in ascending order, both ends included. -/
abbrev Ranges := List (Nat × Nat)

/-- Whether a code point lies in one of the ranges. -/
def Ranges.covers : Ranges → Nat → Bool
  | [], _ => false
  | (first, last) :: rest, code =>
    if code < first then false else if code ≤ last then true else covers rest code

/-- The code points `first, first + step, …, last`, which a case mapping moves by `shift`. -/
structure CaseRun where
  first : Nat
  last : Nat
  step : Nat
  shift : Int

/-- Whether the run holds a code point. -/
def CaseRun.holds (run : CaseRun) (code : Nat) : Bool :=
  run.first ≤ code && code ≤ run.last && (code - run.first) % run.step == 0

/-- The code point a case mapping takes `code` to, if the mapping moves it. -/
def moveCase? : List CaseRun → Nat → Option Nat
  | [], _ => none
  | run :: rest, code =>
    if code < run.first then none
    else if run.holds code then some (code + run.shift).toNat
    else moveCase? rest code

end ReactiveMarkup.Unicode
