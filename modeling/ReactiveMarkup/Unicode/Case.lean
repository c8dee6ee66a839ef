import ReactiveMarkup.Unicode.CaseTables

/-!
# Upper and lower case

Full case mappings of whole texts. A capital sigma becomes a final sigma when a cased letter stands
before it and none after it, case-ignorable characters being skipped on both sides; every other
character is mapped without regard to its neighbours. Comparisons of markup names go through
`lowerAscii`, which leaves everything but the 26 Latin capitals alone.
-/

namespace ReactiveMarkup.Unicode

/-- The small form of one character taken alone. Only the dotted capital I has two. -/
def lowerChar (c : Char) : List Char :=
  if c.toNat = 0x130 then [Char.ofNat 0x69, Char.ofNat 0x307]
  else match moveCase? lowerRuns c.toNat with
    | some code => [Char.ofNat code]
    | none => [c]

/-- The capital of one character: one character or several. -/
def upperChar (c : Char) : List Char :=
  match upperExpansions.lookup c.toNat with
  | some codes => codes.map Char.ofNat
  | none => match moveCase? upperRuns c.toNat with
    | some code => [Char.ofNat code]
    | none => [c]

/-- Whether the first character that is not case-ignorable is cased. -/
def nextIsCased (text : List Char) : Bool :=
  match text.dropWhile fun c => caseIgnorableRanges.covers c.toNat with
  | [] => false
  | c :: _ => casedRanges.covers c.toNat

/-- Lower case of a text that follows `before`, which is held in reverse. -/
def lowerAfter : List Char → List Char → List Char
  | _, [] => []
  | before, c :: rest =>
    let small :=
      if c.toNat = 0x3A3 then
        if nextIsCased before && !nextIsCased rest then [Char.ofNat 0x3C2] else [Char.ofNat 0x3C3]
      else lowerChar c
    small ++ lowerAfter (c :: before) rest

def lower (text : String) : String := String.ofList (lowerAfter [] text.toList)

def upper (text : String) : String := String.ofList (text.toList.flatMap upperChar)

/-- A text with the Latin capitals A to Z made small and all else kept. -/
def lowerAscii (text : String) : String := String.ofList (text.toList.map Char.toLower)

/-- Equality of two names up to the case of the Latin letters A to Z. -/
def sameName (a b : String) : Bool := a.toList.map Char.toLower == b.toList.map Char.toLower

end ReactiveMarkup.Unicode
