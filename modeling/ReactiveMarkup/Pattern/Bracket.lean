import ReactiveMarkup.Pattern.Escape

/-!
# Sets in brackets

A set in brackets lists its members: characters, ranges, classes and further sets in brackets. It
may combine such lists by the signs for intersection, difference and symmetric difference, which
group from the left and bind equally. How deep sets stand in each other is counted, since a pattern
may be nested to a certain depth only.
-/

namespace ReactiveMarkup.Pattern

/-- How deep parts in a row nest: a single part is no row, and more of them are one level. -/
def rowDepth (count depth : Nat) : Nat := if count ≤ 1 then depth else depth + 1

/-- A set and the depth of the sets in it. -/
structure Nested where
  set : CharSet
  depth : Nat

/-- The members of a set as far as they are read: their number and the depth of the deepest. -/
structure Members where
  set : CharSet
  count : Nat
  depth : Nat

namespace Members

def empty : Members := ⟨.empty, 0, 0⟩

/-- Members with one more. -/
def add (members : Members) (member : Nested) : Members :=
  ⟨.union members.set member.set, members.count + 1, max members.depth member.depth⟩

/-- Members with one more character. -/
def addChar (members : Members) (c : Char) : Members := members.add ⟨.single c, 0⟩

/-- The set of all members. -/
def close (members : Members) : Nested := ⟨members.set, rowDepth members.count members.depth⟩

end Members

/-- What stands to the left of the members that are being read, with the sign between them. -/
structure LeftSide where
  combine : CharSet → CharSet → CharSet
  left : Nested

/-- The set of what stands to the left and the members behind it. -/
def Members.closeWith (members : Members) : Option LeftSide → Nested
  | none => members.close
  | some side =>
    let right := members.close
    ⟨side.combine side.left.set right.set, max side.left.depth right.depth + 1⟩

/-- What an opening bracket is followed by: whether the set is a complement, and the signs that
stand for themselves at the front. These are any number of hyphens, or a closing bracket. -/
def readOpening (text : List Char) : Bool × Members × List Char :=
  let (isComplement, text) := match text with
    | '^' :: rest => (true, rest)
    | text => (false, text)
  let (hyphens, rest) := text.span (· == '-')
  match hyphens, rest with
  | [], ']' :: rest => (isComplement, Members.empty.addChar ']', rest)
  | hyphens, rest => (isComplement, hyphens.foldl Members.addChar .empty, rest)

/-- A class by its name, between colons and in brackets of its own. -/
def readNamed (text : List Char) : Option (CharSet × List Char) :=
  match text with
  | ':' :: rest =>
    let (isComplement, rest) := match rest with
      | '^' :: rest => (true, rest)
      | rest => (false, rest)
    match rest.span (· != ':') with
    | (name, ':' :: ']' :: rest) =>
      (CharSet.named? (String.ofList name)).map fun set =>
        (if isComplement then .complement set else set, rest)
    | _ => none
  | _ => none

/-- A character or an escape in a set. -/
def readMemberEnd : List Char → Option (Escape × List Char)
  | '\\' :: rest => Escape.read rest
  | c :: rest => some (.character c, rest)
  | [] => none

/-- The set an escape stands for; an assertion stands for none. -/
def Escape.toSet? : Escape → Option CharSet
  | .character c => some (.single c)
  | .set inner => some inner
  | .place _ => none

/-- A member that is no set in brackets. A hyphen makes a range of two characters in order, unless a
closing bracket or another hyphen comes behind it. -/
def readMember (text : List Char) : Option (CharSet × List Char) := do
  let (low, rest) ← readMemberEnd text
  match rest with
  | '-' :: c :: more =>
    if c = ']' || c = '-' then return (← low.toSet?, rest)
    else
      let (high, rest) ← readMemberEnd (c :: more)
      match low, high with
      | .character a, .character b => if a ≤ b then return (.range a b, rest) else none
      | _, _ => none
  | _ => return (← low.toSet?, rest)

/-- The rest of a set in brackets, up to the closing bracket. -/
def readMembers : Nat → Option LeftSide → Members → List Char → Option (Nested × List Char)
  | 0, _, _, _ => none
  | fuel + 1, side, members, text =>
    let combined combine rest :=
      readMembers fuel (some ⟨combine, members.closeWith side⟩) .empty rest
    match text with
    | [] => none
    | ']' :: rest => some (members.closeWith side, rest)
    | '&' :: '&' :: rest => combined .intersection rest
    | '-' :: '-' :: rest => combined .difference rest
    | '~' :: '~' :: rest => combined .symmetricDifference rest
    | '[' :: rest =>
      match readNamed rest with
      | some (set, rest) => readMembers fuel side (members.add ⟨set, 0⟩) rest
      | none => do
        let (isComplement, first, rest) := readOpening rest
        let (inner, rest) ← readMembers fuel none first rest
        let set := if isComplement then .complement inner.set else inner.set
        readMembers fuel side (members.add ⟨set, inner.depth + 1⟩) rest
    | text => do
      let (set, rest) ← readMember text
      readMembers fuel side (members.add ⟨set, 0⟩) rest

/-- Reads a set behind its opening bracket. -/
def readBracket (text : List Char) : Option (Nested × List Char) := do
  let (isComplement, first, rest) := readOpening text
  let (inner, rest) ← readMembers (rest.length + 1) none first rest
  let set := if isComplement then .complement inner.set else inner.set
  return (⟨set, inner.depth + 1⟩, rest)

end ReactiveMarkup.Pattern
