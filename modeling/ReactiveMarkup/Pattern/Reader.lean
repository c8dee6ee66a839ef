import ReactiveMarkup.Pattern.Bracket
import ReactiveMarkup.Pattern.Search

/-!
# Reading patterns

The written form of a pattern: literals, sets in brackets, the dot, anchors, groups with and without
a number or a name, choices, and repetitions with their lazy forms. Groups are numbered by their
opening parentheses. A text that breaks the grammar is no pattern, nor is one that is nested too
deep or repeats too much.
-/

namespace ReactiveMarkup.Pattern

/-- The number of levels that a pattern may have. -/
def depthLimit : Nat := 250

/-- The number of instructions that a counted repetition may come to. -/
def sizeLimit : Nat := 100000

/-- What is known while a pattern is read: the number of groups opened and the names in use. -/
structure Draft where
  groups : Nat
  names : List (List Char)

/-- A rule and how deep it is nested. -/
structure Part where
  rule : Rule
  depth : Nat

/-- Rules in a row or in a choice: their number and the depth of the deepest. -/
structure Series where
  rule : Rule
  count : Nat
  depth : Nat

/-- A series as one rule. -/
def Series.close (series : Series) : Part := ⟨series.rule, rowDepth series.count series.depth⟩

/-- The name of a group up to its closing angle bracket. -/
def readName (text : List Char) : Option (List Char × List Char) :=
  let (name, rest) := text.span (· != '>')
  match name, rest with
  | first :: more, _ :: rest =>
    if (first == '_' || Unicode.isLetter first)
        && more.all fun c =>
          c == '_' || c == '.' || c == '[' || c == ']' || Unicode.isLetterOrNumber c
    then some (name, rest) else none
  | _, _ => none

/-- The question mark that makes a repetition lazy. -/
def readGreedy : List Char → Bool × List Char
  | '?' :: rest => (false, rest)
  | rest => (true, rest)

/-- A number of rounds, between blanks. -/
def readCount (text : List Char) : Option (Nat × List Char) :=
  let (digits, rest) := Decimal.spanDigits (text.dropWhile Unicode.isBlank)
  if digits.isEmpty then none
  else some (Decimal.natOfDigits digits, rest.dropWhile Unicode.isBlank)

/-- The bounds of a counted repetition behind its brace. -/
def readBounds (text : List Char) : Option (Nat × Option Nat × List Char) := do
  let (least, rest) ← readCount text
  match rest with
  | '\x7d' :: rest => return (least, some least, rest)
  | ',' :: '\x7d' :: rest => return (least, none, rest)
  | ',' :: rest =>
    let (greatest, rest) ← readCount rest
    match rest with
    | '\x7d' :: rest => if greatest < least then none else return (least, some greatest, rest)
    | _ => none
  | _ => none

/-- The repetitions behind a part; each of them is a level. -/
def readRepeats : Nat → Part → List Char → Option (Part × List Char)
  | 0, _, _ => none
  | fuel + 1, part, text =>
    match text with
    | '*' :: rest =>
      let (greedy, rest) := readGreedy rest
      readRepeats fuel ⟨.star part.rule greedy, part.depth + 1⟩ rest
    | '+' :: rest =>
      let (greedy, rest) := readGreedy rest
      readRepeats fuel ⟨.plus part.rule greedy, part.depth + 1⟩ rest
    | '?' :: rest =>
      let (greedy, rest) := readGreedy rest
      readRepeats fuel ⟨.optional part.rule greedy, part.depth + 1⟩ rest
    | '\x7b' :: rest => do
      let (least, greatest, rest) ← readBounds rest
      let (greedy, rest) := readGreedy rest
      if sizeLimit < part.rule.size * greatest.getD least then none
      else
        readRepeats fuel ⟨part.rule.repeated least greatest greedy, part.depth + 1⟩ rest
    | rest => some (part, rest)

mutual

/-- Choices up to the end of the text or an unmatched closing parenthesis. -/
def readChoice : Nat → Draft → List Char → Option (Series × Draft × List Char)
  | 0, _, _ => none
  | fuel + 1, draft, text => do
    let (row, draft, rest) ← readRow fuel draft text
    let first := row.close
    match rest with
    | '|' :: rest =>
      let (others, draft, rest) ← readChoice fuel draft rest
      let depth := max first.depth others.depth
      return (⟨.choice first.rule others.rule, others.count + 1, depth⟩, draft, rest)
    | _ => return (⟨first.rule, 1, first.depth⟩, draft, rest)

/-- Parts in a row up to a bar or a closing parenthesis. -/
def readRow : Nat → Draft → List Char → Option (Series × Draft × List Char)
  | 0, _, _ => none
  | fuel + 1, draft, text =>
    match text with
    | [] => some (⟨.nothing, 0, 0⟩, draft, text)
    | c :: rest =>
      if c = '|' || c = ')' then some (⟨.nothing, 0, 0⟩, draft, text)
      else do
        let (part, draft, rest) ← readPart fuel draft c rest
        let (part, rest) ← readRepeats (rest.length + 1) part rest
        let (row, draft, rest) ← readRow fuel draft rest
        let depth := max part.depth row.depth
        return (⟨part.rule.followedBy row.rule, row.count + 1, depth⟩, draft, rest)

/-- One part that begins with a character: a literal, a set, an anchor or a group. -/
def readPart : Nat → Draft → Char → List Char → Option (Part × Draft × List Char)
  | 0, _, _, _ => none
  | fuel + 1, draft, c, rest =>
    match c with
    | '^' => some (⟨.place .textStart, 0⟩, draft, rest)
    | '$' => some (⟨.place .textEnd, 0⟩, draft, rest)
    | '.' => some (⟨.one .anyButLineFeed, 0⟩, draft, rest)
    | '[' => do
      let (inner, rest) ← readBracket rest
      return (⟨.one inner.set, inner.depth⟩, draft, rest)
    | '\\' => do
      let (escape, rest) ← Escape.read rest
      let rule : Rule := match escape with
        | .character c => .one (.single c)
        | .set set => .one set
        | .place assertion => .place assertion
      return (⟨rule, 0⟩, draft, rest)
    | '(' =>
      match rest with
      | '?' :: ':' :: rest => do
        let (body, draft, rest) ← readBody fuel draft rest
        return (⟨body.rule, body.depth + 1⟩, draft, rest)
      | '?' :: 'P' :: '<' :: rest | '?' :: '<' :: rest => do
        let (name, rest) ← readName rest
        if draft.names.contains name then none
        else readGroup fuel ⟨draft.groups, name :: draft.names⟩ rest
      | '?' :: _ => none
      | rest => readGroup fuel draft rest
    | '*' => none
    | '+' => none
    | '?' => none
    | '\x7b' => none
    | c => some (⟨.one (.single c), 0⟩, draft, rest)

/-- The inside of a group up to its closing parenthesis. -/
def readBody : Nat → Draft → List Char → Option (Part × Draft × List Char)
  | 0, _, _ => none
  | fuel + 1, draft, text => do
    let (choices, draft, rest) ← readChoice fuel draft text
    match rest with
    | ')' :: rest => return (choices.close, draft, rest)
    | _ => none

/-- A numbered group behind its opening. -/
def readGroup : Nat → Draft → List Char → Option (Part × Draft × List Char)
  | 0, _, _ => none
  | fuel + 1, draft, text => do
    let index := draft.groups + 1
    let (body, draft, rest) ← readBody fuel ⟨index, draft.names⟩ text
    return (⟨.group index body.rule, body.depth + 1⟩, draft, rest)

end

/-- Reads a text that is a pattern. -/
def read (text : String) : Option Pattern :=
  match readChoice (5 * text.toList.length + 5) ⟨0, []⟩ text.toList with
  | some (choices, _, []) =>
    let part := choices.close
    if depthLimit < part.depth then none else some (.ofRule part.rule)
  | _ => none

end ReactiveMarkup.Pattern
