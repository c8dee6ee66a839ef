import ReactiveMarkup.Number.Reading
import ReactiveMarkup.Pattern.Basic

/-!
# Escapes

What a backslash and the characters behind it stand for in a pattern: a character, a class or an
assertion. A sign of ASCII that is neither a letter nor a digit stands for itself.
-/

namespace ReactiveMarkup.Pattern

inductive Escape where
  | character (c : Char)
  | set (set : CharSet)
  | place (assertion : Assertion)

namespace Escape

/-- The character with a number in hexadecimal digits. -/
def ofDigits (digits : List Char) : Option Char := do
  let values ← digits.mapM Hexadecimal.digit?
  let code := values.foldl (fun n d => 16 * n + d) 0
  if digits.isEmpty || !decide code.isValidChar then none else some (Char.ofNat code)

/-- The number of a character: so many digits, or any number of digits in braces. -/
def readCode (count : Nat) (text : List Char) : Option (Escape × List Char) :=
  match text with
  | '\x7b' :: rest =>
    match rest.span (· != '\x7d') with
    | (digits, _ :: rest) => (ofDigits digits).map fun c => (.character c, rest)
    | (_, []) => none
  | _ =>
    let digits := text.take count
    if digits.length < count then none
    else (ofDigits digits).map fun c => (.character c, text.drop count)

/-- The characters in the name of a word edge. -/
def isEdgeName (c : Char) : Bool := c.isAlpha || c == '-'

/-- The assertion of a named word edge. -/
def edge? : String → Option Assertion
  | "start" => some .wordStart
  | "end" => some .wordEnd
  | "start-half" => some .wordStartHalf
  | "end-half" => some .wordEndHalf
  | _ => none

/-- A word edge, which may have a name in braces. Braces that begin with anything but a name belong
to a repetition. -/
def readEdge (text : List Char) : Option (Escape × List Char) :=
  match text with
  | ['\x7b'] => none
  | '\x7b' :: c :: rest =>
    if isEdgeName c then
      match (c :: rest).span isEdgeName with
      | (name, '\x7d' :: rest) => (edge? (String.ofList name)).map fun edge => (.place edge, rest)
      | _ => none
    else some (.place .wordEdge, text)
  | _ => some (.place .wordEdge, text)

/-- Reads what stands behind a backslash. -/
def read : List Char → Option (Escape × List Char)
  | 'w' :: rest => some (.set .word, rest)
  | 'W' :: rest => some (.set (.complement .word), rest)
  | 'd' :: rest => some (.set .digit, rest)
  | 'D' :: rest => some (.set (.complement .digit), rest)
  | 's' :: rest => some (.set .blank, rest)
  | 'S' :: rest => some (.set (.complement .blank), rest)
  | 'a' :: rest => some (.character (Char.ofNat 7), rest)
  | 'f' :: rest => some (.character (Char.ofNat 12), rest)
  | 'n' :: rest => some (.character '\n', rest)
  | 'r' :: rest => some (.character '\r', rest)
  | 't' :: rest => some (.character '\t', rest)
  | 'v' :: rest => some (.character (Char.ofNat 11), rest)
  | 'x' :: rest => readCode 2 rest
  | 'u' :: rest => readCode 4 rest
  | 'U' :: rest => readCode 8 rest
  | 'A' :: rest => some (.place .textStart, rest)
  | 'z' :: rest => some (.place .textEnd, rest)
  | 'b' :: rest => readEdge rest
  | 'B' :: rest => some (.place .noWordEdge, rest)
  | '<' :: rest => some (.place .wordStart, rest)
  | '>' :: rest => some (.place .wordEnd, rest)
  | c :: rest =>
    if c.toNat < 128 && !c.isAlphanum then some (.character c, rest) else none
  | [] => none

end Escape

end ReactiveMarkup.Pattern
