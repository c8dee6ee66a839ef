import ReactiveMarkup.Value.Numeral

/-!
# Documents

The JSON text of values. Reading has two stages. The first checks the grammar and keeps all of it: a
document has its object members in the order written, repetitions included, and marks the texts and
numbers that are well formed but stand for nothing (an unpaired surrogate, a number out of range).
The second turns a document, or a part of it, into a value; parts that nobody asks for are never
turned, so they need only be well formed. A value may be nested at most 127 deep.
-/

namespace ReactiveMarkup

/-- A JSON text that is well formed. -/
inductive Document where
  | null
  | bool (b : Bool)
  | number (n : Option Number)
  | string (text : Option String)
  | array (items : List Document)
  | object (members : List (Option String × Document))
deriving Inhabited

namespace Document

/-- Space, tab, line feed and carriage return. -/
def isSpace (c : Char) : Bool := c == ' ' || c == '\t' || c == '\n' || c == '\r'

/-- A text without the white space at its front. -/
def skipSpace (text : List Char) : List Char := text.dropWhile isSpace

/-- Four hexadecimal digits. -/
def readHex : List Char → Option (Nat × List Char)
  | a :: b :: c :: d :: rest => do
    let a ← Hexadecimal.digit? a
    let b ← Hexadecimal.digit? b
    let c ← Hexadecimal.digit? c
    let d ← Hexadecimal.digit? d
    return (((a * 16 + b) * 16 + c) * 16 + d, rest)
  | _ => none

/-- The character a one-letter escape stands for. -/
def simpleEscape? : Char → Option Char
  | '"' => some '"'
  | '\\' => some '\\'
  | '/' => some '/'
  | 'b' => some (Char.ofNat 8)
  | 'f' => some (Char.ofNat 12)
  | 'n' => some '\n'
  | 'r' => some '\r'
  | 't' => some '\t'
  | _ => none

/-- The code units of a quoted text up to its closing quote, and the rest. A character is its own
unit; a four-digit escape is marked, since two of them may make one character. -/
def readUnits : Nat → List Char → Option (List (Bool × Nat) × List Char)
  | 0, _ => none
  | _, [] => none
  | fuel + 1, c :: rest =>
    if c = '"' then some ([], rest)
    else if c = '\\' then
      match rest with
      | 'u' :: more => do
        let (unit, more) ← readHex more
        let (units, more) ← readUnits fuel more
        return ((true, unit) :: units, more)
      | e :: more => do
        let escaped ← simpleEscape? e
        let (units, more) ← readUnits fuel more
        return ((false, escaped.toNat) :: units, more)
      | [] => none
    else if c.toNat < 32 then none
    else do
      let (units, more) ← readUnits fuel rest
      return ((false, c.toNat) :: units, more)

/-- The characters of some code units. A high surrogate has to be followed by a low one, and a low
one may not stand alone. -/
def charsOfUnits : List (Bool × Nat) → Option (List Char)
  | [] => some []
  | (true, high) :: rest =>
    if 0xDC00 ≤ high && high ≤ 0xDFFF then none
    else if 0xD800 ≤ high && high ≤ 0xDBFF then
      match rest with
      | (true, low) :: more =>
        if 0xDC00 ≤ low && low ≤ 0xDFFF then
          (charsOfUnits more).map
            (Char.ofNat (0x10000 + (high - 0xD800) * 1024 + (low - 0xDC00)) :: ·)
        else none
      | _ => none
    else (charsOfUnits rest).map (Char.ofNat high :: ·)
  | (false, code) :: rest => (charsOfUnits rest).map (Char.ofNat code :: ·)

/-- Reads a text behind its opening quote. -/
def readString (text : List Char) : Option (Option String × List Char) := do
  let (units, rest) ← readUnits (text.length + 1) text
  return ((charsOfUnits units).map String.ofList, rest)

mutual

/-- Reads one document and returns the rest of the text. -/
def readAny : Nat → List Char → Option (Document × List Char)
  | 0, _ => none
  | fuel + 1, text =>
    match skipSpace text with
    | 'n' :: 'u' :: 'l' :: 'l' :: rest => some (.null, rest)
    | 't' :: 'r' :: 'u' :: 'e' :: rest => some (.bool true, rest)
    | 'f' :: 'a' :: 'l' :: 's' :: 'e' :: rest => some (.bool false, rest)
    | '"' :: rest => (readString rest).map fun (text, rest) => (.string text, rest)
    | '[' :: rest =>
      match skipSpace rest with
      | ']' :: rest => some (.array [], rest)
      | rest => (readItems fuel rest).map fun (items, rest) => (.array items, rest)
    | '\x7b' :: rest =>
      match skipSpace rest with
      | '\x7d' :: rest => some (.object [], rest)
      | rest => (readMembers fuel rest).map fun (members, rest) => (.object members, rest)
    | text => (Value.Numeral.readParts text).map fun (parts, rest) => (.number parts.value, rest)

/-- Reads the items of an array that has some, up to its bracket. -/
def readItems : Nat → List Char → Option (List Document × List Char)
  | 0, _ => none
  | fuel + 1, text => do
    let (item, rest) ← readAny fuel text
    match skipSpace rest with
    | ']' :: rest => some ([item], rest)
    | ',' :: rest =>
      let (items, rest) ← readItems fuel rest
      return (item :: items, rest)
    | _ => none

/-- Reads the members of an object that has some, up to its brace. -/
def readMembers : Nat → List Char → Option (List (Option String × Document) × List Char)
  | 0, _ => none
  | fuel + 1, text =>
    match skipSpace text with
    | '"' :: rest => do
      let (name, rest) ← readString rest
      match skipSpace rest with
      | ':' :: rest =>
        let (value, rest) ← readAny fuel rest
        match skipSpace rest with
        | '\x7d' :: rest => some ([(name, value)], rest)
        | ',' :: rest =>
          let (members, rest) ← readMembers fuel rest
          return ((name, value) :: members, rest)
        | _ => none
      | _ => none
    | _ => none

end

/-- Reads a text that is one document. -/
def read (text : String) : Option Document :=
  match readAny (2 * text.toList.length + 2) text.toList with
  | some (document, rest) => if (skipSpace rest).isEmpty then some document else none
  | none => none

mutual

/-- The value of a document that is nested at most `depth` deep. A later member replaces an earlier
one of its name. -/
def toValue : Nat → Document → Option Value
  | _, .null => some .null
  | _, .bool b => some (.bool b)
  | _, .number n => n.map .number
  | _, .string text => text.map .string
  | 0, .array _ => none
  | 0, .object _ => none
  | depth + 1, .array items => (toValues depth items).map .array
  | depth + 1, .object members =>
    (toEntries depth members).map fun entries => .object (Fields.ofList entries)

/-- The values of the items of an array. -/
def toValues : Nat → List Document → Option (List Value)
  | _, [] => some []
  | depth, item :: rest => do
    let value ← toValue depth item
    let values ← toValues depth rest
    return value :: values

/-- The members of an object as named values, in the order written. -/
def toEntries : Nat → List (Option String × Document) → Option (List (String × Value))
  | _, [] => some []
  | depth, (name, document) :: rest => do
    let name ← name
    let value ← toValue depth document
    let entries ← toEntries depth rest
    return (name, value) :: entries

end

/-- How deep a value may be nested. -/
def greatestDepth : Nat := 127

end Document

namespace Value

/-- The value of a JSON text. -/
def read (text : String) : Option Value :=
  (Document.read text).bind (Document.toValue Document.greatestDepth)

end Value

end ReactiveMarkup
