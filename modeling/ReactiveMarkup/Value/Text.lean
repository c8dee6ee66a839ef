import ReactiveMarkup.Value.Basic
import ReactiveMarkup.Number.Shortest
import ReactiveMarkup.Text

/-!
# The text of values

Two written forms: the compact text of a value, in which an object's fields come in the order of
their names, and the display text that bindings show, in which a string stands for itself, null is
empty and an array is its members joined by commas.
-/

namespace ReactiveMarkup.Value

/-- Numbers are plain with at least one fraction digit from `1e-5` up to `1e15`, and scientific with
a signed exponent beyond. -/
def numberFormat : Decimal.Format := ⟨-5, 15⟩

def numberText : Number → String
  | .int n => toString n
  | .float d => Decimal.write numberFormat d

/-- The hexadecimal digit of a number below 16. -/
def hexDigit (n : Nat) : Char := if n < 10 then Char.ofNat (48 + n) else Char.ofNat (87 + n)

/-- A character inside quotes. Controls, the quote and the backslash are escaped. -/
def escapeChar (c : Char) : List Char :=
  if c = '"' then ['\\', '"']
  else if c = '\\' then ['\\', '\\']
  else if c = '\n' then ['\\', 'n']
  else if c = '\t' then ['\\', 't']
  else if c = '\r' then ['\\', 'r']
  else if c.toNat = 8 then ['\\', 'b']
  else if c.toNat = 12 then ['\\', 'f']
  else if c.toNat < 32 then
    ['\\', 'u', '0', '0', hexDigit (c.toNat / 16), hexDigit (c.toNat % 16)]
  else [c]

/-- A text in quotes. -/
def quote (text : String) : String :=
  String.ofList ('"' :: text.toList.flatMap escapeChar ++ ['"'])

mutual

/-- The compact text of a value. -/
def compact : Value → String
  | .null => "null"
  | .bool b => if b then "true" else "false"
  | .number n => numberText n
  | .string text => quote text
  | .array items => "[" ++ Text.join "," (compactItems items) ++ "]"
  | .object fields => "\x7b" ++ Text.join "," (compactFields fields) ++ "\x7d"

/-- The compact texts of the members of an array. -/
def compactItems : List Value → List String
  | [] => []
  | item :: rest => compact item :: compactItems rest

/-- The fields of an object, each with its name in quotes. -/
def compactFields : List (String × Value) → List String
  | [] => []
  | (name, value) :: rest => (quote name ++ ":" ++ compact value) :: compactFields rest

end

mutual

/-- The text a binding shows for a value. -/
def display : Value → String
  | .null => ""
  | .string text => text
  | .bool b => if b then "true" else "false"
  | .number n => numberText n
  | .array items => Text.join "," (displayItems items)
  | .object fields => compact (.object fields)

/-- The display texts of the members of an array. -/
def displayItems : List Value → List String
  | [] => []
  | item :: rest => display item :: displayItems rest

end

mutual

/-- Null, the empty text, and arrays of such values. -/
def isEmpty : Value → Bool
  | .null => true
  | .string text => text == ""
  | .array items => allEmpty items
  | _ => false

/-- Whether all members of an array are empty. -/
def allEmpty : List Value → Bool
  | [] => true
  | item :: rest => isEmpty item && allEmpty rest

end

end ReactiveMarkup.Value
