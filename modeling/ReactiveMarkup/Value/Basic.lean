import ReactiveMarkup.Number.Double

/-!
# Values

What rows, settings and expressions are made of: null, truth values, numbers, texts, arrays and
objects. The fields of an object are kept in ascending order of their names, one field a name, so an
object has one form; `Fields.insert` keeps that order and a later value replaces an earlier one.
-/

namespace ReactiveMarkup

/-- A number: an integer as it was written, or a binary64 number. -/
inductive Number where
  | int (n : Int)
  | float (d : Double)
deriving DecidableEq, Repr, Inhabited

inductive Value where
  | null
  | bool (b : Bool)
  | number (n : Number)
  | string (text : String)
  | array (items : List Value)
  | object (fields : List (String × Value))
deriving Repr, Inhabited

/-- Named values in ascending order of their names. -/
abbrev Fields := List (String × Value)

namespace Fields

def get? (fields : Fields) (name : String) : Option Value := fields.lookup name

/-- Sets a field in its place in the order. -/
def insert (name : String) (value : Value) : Fields → Fields
  | [] => [(name, value)]
  | (other, old) :: rest =>
    if name = other then (name, value) :: rest
    else if name < other then (name, value) :: (other, old) :: rest
    else (other, old) :: insert name value rest

/-- Fields from a list in which a later entry of a name replaces an earlier one. -/
def ofList (entries : List (String × Value)) : Fields :=
  entries.foldl (fun fields (name, value) => fields.insert name value) []

end Fields

namespace Number

/-- The binary64 number nearest to a number. -/
def toDouble : Number → Double
  | .int n => .ofInt n
  | .float d => d

end Number

namespace Value

/-- The value of a computed number: an integer when it is one below `2 ^ 63` in size, null when it
is not finite. -/
def ofDouble (d : Double) : Value :=
  match d.toInt? with
  | some n => if n.natAbs < 1 <<< 63 then .number (.int n) else .number (.float d)
  | none => if d.isFinite then .number (.float d) else .null

/-- The integer value of a natural number. -/
def ofNat (n : Nat) : Value := .number (.int n)

/-- The field of an object; other values have none. -/
def field? (value : Value) (name : String) : Option Value :=
  match value with
  | .object fields => Fields.get? fields name
  | _ => none

/-- The text of a string value. -/
def text? : Value → Option String
  | .string text => some text
  | _ => none

/-- Whether a value is a text. -/
def isText : Value → Bool
  | .string _ => true
  | _ => false

/-- The value of a natural number below `2 ^ 64`. -/
def nat? : Value → Option Nat
  | .number (.int n) => if 0 ≤ n then some n.toNat else none
  | _ => none

end Value

end ReactiveMarkup
