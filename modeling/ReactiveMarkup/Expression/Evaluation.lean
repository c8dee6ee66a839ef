import ReactiveMarkup.Expression.Basic
import ReactiveMarkup.Value.Text
import ReactiveMarkup.Number.Reading

/-!
# Evaluation

Evaluation has no effects and never fails: a path that resolves to nothing is null, and so is the
result of arithmetic on something that is not a number, of a division by zero, and of a result that
is not finite.
-/

namespace ReactiveMarkup

namespace Value

/-- What counts as true: anything but null, false, zero, the empty text and the empty array. -/
def isTruthy : Value → Bool
  | .null => false
  | .bool b => b
  | .number n => !n.toDouble.isZero
  | .string text => text != ""
  | .array items => !items.isEmpty
  | .object _ => true

/-- The number a value stands for; a text has to be a number between blanks. -/
def toNumber? : Value → Option Double
  | .number n => some n.toDouble
  | .bool b => some (.ofInt (if b then 1 else 0))
  | .string text => Decimal.readDouble (Text.trimChars text.toList)
  | _ => none

/-- The result of arithmetic on two values that stand for numbers. -/
def arithmetic (f : Double → Double → Option Double) (left right : Value) : Value :=
  match left.toNumber?, right.toNumber? with
  | some a, some b => match f a b with
    | some c => .ofDouble c
    | none => .null
  | _, _ => .null

/-- Equality across kinds: null equals only null, two texts are compared as texts, and all else as
numbers where both sides stand for one, or by their display texts. -/
def equalsAcross (left right : Value) : Bool :=
  match left, right with
  | .null, .null => true
  | .null, _ => false
  | _, .null => false
  | .bool a, .bool b => a == b
  | _, _ =>
    match left.toNumber?, right.toNumber? with
    | some a, some b =>
      if left.isText && right.isText then left.display == right.display
      else a.compare? b == some .eq
    | _, _ => left.display == right.display

/-- The order of two texts by code points. -/
def compareText (a b : String) : Ordering :=
  if a = b then .eq else if a < b then .lt else .gt

/-- The order of two values: of numbers where both sides stand for one, else of display texts. -/
def compare? (left right : Value) : Option Ordering :=
  match left.toNumber?, right.toNumber? with
  | some a, some b => a.compare? b
  | _, _ => some (compareText left.display right.display)

/-- Whether the order of two values passes a test; what is not comparable passes none. -/
def compareBy (test : Ordering → Bool) (left right : Value) : Value :=
  .bool (match compare? left right with
    | some order => test order
    | none => false)

/-- The result of a division by something that is not zero. -/
def nonzeroDivision (f : Double → Double → Double) (a b : Double) : Option Double :=
  if b.isZero then none else some (f a b)

end Value

namespace Expression

/-- What a path stands for. -/
abbrev Resolver := List String → Option Value

/-- The result of a sign before an operand. -/
def UnaryOp.apply : UnaryOp → Value → Value
  | .not, value => .bool (!value.isTruthy)
  | .negate, value => match value.toNumber? with
    | some d => .ofDouble d.neg
    | none => .null

/-- The result of an operator. The two logical ones give one of their operands back. -/
def BinaryOp.apply : BinaryOp → Value → Value → Value
  | .add, left, right =>
    if left.isText || right.isText then .string (left.display ++ right.display)
    else left.arithmetic (fun a b => some (a.add b)) right
  | .subtract, left, right => left.arithmetic (fun a b => some (a.sub b)) right
  | .multiply, left, right => left.arithmetic (fun a b => some (a.mul b)) right
  | .divide, left, right => left.arithmetic (Value.nonzeroDivision .div) right
  | .modulo, left, right => left.arithmetic (Value.nonzeroDivision .rem) right
  | .equals, left, right => .bool (left.equalsAcross right)
  | .notEquals, left, right => .bool (!left.equalsAcross right)
  | .lessThan, left, right => left.compareBy Ordering.isLT right
  | .lessThanOrEqual, left, right => left.compareBy Ordering.isLE right
  | .greaterThan, left, right => left.compareBy Ordering.isGT right
  | .greaterThanOrEqual, left, right => left.compareBy Ordering.isGE right
  | .and, left, right => if left.isTruthy then right else left
  | .or, left, right => if left.isTruthy then left else right

/-- The result of a function; an argument that is not given is null. -/
def Function.apply (function : Function) (arguments : List Value) : Value :=
  let argument (index : Nat) : Value := arguments.getD index .null
  match function with
  | .len => .ofDouble (.ofInt (match argument 0 with
    | .null => 0
    | .array items => items.length
    | .object fields => fields.length
    | other => other.display.length))
  | .upper => .string (Unicode.upper (argument 0).display)
  | .lower => .string (Unicode.lower (argument 0).display)
  | .concat => .string (String.join (arguments.map Value.display))
  | .iif => if (argument 0).isTruthy then argument 1 else argument 2
  | .exists => .bool (!(argument 0).isEmpty)

mutual

def evaluate (resolve : Resolver) : Expr → Value
  | .literal value => value
  | .path segments => (resolve segments).getD .null
  | .unary op operand => op.apply (evaluate resolve operand)
  | .binary op left right => op.apply (evaluate resolve left) (evaluate resolve right)
  | .conditional condition thenBranch elseBranch =>
    if (evaluate resolve condition).isTruthy then evaluate resolve thenBranch
    else evaluate resolve elseBranch
  | .call function arguments => function.apply (evaluateAll resolve arguments)

/-- The values of the arguments of a call. -/
def evaluateAll (resolve : Resolver) : List Expr → List Value
  | [] => []
  | argument :: rest => evaluate resolve argument :: evaluateAll resolve rest

end

end Expression

end ReactiveMarkup
