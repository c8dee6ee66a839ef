import ReactiveMarkup.Value.Basic
import ReactiveMarkup.Unicode.Case

/-!
# Expressions

The language of code bindings and filters: literals, paths, operators and six functions. An
expression reads sources by paths of at least two segments; `Expr.readIds` lists them.
-/

namespace ReactiveMarkup

namespace Expression

inductive UnaryOp where
  | not
  | negate
deriving DecidableEq, Repr

inductive BinaryOp where
  | add
  | subtract
  | multiply
  | divide
  | modulo
  | equals
  | notEquals
  | lessThan
  | lessThanOrEqual
  | greaterThan
  | greaterThanOrEqual
  | and
  | or
deriving DecidableEq, Repr

/-- The functions an expression may call. -/
inductive Function where
  | len
  | upper
  | lower
  | concat
  | iif
  | exists
deriving DecidableEq, Repr

/-- The name a function is called by. -/
def Function.name : Function → String
  | .len => "len"
  | .upper => "upper"
  | .lower => "lower"
  | .concat => "concat"
  | .iif => "iif"
  | .exists => "exists"

def Function.all : List Function := [.len, .upper, .lower, .concat, .iif, .exists]

/-- The function of a name, in any case. -/
def Function.ofName? (name : String) : Option Function :=
  Function.all.find? fun f => f.name == Unicode.lower name

end Expression

open Expression in
inductive Expr where
  | literal (value : Value)
  | path (segments : List String)
  | unary (op : UnaryOp) (operand : Expr)
  | binary (op : BinaryOp) (left right : Expr)
  | conditional (condition thenBranch elseBranch : Expr)
  | call (function : Function) (arguments : List Expr)
deriving Inhabited, Repr

namespace Expr

/-- The id of the source a path reads: its first two segments, in lower case. -/
def sourceId? : List String → Option String
  | space :: name :: _ => some (Unicode.lower (space ++ "." ++ name))
  | _ => none

mutual

/-- The ids of the sources an expression reads, from left to right. -/
def readIds : Expr → List String
  | .literal _ => []
  | .path segments => (sourceId? segments).toList
  | .unary _ operand => readIds operand
  | .binary _ left right => readIds left ++ readIds right
  | .conditional condition thenBranch elseBranch =>
    readIds condition ++ readIds thenBranch ++ readIds elseBranch
  | .call _ arguments => argumentReadIds arguments

/-- The ids of the sources the arguments of a call read. -/
def argumentReadIds : List Expr → List String
  | [] => []
  | argument :: rest => readIds argument ++ argumentReadIds rest

end

end Expr

end ReactiveMarkup
