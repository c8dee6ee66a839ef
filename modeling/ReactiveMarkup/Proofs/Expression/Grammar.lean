import ReactiveMarkup.Expression.Parser

/-!
# The grammar of expressions

The grammar as a family of derivation trees: a tree of a phrase has the lexemes it covers, its
yield, and the expression it stands for. The levels of operators are left recursive, so that
a chain `a - b - c` has the one derivation that groups it to the left; the conditional is right
recursive in both branches.

Lexemes are ordered by how loosely they bind. A lexeme that binds more loosely than every operator
of a phrase ends the phrase, which is all the parser needs to know of what comes behind it.
-/

namespace ReactiveMarkup.Expression

/-- The parts an expression is built from. An operand has the operators of its level and of all
tighter ones; without a level it has signs only. -/
inductive Phrase where
  | conditional
  | operand (level : Option Level)
  | primary
  | arguments

/-- What a phrase stands for. -/
abbrev Phrase.Tree : Phrase → Type
  | .conditional | .operand _ | .primary => Expr
  | .arguments => List Expr

/-- The value of a word that is a literal by itself. -/
def Lexeme.literal? : Lexeme → Option Value
  | .trueWord => some (.bool true)
  | .falseWord => some (.bool false)
  | .nullWord => some .null
  | .numeral text => some (numeralValue text)
  | .doubleQuoted body | .singleQuoted body => some (.string (unescape body))
  | _ => none

theorem Function.name_injective {f g : Function} (h : f.name = g.name) : f = g := by
  cases f <;> cases g <;> first | rfl | (exact absurd h (by decide))

/-- A function is called by its name in any case. -/
theorem Function.ofName?_eq_some_iff {name : String} {f : Function} :
    Function.ofName? name = some f ↔ Unicode.lower name = f.name := by
  constructor
  · intro h
    have hname := List.find?_some h
    exact (beq_iff_eq.mp hname).symm
  · intro h
    simp only [Function.ofName?, h]
    cases f <;> decide

/-- The sign a word is before an operand. -/
def Lexeme.sign? : Lexeme → Option UnaryOp
  | .bang => some .not
  | .minus => some .negate
  | _ => none

/-- A segment of a path behind its first name, as it is written. -/
inductive Segment where
  | dotted (name : String)
  | doubleQuoted (body : String)
  | singleQuoted (body : String)

namespace Segment

def yield : Segment → List Lexeme
  | .dotted name => [.dot, .name name]
  | .doubleQuoted body => [.leftBracket, .doubleQuoted body, .rightBracket]
  | .singleQuoted body => [.leftBracket, .singleQuoted body, .rightBracket]

/-- The key a segment stands for. -/
def key : Segment → String
  | .dotted name => name
  | .doubleQuoted body | .singleQuoted body => unescape body

end Segment

/-- The derivations of the grammar. -/
inductive Derivation : Phrase → Type where
  | literal (word : Lexeme) (value : Value) (means : word.literal? = some value) :
    Derivation .primary
  | group (inner : Derivation .conditional) : Derivation .primary
  | path (first : String) (segments : List Segment) : Derivation .primary
  | bareCall (name : String) (function : Function)
    (means : Unicode.lower name = function.name) : Derivation .primary
  | call (name : String) (function : Function) (means : Unicode.lower name = function.name)
    (arguments : Derivation .arguments) : Derivation .primary
  | lastArgument (argument : Derivation .conditional) : Derivation .arguments
  | nextArgument (argument : Derivation .conditional) (more : Derivation .arguments) :
    Derivation .arguments
  | unsigned (operand : Derivation .primary) : Derivation (.operand none)
  | signed (word : Lexeme) (op : UnaryOp) (means : word.sign? = some op)
    (operand : Derivation (.operand none)) : Derivation (.operand none)
  | single (level : Level) (operand : Derivation (.operand level.tighter)) :
    Derivation (.operand (some level))
  | chain (level : Level) (left : Derivation (.operand (some level))) (word : Lexeme)
    (op : BinaryOp) (means : level.operator? word = some op)
    (right : Derivation (.operand level.tighter)) : Derivation (.operand (some level))
  | plain (operand : Derivation (.operand (some .disjunction))) : Derivation .conditional
  | choice (condition : Derivation (.operand (some .disjunction)))
    (thenBranch elseBranch : Derivation .conditional) : Derivation .conditional

namespace Derivation

/-- The lexemes a derivation covers. -/
def yield : {phrase : Phrase} → Derivation phrase → List Lexeme
  | _, .literal word _ _ => [word]
  | _, .group inner => .leftParen :: inner.yield ++ [.rightParen]
  | _, .path first segments => .name first :: segments.flatMap Segment.yield
  | _, .bareCall name _ _ => [.name name, .leftParen, .rightParen]
  | _, .call name _ _ arguments => .name name :: .leftParen :: arguments.yield ++ [.rightParen]
  | _, .lastArgument argument => argument.yield
  | _, .nextArgument argument more => argument.yield ++ .comma :: more.yield
  | _, .unsigned operand => operand.yield
  | _, .signed word _ _ operand => word :: operand.yield
  | _, .single _ operand => operand.yield
  | _, .chain _ left word _ _ right => left.yield ++ word :: right.yield
  | _, .plain operand => operand.yield
  | _, .choice condition thenBranch elseBranch =>
    condition.yield ++ .question :: (thenBranch.yield ++ .colon :: elseBranch.yield)

/-- What a derivation stands for. -/
def tree : {phrase : Phrase} → Derivation phrase → phrase.Tree
  | _, .literal _ value _ => Expr.literal value
  | _, .group inner => inner.tree
  | _, .path first segments => Expr.path (first :: segments.map Segment.key)
  | _, .bareCall _ function _ => Expr.call function []
  | _, .call _ function _ arguments => Expr.call function arguments.tree
  | _, .lastArgument argument => [argument.tree]
  | _, .nextArgument argument more => argument.tree :: more.tree
  | _, .unsigned operand => operand.tree
  | _, .signed _ op _ operand => Expr.unary op operand.tree
  | _, .single _ operand => operand.tree
  | _, .chain _ left _ op _ right => Expr.binary op left.tree right.tree
  | _, .plain operand => operand.tree
  | _, .choice condition thenBranch elseBranch =>
    Expr.conditional condition.tree thenBranch.tree elseBranch.tree

/-- The operators of its own level that a chain has. -/
def links : {phrase : Phrase} → Derivation phrase → Nat
  | _, .chain _ left _ _ _ _ => left.links + 1
  | _, _ => 0

theorem links_lt_yield {phrase : Phrase} (d : Derivation phrase) :
    d.links < d.yield.length := by
  induction d <;> simp only [links, yield, List.length_append, List.length_cons,
    List.length_nil] <;> omega

theorem yield_ne_nil {phrase : Phrase} (d : Derivation phrase) : d.yield ≠ [] :=
  List.ne_nil_of_length_pos (Nat.zero_lt_of_lt d.links_lt_yield)

end Derivation

/-- The lexemes of a placed text. -/
def lexemes (placed : List Placed) : List Lexeme := placed.map Placed.lexeme

@[simp] theorem lexemes_nil : lexemes [] = [] := rfl

@[simp] theorem lexemes_cons (next : Placed) (rest : List Placed) :
    lexemes (next :: rest) = next.lexeme :: lexemes rest := rfl

@[simp] theorem lexemes_append (front rest : List Placed) :
    lexemes (front ++ rest) = lexemes front ++ lexemes rest := List.map_append

/-- How loosely a word binds what stands before it: the words that continue an operand, the
operators from tightest to loosest, and the words that only close or separate. -/
def Lexeme.looseness : Lexeme → Nat
  | .dot | .leftBracket | .leftParen => 0
  | .star | .slash | .percent => 1
  | .plus | .minus => 2
  | .less | .lessOrEqual | .greater | .greaterOrEqual => 3
  | .equals | .notEquals => 4
  | .conjunction => 5
  | .disjunction => 6
  | .question => 7
  | _ => 8

/-- How loosely the operators of a level bind. -/
def Level.looseness : Level → Nat
  | .product => 1
  | .sum => 2
  | .comparison => 3
  | .equality => 4
  | .conjunction => 5
  | .disjunction => 6

/-- How loosely the loosest operator of an operand binds. -/
def operandLooseness : Option Level → Nat
  | none => 0
  | some level => level.looseness

theorem operandLooseness_injective {level other : Option Level}
    (h : operandLooseness level = operandLooseness other) : level = other := by
  rcases level with _ | level <;> rcases other with _ | other
  · rfl
  · cases other <;> cases h
  · cases level <;> cases h
  · cases level <;> cases other <;> first | rfl | cases h

theorem Level.tighter_looseness (level : Level) :
    operandLooseness level.tighter + 1 = level.looseness := by cases level <;> rfl

theorem operandLooseness_le (level : Option Level) : operandLooseness level ≤ 6 := by
  rcases level with _ | level
  · decide
  · cases level <;> decide

/-- An operator binds as loosely as its level says. -/
theorem Level.operator_looseness {level : Level} {word : Lexeme} {op : BinaryOp}
    (h : level.operator? word = some op) : word.looseness = level.looseness := by
  cases level <;> cases word <;> first | rfl | cases h

/-- An operator ends the operands of its level. -/
theorem Level.tighter_lt_operator {level : Level} {word : Lexeme} {op : BinaryOp}
    (h : level.operator? word = some op) : operandLooseness level.tighter < word.looseness := by
  rw [operator_looseness h, ← level.tighter_looseness]
  exact Nat.lt_succ_self _

/-- A word that binds otherwise is no operator of a level. -/
theorem Level.operator?_eq_none {level : Level} {word : Lexeme}
    (h : level.looseness < word.looseness) : level.operator? word = none := by
  cases hop : level.operator? word with
  | none => rfl
  | some op => rw [operator_looseness hop] at h; omega

end ReactiveMarkup.Expression
