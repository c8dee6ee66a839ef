import ReactiveMarkup.Expression.Lexeme
import ReactiveMarkup.Expression.Basic
import ReactiveMarkup.Number.Reading

/-!
# Parsing expressions

From loosest to tightest: the conditional, which groups to the right; then disjunction, conjunction,
equality, comparison, sums and products, which group to the left; then the two signs before an
operand. A fault is reported at the lexeme that was met, or at the end of the text.
-/

namespace ReactiveMarkup.Expression

/-- A fault with the lexemes that were left when it was met. -/
structure Misfit where
  rest : List Placed
  fault : ExpressionFault

/-- The levels of operators that group to the left, loosest first. -/
inductive Level where
  | disjunction
  | conjunction
  | equality
  | comparison
  | sum
  | product
deriving DecidableEq, Repr

/-- The next tighter level; none stands for operands. -/
def Level.tighter : Level → Option Level
  | .disjunction => some .conjunction
  | .conjunction => some .equality
  | .equality => some .comparison
  | .comparison => some .sum
  | .sum => some .product
  | .product => none

/-- The operator a lexeme is on a level. -/
def Level.operator? : Level → Lexeme → Option BinaryOp
  | .disjunction, .disjunction => some .or
  | .conjunction, .conjunction => some .and
  | .equality, .equals => some .equals
  | .equality, .notEquals => some .notEquals
  | .comparison, .less => some .lessThan
  | .comparison, .lessOrEqual => some .lessThanOrEqual
  | .comparison, .greater => some .greaterThan
  | .comparison, .greaterOrEqual => some .greaterThanOrEqual
  | .sum, .plus => some .add
  | .sum, .minus => some .subtract
  | .product, .star => some .multiply
  | .product, .slash => some .divide
  | .product, .percent => some .modulo
  | _, _ => none

/-- The value of a number literal. -/
def numeralValue (text : String) : Value :=
  match Decimal.readDouble text.toList with
  | some d => .ofDouble d
  | none => .null

/-- Passes over one given lexeme, which is named in the fault when it is missing. -/
def expect (lexeme : Lexeme) (shown : String) : List Placed → Except Misfit (List Placed)
  | [] => .error ⟨[], .expected shown⟩
  | next :: rest =>
    if next.lexeme = lexeme then .ok rest else .error ⟨next :: rest, .expected shown⟩

/-- The segments of a path behind its first name. -/
def parseSegments : Nat → List Placed → Except Misfit (List String × List Placed)
  | 0, rest => .error ⟨rest, .unexpectedEnd⟩
  | fuel + 1, ⟨.dot, _, _⟩ :: rest =>
    match rest with
    | ⟨.name segment, _, _⟩ :: rest => do
      let (segments, rest) ← parseSegments fuel rest
      return (segment :: segments, rest)
    | _ => .error ⟨rest, .expectedName⟩
  | fuel + 1, ⟨.leftBracket, _, _⟩ :: rest =>
    match rest with
    | ⟨.doubleQuoted body, _, _⟩ :: rest | ⟨.singleQuoted body, _, _⟩ :: rest => do
      let rest ← expect .rightBracket "]" rest
      let (segments, rest) ← parseSegments fuel rest
      return (unescape body :: segments, rest)
    | _ => .error ⟨rest, .expectedKey⟩
  | _, rest => .ok ([], rest)

mutual

/-- An operand with the levels from `level` on. -/
def parseLevel : Nat → Option Level → List Placed → Except Misfit (Expr × List Placed)
  | 0, _, rest => .error ⟨rest, .unexpectedEnd⟩
  | fuel + 1, none, rest => parseUnary fuel rest
  | fuel + 1, some level, rest => do
    let (left, rest) ← parseLevel fuel level.tighter rest
    parseChain fuel level left rest

/-- The operators of one level behind a left operand, grouped to the left. -/
def parseChain : Nat → Level → Expr → List Placed → Except Misfit (Expr × List Placed)
  | 0, _, _, rest => .error ⟨rest, .unexpectedEnd⟩
  | _, _, left, [] => .ok (left, [])
  | fuel + 1, level, left, next :: rest =>
    match level.operator? next.lexeme with
    | none => .ok (left, next :: rest)
    | some op => do
      let (right, rest) ← parseLevel fuel level.tighter rest
      parseChain fuel level (.binary op left right) rest

/-- A whole expression. -/
def parseConditional : Nat → List Placed → Except Misfit (Expr × List Placed)
  | 0, rest => .error ⟨rest, .unexpectedEnd⟩
  | fuel + 1, rest => do
    let (condition, rest) ← parseLevel fuel (some .disjunction) rest
    match rest with
    | ⟨.question, _, _⟩ :: rest =>
      let (thenBranch, rest) ← parseConditional fuel rest
      let rest ← expect .colon ":" rest
      let (elseBranch, rest) ← parseConditional fuel rest
      return (.conditional condition thenBranch elseBranch, rest)
    | _ => return (condition, rest)

/-- An operand with the signs before it. -/
def parseUnary : Nat → List Placed → Except Misfit (Expr × List Placed)
  | 0, rest => .error ⟨rest, .unexpectedEnd⟩
  | fuel + 1, ⟨.bang, _, _⟩ :: rest => do
    let (operand, rest) ← parseUnary fuel rest
    return (.unary .not operand, rest)
  | fuel + 1, ⟨.minus, _, _⟩ :: rest => do
    let (operand, rest) ← parseUnary fuel rest
    return (.unary .negate operand, rest)
  | fuel + 1, rest => parsePrimary fuel rest

/-- A literal, a path, a call, or an expression in parentheses. -/
def parsePrimary : Nat → List Placed → Except Misfit (Expr × List Placed)
  | 0, rest => .error ⟨rest, .unexpectedEnd⟩
  | _, [] => .error ⟨[], .unexpectedEnd⟩
  | fuel + 1, next :: rest =>
    match next.lexeme with
    | .trueWord => .ok (.literal (.bool true), rest)
    | .falseWord => .ok (.literal (.bool false), rest)
    | .nullWord => .ok (.literal .null, rest)
    | .numeral text => .ok (.literal (numeralValue text), rest)
    | .doubleQuoted body | .singleQuoted body => .ok (.literal (.string (unescape body)), rest)
    | .leftParen => do
      let (inner, rest) ← parseConditional fuel rest
      let rest ← expect .rightParen ")" rest
      return (inner, rest)
    | .name name =>
      match rest with
      | ⟨.leftParen, _, _⟩ :: inside =>
        match Function.ofName? name with
        | none => .error ⟨rest, .unknownFunction name⟩
        | some function =>
          match inside with
          | ⟨.rightParen, _, _⟩ :: rest => .ok (.call function [], rest)
          | _ => do
            let (arguments, rest) ← parseArguments fuel inside
            return (.call function arguments, rest)
      | _ => do
        let (segments, rest) ← parseSegments fuel rest
        return (.path (name :: segments), rest)
    | _ => .error ⟨next :: rest, .expectedValue⟩

/-- The arguments of a call that has some, and its closing parenthesis. -/
def parseArguments : Nat → List Placed → Except Misfit (List Expr × List Placed)
  | 0, rest => .error ⟨rest, .unexpectedEnd⟩
  | fuel + 1, rest => do
    let (argument, rest) ← parseConditional fuel rest
    match rest with
    | ⟨.comma, _, _⟩ :: rest =>
      let (arguments, rest) ← parseArguments fuel rest
      return (argument :: arguments, rest)
    | _ =>
      let rest ← expect .rightParen ")" rest
      return ([argument], rest)

end

/-- Enough steps for a number of lexemes: each of them is met by at most every level once. -/
def parseFuel (lexemes : Nat) : Nat := 16 * (lexemes + 1)

/-- Reads lexemes that are one expression. -/
def parseLexemes (lexemes : List Placed) : Except Misfit Expr :=
  match lexemes with
  | [] => .error ⟨[], .empty⟩
  | _ => do
    let (expr, rest) ← parseConditional (parseFuel lexemes.length) lexemes
    if rest.isEmpty then return expr else .error ⟨rest, .trailingInput⟩

/-- The position of a misfit in a text: the empty expression is at fault from its start on. -/
def Misfit.position (text : String) (misfit : Misfit) : Nat :=
  if misfit.fault = .empty then 0
  else match misfit.rest with
    | next :: _ => next.start
    | [] => Text.byteLength text.toList

/-- Reads a text that is one expression. -/
def parse (text : String) : Except Error Expr := do
  let lexemes ← lex text
  match parseLexemes lexemes with
  | .ok expr => return expr
  | .error misfit => throw (.invalidExpression text (misfit.position text) misfit.fault)

end ReactiveMarkup.Expression
