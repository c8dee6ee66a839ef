import ReactiveMarkup.Error
import ReactiveMarkup.Text

/-!
# Lexemes

The words an expression is written in. Between them stand spaces, tabs and line ends. At each
position the longest lexeme is taken: a name runs as far as its characters go and is a keyword only
as a whole, an operator of two characters wins over its first one, a number takes a fraction only if
digits follow the point. Positions count bytes.
-/

namespace ReactiveMarkup.Expression

/-- A word of the expression language. Quoted texts hold their body as written. -/
inductive Lexeme where
  | trueWord
  | falseWord
  | nullWord
  | name (text : String)
  | doubleQuoted (body : String)
  | singleQuoted (body : String)
  | numeral (text : String)
  | plus
  | minus
  | star
  | slash
  | percent
  | equals
  | notEquals
  | less
  | lessOrEqual
  | greater
  | greaterOrEqual
  | conjunction
  | disjunction
  | bang
  | question
  | colon
  | leftParen
  | rightParen
  | leftBracket
  | rightBracket
  | comma
  | dot
deriving DecidableEq, Repr

/-- A lexeme with the bytes it fills. -/
structure Placed where
  lexeme : Lexeme
  start : Nat
  stop : Nat
deriving DecidableEq, Repr

/-- The white space between lexemes. -/
def isGap (c : Char) : Bool := c == ' ' || c == '\t' || c == '\r' || c == '\n'

/-- A character a name may begin with. -/
def isNameStart (c : Char) : Bool := c.isAlpha || c == '_' || c == '$'

/-- A character a name may go on with. -/
def isNamePart (c : Char) : Bool := isNameStart c || c.isDigit

/-- The lexeme of a whole name, which may be a keyword. -/
def Lexeme.ofName (text : List Char) : Lexeme :=
  if text = ['t', 'r', 'u', 'e'] then .trueWord
  else if text = ['f', 'a', 'l', 's', 'e'] then .falseWord
  else if text = ['n', 'u', 'l', 'l'] then .nullWord
  else .name (String.ofList text)

/-- The body of a quoted text up to its closing quote, and the rest. A backslash takes the next
character with it, which may not be a line feed. -/
def spanQuoted (quote : Char) : List Char → Option (List Char × List Char)
  | [] => none
  | [c] => if c = quote then some ([], []) else none
  | c :: d :: rest =>
    if c = quote then some ([], d :: rest)
    else if c = '\\' then
      if d = '\n' then none
      else (spanQuoted quote rest).map fun (body, rest) => (c :: d :: body, rest)
    else (spanQuoted quote (d :: rest)).map fun (body, rest) => (c :: body, rest)

/-- The digits of a number, with a fraction when there is one, and the rest. -/
def spanNumeral (text : List Char) : List Char × List Char :=
  let (whole, rest) := text.span Char.isDigit
  match rest with
  | '.' :: more =>
    match more.span Char.isDigit with
    | ([], _) => (whole, rest)
    | (fraction, rest) => (whole ++ '.' :: fraction, rest)
  | _ => (whole, rest)

/-- The longest operator or bracket at the front of a text, and the rest. -/
def readOperator : List Char → Option (Lexeme × List Char)
  | '=' :: '=' :: rest => some (.equals, rest)
  | '!' :: '=' :: rest => some (.notEquals, rest)
  | '<' :: '=' :: rest => some (.lessOrEqual, rest)
  | '>' :: '=' :: rest => some (.greaterOrEqual, rest)
  | '&' :: '&' :: rest => some (.conjunction, rest)
  | '|' :: '|' :: rest => some (.disjunction, rest)
  | '+' :: rest => some (.plus, rest)
  | '-' :: rest => some (.minus, rest)
  | '*' :: rest => some (.star, rest)
  | '/' :: rest => some (.slash, rest)
  | '%' :: rest => some (.percent, rest)
  | '<' :: rest => some (.less, rest)
  | '>' :: rest => some (.greater, rest)
  | '!' :: rest => some (.bang, rest)
  | '?' :: rest => some (.question, rest)
  | ':' :: rest => some (.colon, rest)
  | '(' :: rest => some (.leftParen, rest)
  | ')' :: rest => some (.rightParen, rest)
  | '[' :: rest => some (.leftBracket, rest)
  | ']' :: rest => some (.rightBracket, rest)
  | ',' :: rest => some (.comma, rest)
  | '.' :: rest => some (.dot, rest)
  | _ => none

/-- The longest lexeme at the front of a text, and the rest. -/
def readLexeme : List Char → Option (Lexeme × List Char)
  | [] => none
  | c :: rest =>
    if isNameStart c then
      let (name, rest) := (c :: rest).span isNamePart
      some (.ofName name, rest)
    else if c.isDigit then
      let (number, rest) := spanNumeral (c :: rest)
      some (.numeral (String.ofList number), rest)
    else if c = '"' then
      (spanQuoted '"' rest).map fun (body, rest) => (.doubleQuoted (String.ofList body), rest)
    else if c = '\'' then
      (spanQuoted '\'' rest).map fun (body, rest) => (.singleQuoted (String.ofList body), rest)
    else readOperator (c :: rest)

/-- The lexemes of a text that begins at byte `position`, or the position at which none fits. The
first argument bounds the number of lexemes. -/
def lexFrom : Nat → Nat → List Char → Except Nat (List Placed)
  | fuel, position, text =>
    let gap := text.takeWhile isGap
    let start := position + Text.byteLength gap
    match fuel, text.dropWhile isGap with
    | _, [] => .ok []
    | 0, _ => .error start
    | fuel + 1, text =>
      match readLexeme text with
      | none => .error start
      | some (lexeme, rest) => do
        let stop := start + (Text.byteLength text - Text.byteLength rest)
        let more ← lexFrom fuel stop rest
        return ⟨lexeme, start, stop⟩ :: more

def lex (text : String) : Except Error (List Placed) :=
  match lexFrom text.toList.length 0 text.toList with
  | .ok lexemes => .ok lexemes
  | .error position => .error (.invalidExpression text position .unexpectedCharacter)

/-- The characters a quoted body stands for. A backslash before `n`, `t` or `r` makes a control
character, before any other character it makes that character, and at the end it stays. -/
def unescapeChars : List Char → List Char
  | [] => []
  | ['\\'] => ['\\']
  | '\\' :: 'n' :: rest => '\n' :: unescapeChars rest
  | '\\' :: 't' :: rest => '\t' :: unescapeChars rest
  | '\\' :: 'r' :: rest => '\r' :: unescapeChars rest
  | '\\' :: c :: rest => c :: unescapeChars rest
  | c :: rest => c :: unescapeChars rest

/-- The text a quoted body stands for. -/
def unescape (body : String) : String := String.ofList (unescapeChars body.toList)

end ReactiveMarkup.Expression
