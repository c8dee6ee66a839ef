import ReactiveMarkup.Binding.Token
import ReactiveMarkup.Expression.Parser
import ReactiveMarkup.Options

/-!
# Compiling binding text

A text is cut into bindings and the literal text between them. At each position the earlier match of
the two binding patterns wins, and the object pattern where both match at one place; the search goes
on behind the match as if the rest were a text of its own. A match of nothing is no binding.
-/

namespace ReactiveMarkup.Binding

/-- The next binding in a text: its match and whether it has the object form. -/
def next? (patterns : BindingPatterns) (text : List Char) : Option (Match × Bool) :=
  let object := (patterns.object.find text).filter (!·.isEmpty)
  let code := (patterns.code.find text).filter (!·.isEmpty)
  match object, code with
  | some o, some c => if c.start < o.start then some (c, false) else some (o, true)
  | some o, none => some (o, true)
  | none, some c => some (c, false)
  | none, none => none

/-- The literal part for some characters; there is none for no characters. -/
def literal (text : List Char) : List Token :=
  if text.isEmpty then [] else [.constant (.string (String.ofList text))]

/-- The token of a binding with a body. -/
def binding (isObject : Bool) (raw body : String) : Except Error Token :=
  if isObject then (Alternative.parseAll body).map (.object raw)
  else (Expression.parse (Text.trim body)).map (.code raw)

/-- The parts of a text. The first argument bounds the number of bindings. -/
def parts (patterns : BindingPatterns) : Nat → List Char → Except Error (List Token)
  | 0, text => .ok (literal text)
  | fuel + 1, text =>
    match next? patterns text with
    | none => .ok (literal text)
    | some (found, isObject) => do
      let raw := String.ofList ((text.drop found.start).take (found.stop - found.start))
      let body := String.ofList ((found.group? text 1).getD [])
      let token ← binding isObject raw body
      let rest ← parts patterns fuel (text.drop found.stop)
      return literal (text.take found.start) ++ token :: rest

/-- The token of the parts of a text. -/
def assemble (kind : ValueKind) : List Token → Token
  | [] => .constant (kind.read "")
  | [.constant value] => .constant (kind.read (value.text?.getD ""))
  | [part] => if kind = .text then part else .array [part] kind
  | parts => .array parts kind

/-- Compiles a text whose constants and mixtures are read as a kind. -/
def compileAs (kind : ValueKind) (patterns : BindingPatterns) (text : String) :
    Except Error Token :=
  (parts patterns text.toList.length text.toList).map (assemble kind)

/-- Compiles a text that stays text. -/
def compile (patterns : BindingPatterns) (text : String) : Except Error Token :=
  compileAs .text patterns text

end ReactiveMarkup.Binding
