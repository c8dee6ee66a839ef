import ReactiveMarkup.Expression.Snapshots
import ReactiveMarkup.Binding.Query

/-!
# Tokens

Binding text in its compiled form: constants, object bindings, code bindings, and several of them in
a row. A token knows the sources it reads without being evaluated. An object binding takes the first
alternative that is not empty, and may wait for the source of its last one only; a code binding
captures its sources in the order of their ids, then evaluates over them; parts in a row are joined
as texts and read as the kind that is asked for.
-/

namespace ReactiveMarkup

/-- What the text of a binding is read as. -/
inductive ValueKind where
  | text
  | integer
deriving DecidableEq, Repr, Inhabited

/-- The reading of a text as a kind; a text that is no 64-bit integer reads as null. -/
def ValueKind.read (kind : ValueKind) (text : String) : Value :=
  match kind with
  | .text => .string text
  | .integer =>
    match Decimal.readInt (-0x8000000000000000) 0x7fffffffffffffff (Text.trimChars text.toList) with
    | some n => .number (.int n)
    | none => .null

/-- Compiled binding text. `raw` is the text of a binding as written. -/
inductive Token where
  | constant (value : Value)
  | object (raw : String) (alternatives : List Alternative)
  | code (raw : String) (expr : Expr)
  | array (parts : List Token) (kind : ValueKind)
deriving Inhabited

/-- Puts an id into an ascending list of ids, unless it is there. -/
def insertId (id : String) : List String → List String
  | [] => [id]
  | other :: rest =>
    if id = other then other :: rest
    else if id < other then id :: other :: rest
    else other :: insertId id rest

/-- Ids in ascending order, each of them once. -/
def sortIds (ids : List String) : List String := ids.foldl (fun sorted id => insertId id sorted) []

namespace Token

mutual

/-- The ids of the sources a token reads, in the order of its text. -/
def readIds : Token → List String
  | .constant _ => []
  | .object _ alternatives => alternatives.filterMap Alternative.sourceId?
  | .code _ expr => expr.readIds
  | .array parts _ => readIdsOfAll parts

/-- The ids of the sources some tokens read. -/
def readIdsOfAll : List Token → List String
  | [] => []
  | part :: rest => readIds part ++ readIdsOfAll rest

end

/-- The ids of the sources a token reads, in ascending order. -/
def dependencies (token : Token) : List String := sortIds token.readIds

/-- Whether a token is a constant. -/
def isConstant : Token → Bool
  | .constant _ => true
  | _ => false

/-- Asks for the value of the first alternative that is not empty. -/
def askAlternatives : List Alternative → Query Value
  | [] => .done .null
  | .literal text :: rest => if text = "" then askAlternatives rest else .done (.string text)
  | .path path :: rest =>
    .lookup path.sourceId rest.isEmpty fun
      | none => askAlternatives rest
      | some source =>
        let value := path.ofSource source
        if value.isEmpty then askAlternatives rest else .done value

/-- Asks for sources one after another and evaluates an expression over those there are. -/
def askSources (expr : Expr) : List String → Snapshots → Query Value
  | [], captured => .done (Expression.evaluate captured.resolve expr)
  | id :: rest, captured =>
    .lookup id true fun
      | none => askSources expr rest captured
      | some source => askSources expr rest (source :: captured)

mutual

/-- What has to be looked up to know the value of a token. -/
def ask : Token → Query Value
  | .constant value => .done value
  | .object _ alternatives => askAlternatives alternatives
  | .code _ expr => askSources expr (sortIds expr.readIds) []
  | .array parts kind => (askText parts).map kind.read

/-- What has to be looked up to know the joined display texts of some tokens. -/
def askText : List Token → Query String
  | [] => .done ""
  | part :: rest => (ask part).bind fun value => (askText rest).map (value.display ++ ·)

end

/-- The value of a token over the sources there are, without waiting. -/
def value (token : Token) (find : String → Option Source) : Value := token.ask.run find

/-- The display text of a token's value. -/
def text (token : Token) (find : String → Option Source) : String := (token.value find).display

end Token

end ReactiveMarkup
