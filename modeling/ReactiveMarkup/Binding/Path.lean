import ReactiveMarkup.Source.Basic
import ReactiveMarkup.Unicode.Case

/-!
# Object paths

The body of an object binding is a list of alternatives between bars. An alternative is a literal in
parentheses, or a path: `space.name` is the existence of a source, `space.name.a.b` a column of its
rows, and `space.name[any text]` a column whose name is not an identifier. Bars inside parentheses
do not separate alternatives.
-/

namespace ReactiveMarkup

/-- A column of a row: the names to go down by. -/
abbrev ColumnPath := List String

namespace ColumnPath

/-- Goes down a value by names. -/
def descend (value : Value) : List String → Option Value
  | [] => some value
  | name :: rest =>
    match value.field? name with
    | some inner => descend inner rest
    | none => none

/-- The value of a column in a row: by going down, or else under all names joined by dots. -/
def ofRow? (column : ColumnPath) (row : Row) : Option Value :=
  match column with
  | [] => none
  | first :: rest =>
    match (row.get? first).bind fun value => descend value rest with
    | some value => some value
    | none => if rest.isEmpty then none else row.get? (Text.join "." column)

/-- The value of a column in a source: null without rows, the value itself for one row, and an array
for several. -/
def ofSource (column : ColumnPath) (source : Source) : Value :=
  match source.rows with
  | [] => .null
  | [row] => (column.ofRow? row).getD .null
  | rows => .array (rows.map fun row => (column.ofRow? row).getD .null)

end ColumnPath

/-- A source with a column of it, or without one for its existence. -/
structure ObjectPath where
  sourceId : String
  column : Option ColumnPath
deriving DecidableEq, Repr, Inhabited

namespace ObjectPath

/-- A segment of a path: a letter, underscore or dollar sign, then also numbers and hyphens. -/
def isSegment (segment : List Char) : Bool :=
  match segment with
  | [] => false
  | c :: rest =>
    (Unicode.isLetter c || c == '_' || c == '$')
      && rest.all fun c => Unicode.isLetterOrNumber c || c == '_' || c == '$' || c == '-'

/-- The two quotation marks. -/
def isQuote (c : Char) : Bool := c == '"' || c == '\''

/-- The key inside brackets, without blanks and quotes around it. -/
def bracketKey (inner : List Char) : List Char :=
  (((Text.trimChars inner).dropWhile isQuote).reverse.dropWhile isQuote).reverse

/-- The part of a path before its bracket and the key inside, if there is a bracket. -/
def splitBracket (text : List Char) : Except PathFault (List Char × Option (List Char)) :=
  let (dotted, rest) := text.span (· != '[')
  match rest with
  | [] => .ok (dotted, none)
  | _ :: rest =>
    if rest.getLast? = some ']' then
      match bracketKey rest.dropLast with
      | [] => .error .emptyColumn
      | key => .ok (dotted, some key)
    else .error .unterminatedBracket

/-- The path of some segments and an optional key. -/
def ofSegments (segments : List (List Char)) (key : Option (List Char)) :
    Except PathFault ObjectPath :=
  match segments.map String.ofList with
  | space :: name :: columns =>
    match segments.find? fun segment => !isSegment segment with
    | some segment => .error (.badSegment (String.ofList segment))
    | none =>
      let column := columns ++ key.toList.map String.ofList
      .ok ⟨Unicode.lower (space ++ "." ++ name), if column.isEmpty then none else some column⟩
  | _ => .error .tooShort

/-- Reads a path; blanks around it and around its segments do not count. -/
def parse (text : String) : Except Error ObjectPath :=
  let chars := Text.trimChars text.toList
  let path := do
    let (dotted, key) ← splitBracket chars
    ofSegments ((Text.pieces '.' dotted).map Text.trimChars) key
  match path with
  | .ok path => .ok path
  | .error fault => .error (.malformedPath (String.ofList chars) fault)

/-- The value of a path in its source; a path without a column is true. -/
def ofSource (path : ObjectPath) (source : Source) : Value :=
  match path.column with
  | some column => column.ofSource source
  | none => .bool true

end ObjectPath

/-- One way to give an object binding a value. -/
inductive Alternative where
  | literal (text : String)
  | path (path : ObjectPath)
deriving DecidableEq, Repr, Inhabited

namespace Alternative

/-- Reads an alternative: a literal in parentheses, or a path. -/
def parse (text : String) : Except Error Alternative :=
  match Text.trimChars text.toList with
  | '(' :: rest =>
    if rest.getLast? = some ')' then .ok (.literal (String.ofList rest.dropLast))
    else (ObjectPath.parse text).map .path
  | _ => (ObjectPath.parse text).map .path

/-- The texts between the bars that stand outside parentheses, `depth` of which are open. -/
def splitBars : Nat → List Char → List (List Char)
  | _, [] => [[]]
  | depth, c :: rest =>
    if c = '|' && depth = 0 then [] :: splitBars 0 rest
    else
      let inner := if c = '(' then depth + 1 else if c = ')' then depth - 1 else depth
      match splitBars inner rest with
      | [] => [[c]]
      | piece :: more => (c :: piece) :: more

/-- Reads the alternatives in the body of an object binding. -/
def parseAll (body : String) : Except Error (List Alternative) :=
  (splitBars 0 body.toList).mapM fun piece => parse (String.ofList piece)

/-- The id of the source an alternative reads. -/
def sourceId? : Alternative → Option String
  | .literal _ => none
  | .path target => some target.sourceId

end Alternative

end ReactiveMarkup
