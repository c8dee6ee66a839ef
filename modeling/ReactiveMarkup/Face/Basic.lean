import ReactiveMarkup.Binding.Compile
import ReactiveMarkup.Markup.Template

/-!
# Faces

A face is a template for rows with three conditions on when it is used: the levels it is meant for,
the parity of the row among those shown, and a filter over the rows. The conditions may hold
bindings; they are resolved once for every pass over a source. A filter without bindings is parsed
when the face is read, a bound one after every resolution.
-/

namespace ReactiveMarkup

/-- The parity of a shown row; the first one is odd. -/
inductive RowType where
  | odd
  | even
deriving DecidableEq, Repr, Inhabited

namespace RowType

/-- Reads a parity in any case; a blank text asks for none. -/
def read (text : String) : Except Error (Option RowType) :=
  let word := Unicode.lower (Text.trim text)
  if word = "" then .ok none
  else if word = "odd" then .ok (some .odd)
  else if word = "even" then .ok (some .even)
  else .error (.invalidMarkup (.badRowType word))

/-- The parity of the row behind a number of shown rows. -/
def after (shown : Nat) : RowType := if shown % 2 = 0 then .odd else .even

end RowType

/-- A condition on rows: an expression, or a text that becomes one when it is resolved. -/
inductive Filter where
  | parsed (expr : Expr)
  | bound (token : Token)
deriving Inhabited

namespace Filter

/-- The filter of a compiled attribute; a blank constant is none. -/
def ofToken : Token → Except Error (Option Filter)
  | .constant value =>
    let text := Text.trim (value.text?.getD "")
    if text = "" then .ok none else (Expression.parse text).map fun expr => some (.parsed expr)
  | token => .ok (some (.bound token))

/-- The ids of the sources a filter is known to read, in ascending order. -/
def dependencies : Filter → List String
  | .parsed expr => sortIds expr.readIds
  | .bound token => token.dependencies

end Filter

/-- A template for rows with its conditions. -/
structure Face where
  index : Nat
  level : Option Token
  rowType : Option Token
  filter : Option Filter
  template : List NodeId
deriving Inhabited

/-- A face whose conditions are resolved. -/
structure ResolvedFace where
  face : Face
  levels : Option (List String)
  rowType : Option RowType
  rows : Option (List Nat)

namespace Face

/-- The compiled attribute of a node, if it has it. -/
def attributeToken (patterns : BindingPatterns) (kind : NodeKind) (name : String) :
    Except Error (Option Token) :=
  match kind.attribute? name with
  | some text => (Binding.compile patterns text).map some
  | none => .ok none

/-- Reads a face from its element, and takes the content as its template. -/
def read (patterns : BindingPatterns) (index : Nat) (markup : Markup) (id : NodeId) :
    Except Error (Markup × Face) := do
  let kind := markup.kind id
  let level ← attributeToken patterns kind "level"
  let rowType ← attributeToken patterns kind "rowtype"
  let filter ← match ← attributeToken patterns kind "filter" with
    | some token => Filter.ofToken token
    | none => pure none
  let (markup, template) := markup.detachTemplate id
  return (markup, { index, level, rowType, filter, template })

/-- The ids of the sources the conditions read, in ascending order. -/
def dependencies (face : Face) : List String :=
  sortIds ((face.level.toList ++ face.rowType.toList).flatMap Token.readIds
    ++ face.filter.toList.flatMap Filter.dependencies)

/-- The indexes of the rows a filter holds for. -/
def filteredRows (expr : Expr) (find : String → Option Source) (source : Source) : List Nat :=
  let captured : Snapshots := (sortIds expr.readIds).filterMap find
  (source.rows.zipIdx.filter fun (row, _) =>
    (Expression.evaluate (captured.resolveInRow row) expr).isTruthy).map Prod.snd

/-- The levels a face is resolved to be meant for; none means all. -/
def resolveLevels (face : Face) (find : String → Option Source) : Option (List String) :=
  match face.level with
  | some token =>
    match Text.levelNames (token.text find) with
    | [] => none
    | names => some names
  | none => none

/-- The parity a face is resolved to be meant for. -/
def resolveRowType (face : Face) (find : String → Option Source) : Except Error (Option RowType) :=
  match face.rowType with
  | some token => RowType.read (token.text find)
  | none => .ok none

/-- The rows the filter of a face is resolved to hold for; none means all. -/
def resolveRows (face : Face) (find : String → Option Source) (source : Source) :
    Except Error (Option (List Nat)) :=
  match face.filter with
  | none => .ok none
  | some (.parsed expr) => .ok (some (filteredRows expr find source))
  | some (.bound token) =>
    let text := Text.trim (token.text find)
    if text = "" then .ok none
    else (Expression.parse text).map fun expr => some (filteredRows expr find source)

/-- Resolves the conditions of a face for a pass over a source. -/
def resolve (face : Face) (find : String → Option Source) (source : Source) :
    Except Error ResolvedFace := do
  let levels := face.resolveLevels find
  let rowType ← face.resolveRowType find
  let rows ← face.resolveRows find source
  return { face, levels, rowType, rows }

end Face

/-- Whether all conditions of a face hold for a row. -/
def ResolvedFace.fits (resolved : ResolvedFace) (index : Nat) (parity : RowType)
    (levels : List String) : Bool :=
  resolved.rows.all (·.contains index)
    && resolved.rowType.all (· == parity)
    && resolved.levels.all fun declared =>
      levels.any fun level => declared.contains (Unicode.lower level)

end ReactiveMarkup
