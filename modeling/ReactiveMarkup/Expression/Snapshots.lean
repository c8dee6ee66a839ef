import ReactiveMarkup.Binding.Path
import ReactiveMarkup.Expression.Evaluation

/-!
# Paths in expressions

What the paths of an expression stand for. Over some captured sources, two segments are the
existence of a source and further ones a column of it. Over a row, the first segment is a column and
the others go down into it; what the row does not have is looked up in the sources.
-/

namespace ReactiveMarkup

/-- Sources captured for an evaluation; of several with one id the first counts. -/
abbrev Snapshots := List Source

namespace Snapshots

/-- The captured source of an id. -/
def get? (snapshots : Snapshots) (id : String) : Option Source :=
  snapshots.find? fun source => source.id == id

/-- What a path stands for over captured sources. -/
def resolve (snapshots : Snapshots) (path : List String) : Option Value :=
  match Expr.sourceId? path with
  | none => none
  | some id =>
    match snapshots.get? id with
    | none => none
    | some source =>
      match path.drop 2 with
      | [] => some (.bool true)
      | column => some (ColumnPath.ofSource column source)

/-- What a path stands for over a row, and over captured sources behind it. -/
def resolveInRow (snapshots : Snapshots) (row : Row) (path : List String) : Option Value :=
  match path with
  | [] => none
  | first :: rest =>
    match (row.get? first).bind fun value => ColumnPath.descend value rest with
    | some value => some value
    | none => snapshots.resolve path

end Snapshots

end ReactiveMarkup
