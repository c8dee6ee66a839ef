import ReactiveMarkup.Face.Pass
import ReactiveMarkup.Face.Layout

/-!
# Arrangements

The three ways to lay rows out. A list shows them one after another, with a divider between full
groups and padding at the end of the last group. A tree nests each row under the row its parent
column names; rows whose parent is missing are roots, and a row is shown once even if the parents
run in a circle. A view shows one header row for each value of a column and the rows of that value
under it.
-/

namespace ReactiveMarkup

/-- How rows are laid out. -/
inductive Arrangement where
  | list (levels : List String) (divider incomplete : List NodeId)
  | tree (parentField keyField : String)
  | view (groupField : String)
deriving Inhabited

namespace Pass

/-- Rows from an index on in a list, `shown` of them having been shown before. With a positive row
count a divider comes before every full group. -/
def listRows (levels : List String) (divider : List NodeId) (rowCount : Nat) (source : Source) :
    Pass → Nat → List Nat → Pass × Nat × List NodeId
  | pass, shown, [] => (pass, shown, [])
  | pass, shown, index :: rest =>
    match pass.renderRow "" source index levels with
    | (pass, none) => listRows levels divider rowCount source pass shown rest
    | (pass, some rendering) =>
      let (pass, before) :=
        if 0 < rowCount && 0 < shown && shown % rowCount == 0 then pass.copyAll divider
        else (pass, [])
      let (pass, total, nodes) := listRows levels divider rowCount source pass (shown + 1) rest
      (pass, total, before ++ rendering.nodes ++ nodes)

/-- Copies of a template, a number of times. -/
def copies (pass : Pass) (template : List NodeId) : Nat → Pass × List NodeId
  | 0 => (pass, [])
  | n + 1 =>
    let (pass, first) := pass.copyAll template
    let (pass, rest) := copies pass template n
    (pass, first ++ rest)

/-- How many rows are missing in the last group of a list. -/
def missing (rowCount shown : Nat) : Nat :=
  if rowCount = 0 then 0 else (rowCount - shown % rowCount) % rowCount

/-- Lays rows out as a list. -/
def arrangeList (pass : Pass) (levels : List String) (divider incomplete : List NodeId)
    (rowCount : Nat) (source : Source) : Pass × List NodeId :=
  let (pass, shown, nodes) :=
    listRows levels divider rowCount source pass 0 (List.range source.size)
  if incomplete.isEmpty then (pass, nodes)
  else
    let (pass, padding) := pass.copies incomplete (missing rowCount shown)
    (pass, nodes ++ padding)

end Pass

/-- The text of a column that is not empty. -/
def filledField? (row : Row) (name : String) : Option String :=
  match row.get? name with
  | some value => if value.isEmpty then none else some value.display
  | none => none

/-- The keys and parents of the rows of a tree. -/
structure TreeShape where
  keys : List (Option String)
  parents : List (Option String)

namespace TreeShape

/-- The shape of the rows of a source. -/
def ofSource (parentField keyField : String) (source : Source) : TreeShape :=
  ⟨source.rows.map (filledField? · keyField), source.rows.map (filledField? · parentField)⟩

/-- The parent of a row, if it is the key of some row. -/
def parentOf (shape : TreeShape) (index : Nat) : Option String :=
  match shape.parents[index]? with
  | some (some parent) => if shape.keys.contains (some parent) then some parent else none
  | _ => none

/-- The rows without a parent, in row order. -/
def roots (shape : TreeShape) : List Nat :=
  (List.range shape.parents.length).filter fun index => shape.parentOf index == none

/-- The rows whose parent is the key of a row, in row order. -/
def childrenOf (shape : TreeShape) (index : Nat) : List Nat :=
  match shape.keys[index]? with
  | some (some key) =>
    (List.range shape.parents.length).filter fun other => shape.parentOf other == some key
  | _ => []

end TreeShape

namespace Pass

mutual

/-- Shows a row of a tree with the rows under it; the list holds the rows met so far. The first
argument bounds how deep the rows can go. -/
def treeRow (shape : TreeShape) (source : Source) :
    Nat → Pass → List Nat → Nat → Nat → Pass × List Nat × List NodeId
  | 0, pass, met, _, _ => (pass, met, [])
  | fuel + 1, pass, met, depth, index =>
    if met.contains index then (pass, met, [])
    else
      let children := shape.childrenOf index
      let levels := [toString depth, if children.isEmpty then "leaf" else "parent"]
      match pass.renderRow "" source index levels with
      | (pass, none) => (pass, index :: met, [])
      | (pass, some rendering) =>
        let (pass, met, nested) :=
          treeRows shape source fuel pass (index :: met) (depth + 1) children
        let (pass, nodes) := pass.nest rendering nested
        (pass, met, nodes)

/-- Shows rows of a tree one after another. -/
def treeRows (shape : TreeShape) (source : Source) :
    Nat → Pass → List Nat → Nat → List Nat → Pass × List Nat × List NodeId
  | _, pass, met, _, [] => (pass, met, [])
  | fuel, pass, met, depth, index :: rest =>
    let (pass, met, nodes) := treeRow shape source fuel pass met depth index
    let (pass, met, more) := treeRows shape source fuel pass met depth rest
    (pass, met, nodes ++ more)

end

/-- Lays rows out as a tree. -/
def arrangeTree (pass : Pass) (parentField keyField : String) (source : Source) :
    Pass × List NodeId :=
  let shape := TreeShape.ofSource parentField keyField source
  let (pass, _, nodes) := treeRows shape source (source.size + 1) pass [] 1 shape.roots
  (pass, nodes)

end Pass

/-- The text of the column a view groups by; a missing column is the empty text. -/
def groupName (groupField : String) (row : Row) : String :=
  match row.get? groupField with
  | some value => value.display
  | none => ""

/-- Puts a row into the group of a name, which is opened at the end if there is none. -/
def addToGroup (name : String) (index : Nat) : List (String × List Nat) → List (String × List Nat)
  | [] => [(name, [index])]
  | (other, members) :: rest =>
    if other = name then (other, members ++ [index]) :: rest
    else (other, members) :: addToGroup name index rest

/-- The groups of a view in the order of their first rows. -/
def groupRows (groupField : String) (source : Source) : List (String × List Nat) :=
  source.rows.zipIdx.foldl
    (fun groups (row, index) => addToGroup (groupName groupField row) index groups) []

namespace Pass

/-- The group that the slots of headers belong to. -/
def headerGroup : String := "@outer"

/-- Shows the rows of a group. -/
def memberRows (group : String) (source : Source) : Pass → List Nat → Pass × List NodeId
  | pass, [] => (pass, [])
  | pass, index :: rest =>
    let (pass, rendering) := pass.renderRow group source index ["2"]
    let (pass, nodes) := memberRows group source pass rest
    (pass, (rendering.map Rendering.nodes).getD [] ++ nodes)

/-- Shows groups one after another: a header for the first row of each, and its rows in it. -/
def viewGroups (source : Source) : Pass → List (String × List Nat) → Pass × List NodeId
  | pass, [] => (pass, [])
  | pass, (name, members) :: rest =>
    let (pass, header) := pass.renderRow headerGroup source (members.headD 0) ["1"]
    let (pass, inner) := memberRows name source pass members
    let (pass, nodes) := match header with
      | some rendering => pass.nest rendering inner
      | none => (pass, inner)
    let (pass, more) := viewGroups source pass rest
    (pass, nodes ++ more)

/-- Lays the rows of a source out. -/
def arrange (pass : Pass) (arrangement : Arrangement) (rowCount : Nat) (source : Source) :
    Pass × List NodeId :=
  match arrangement with
  | .list levels divider incomplete => pass.arrangeList levels divider incomplete rowCount source
  | .tree parentField keyField => pass.arrangeTree parentField keyField source
  | .view groupField => viewGroups source pass (groupRows groupField source)

end Pass

end ReactiveMarkup
