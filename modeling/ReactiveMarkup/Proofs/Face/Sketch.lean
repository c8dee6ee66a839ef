import ReactiveMarkup.Face.Command
import ReactiveMarkup.Proofs.Markup.Plot

/-!
# What a pass is meant to show

A sketch is a pass without nodes. It goes over the same rows in the same order, chooses the same
faces and gives every row the same slot, but where a pass makes nodes or takes old ones over, a
sketch only notes which row is shown how. What it says is shown follows from the rows, the faces and
the templates alone: a sketch has no cache, no markup and no serial numbers, so there is nothing in
it that an earlier pass could have left behind.

The functions here follow those of a pass one by one. That a pass shows its sketch is proved for each
of them, and says of a pass with an empty cache as well as of any other what comes out of it.
-/

namespace ReactiveMarkup

/-- A row as it is shown: its slot, what it is made from, and whether content is nested in it. -/
structure Showing where
  name : SlotName
  version : Nat
  face : Face
  row : Row
  nests : Bool

/-- The shapes a row is shown with, before anything is nested in them. -/
def Showing.shapes (pattern : Pattern) (form : NodeId → Shape) (showing : Showing) : List Shape :=
  Shape.fillAll pattern showing.row (showing.face.template.map form)

/-- Everything but the cache that decides what a pass shows. -/
structure Sketch where
  faces : List ResolvedFace
  pattern : Pattern
  /-- The shapes of the nodes of templates. -/
  form : NodeId → Shape
  source : Source

namespace Sketch

variable (sketch : Sketch)

/-- How the row at an index is shown after other rows, if a face fits it. -/
def showRow (group : String) (nests : Bool) (done : List Showing) (index : Nat)
    (levels : List String) : Option Showing :=
  match sketch.source.entries[index]? with
  | none => none
  | some entry =>
    let position := sketch.faces.findIdx? fun face =>
      face.fits index (RowType.after done.length) levels
    match position.bind fun position => sketch.faces[position]? with
    | none => none
    | some resolved =>
      let key := Source.keyOfRow sketch.source.options.keyField entry.row
      let seen := done.map fun showing => (showing.name.group, showing.name.key)
      some ⟨⟨group, key, seen.count (group, key)⟩, entry.version, resolved.face, entry.row, nests⟩

/-- What is shown for a row, before anything is nested in it. -/
def shapes (showing : Showing) : List Shape := showing.shapes sketch.pattern sketch.form

def listRows (levels : List String) (divider : List NodeId) (rowCount : Nat) :
    List Showing → Nat → List Nat → List Showing × Nat × List Shape
  | done, shown, [] => (done, shown, [])
  | done, shown, index :: rest =>
    match sketch.showRow "" false done index levels with
    | none => listRows levels divider rowCount done shown rest
    | some showing =>
      let before :=
        if 0 < rowCount && 0 < shown && shown % rowCount == 0 then divider.map sketch.form else []
      let (done, total, shapes) :=
        listRows levels divider rowCount (showing :: done) (shown + 1) rest
      (done, total, before ++ sketch.shapes showing ++ shapes)

/-- Copies of a template, a number of times. -/
def copies (template : List NodeId) : Nat → List Shape
  | 0 => []
  | n + 1 => template.map sketch.form ++ copies template n

/-- Rows laid out as a list. -/
def arrangeList (levels : List String) (divider incomplete : List NodeId) (rowCount : Nat) :
    List Showing × List Shape :=
  let (done, shown, shapes) :=
    sketch.listRows levels divider rowCount [] 0 (List.range sketch.source.size)
  if incomplete.isEmpty then (done, shapes)
  else (done, shapes ++ sketch.copies incomplete (Pass.missing rowCount shown))

mutual

/-- A row of a tree with the rows under it. -/
def treeRow (shape : TreeShape) :
    Nat → List Showing → List Nat → Nat → Nat → List Showing × List Nat × List Shape
  | 0, done, met, _, _ => (done, met, [])
  | fuel + 1, done, met, depth, index =>
    if met.contains index then (done, met, [])
    else
      let children := shape.childrenOf index
      let levels := [toString depth, if children.isEmpty then "leaf" else "parent"]
      match sketch.showRow "" true done index levels with
      | none => (done, index :: met, [])
      | some showing =>
        let (done, met, nested) :=
          treeRows shape fuel (showing :: done) (index :: met) (depth + 1) children
        (done, met, Shape.nest (sketch.shapes showing) nested)

/-- Rows of a tree one after another. -/
def treeRows (shape : TreeShape) :
    Nat → List Showing → List Nat → Nat → List Nat → List Showing × List Nat × List Shape
  | _, done, met, _, [] => (done, met, [])
  | fuel, done, met, depth, index :: rest =>
    let (done, met, shapes) := treeRow shape fuel done met depth index
    let (done, met, more) := treeRows shape fuel done met depth rest
    (done, met, shapes ++ more)

end

/-- Rows laid out as a tree. -/
def arrangeTree (parentField keyField : String) : List Showing × List Shape :=
  let shape := TreeShape.ofSource parentField keyField sketch.source
  let (done, _, shapes) := sketch.treeRows shape (sketch.source.size + 1) [] [] 1 shape.roots
  (done, shapes)

def memberRows (group : String) : List Showing → List Nat → List Showing × List Shape
  | done, [] => (done, [])
  | done, index :: rest =>
    match sketch.showRow group false done index ["2"] with
    | none => memberRows group done rest
    | some showing =>
      let (done, shapes) := memberRows group (showing :: done) rest
      (done, sketch.shapes showing ++ shapes)

/-- Groups one after another, each with its header around its rows. -/
def viewGroups : List Showing → List (String × List Nat) → List Showing × List Shape
  | done, [] => (done, [])
  | done, (name, members) :: rest =>
    match sketch.showRow Pass.headerGroup true done (members.headD 0) ["1"] with
    | none =>
      let (done, inner) := sketch.memberRows name done members
      let (done, more) := viewGroups done rest
      (done, inner ++ more)
    | some header =>
      let (done, inner) := sketch.memberRows name (header :: done) members
      let (done, more) := viewGroups done rest
      (done, Shape.nest (sketch.shapes header) inner ++ more)

/-- The rows of the source laid out: how they are shown, the last one first, and what it gives. -/
def arrange (arrangement : Arrangement) (rowCount : Nat) : List Showing × List Shape :=
  match arrangement with
  | .list levels divider incomplete => sketch.arrangeList levels divider incomplete rowCount
  | .tree parentField keyField => sketch.arrangeTree parentField keyField
  | .view groupField => sketch.viewGroups [] (groupRows groupField sketch.source)

/-- Rows in a layout. -/
def render (layout : Layout) (rows : List Shape) : List Shape :=
  if rows.isEmpty then layout.empty.map sketch.form
  else if layout.wrapper.isEmpty then rows
  else Shape.nest (layout.wrapper.map sketch.form) rows

end Sketch

end ReactiveMarkup
