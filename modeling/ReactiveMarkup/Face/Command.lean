import ReactiveMarkup.Component.Priority
import ReactiveMarkup.Face.Arrangement
import ReactiveMarkup.Markup.Reading

/-!
# Show commands

A command that shows the rows of a source: its faces, its layouts and the arrangement are read from
the children of its element, which are taken out of the markup as they are read. What was taken out
before an error stays out. A pass resolves all faces and settings first, and touches markup and
cache only when nothing can fail any more.
-/

namespace ReactiveMarkup

inductive ShowKind where
  | list
  | tree
  | view
deriving DecidableEq, Repr, Inhabited

/-- A command that shows the rows of a source. -/
structure ShowCommand where
  sourceId : String
  faces : List Face
  layout : Layout
  /-- How many rows make a full group of a list. -/
  rowCount : Option Token
  arrangement : Arrangement
  cache : PassCache := {}
deriving Inhabited

namespace ShowCommand

/-- The row count of a list, compiled. -/
def readRowCount (patterns : BindingPatterns) (command : ShowKind) (kind : NodeKind) :
    Except Error (Option Token) :=
  match command, kind.attribute? "rowcount" with
  | .list, some text => (Binding.compileAs .integer patterns text).map some
  | _, _ => .ok none

/-- Reads the arrangement of a command and takes its sections out. -/
def readArrangement (command : ShowKind) (id : NodeId) (kind : NodeKind) :
    Reading Arrangement := do
  match command with
  | .list =>
    let levels := Text.levelNames ((kind.attribute? "level").getD "")
    let divider ← Reading.change (·.detachSection id "divider")
    let incomplete ← Reading.change (·.detachSection id "incomplete")
    return .list (if levels.isEmpty then ["1"] else levels) divider incomplete
  | .tree =>
    return .tree ((kind.filledAttribute? "parent-field").getD "parentid")
      ((kind.filledAttribute? "key-field").getD "id")
  | .view =>
    match kind.filledAttribute? "group" with
    | some field => return .view field
    | none => throw (.missingAttribute (kind.tag?.getD "") "group")

/-- Takes faces out of a command one after another and reads them. -/
def readFaces (patterns : BindingPatterns) : Nat → List NodeId → Reading (List Face)
  | _, [] => return []
  | index, id :: rest => do
    modify (·.detach id)
    let face ← Reading.attempt fun markup => Face.read patterns index markup id
    let faces ← readFaces patterns (index + 1) rest
    return face :: faces

/-- Reads a command from its element. -/
def read (patterns : BindingPatterns) (command : ShowKind) (id : NodeId) :
    Reading (ShowCommand × Priority) := do
  let kind := (← get).kind id
  match kind.filledAttribute? "source" with
  | none => throw (.missingAttribute (kind.tag?.getD "") "source")
  | some source =>
    let rowCount ← Reading.ofExcept (readRowCount patterns command kind)
    let arrangement ← readArrangement command id kind
    let layout ← Reading.change (·.detachLayout id)
    let markup ← get
    let faces ← readFaces patterns 0 ((markup.children id).filter (markup.hasTag "face"))
    let priority := ((kind.attribute? "priority").bind Priority.ofWord?).getD .normal
    return ({ sourceId := Unicode.lower source, faces, layout, rowCount, arrangement }, priority)

/-- The ids of the sources a command is rendered again for, in the order they are subscribed to. -/
def dependencies (command : ShowCommand) : List String :=
  command.sourceId :: command.faces.flatMap Face.dependencies
    ++ command.rowCount.toList.flatMap Token.dependencies

/-- The resolved row count; what is no natural number stands for no groups. -/
def resolveRowCount (command : ShowCommand) (find : String → Option Source) : Nat :=
  match command.rowCount with
  | some token => (token.value find).nat?.getD 0
  | none => 0

/-- Shows a source: the changed markup, the command with its new cache, and the output. -/
def refresh (command : ShowCommand) (find : String → Option Source) (pattern : Pattern)
    (markup : Markup) (source : Source) : Except Error (Markup × ShowCommand × List NodeId) := do
  let resolved ← command.faces.mapM fun face => face.resolve find source
  let rowCount := command.resolveRowCount find
  let (pass, rows) :=
    (Pass.start resolved pattern markup command.cache).arrange command.arrangement rowCount source
  let (markup, output) := command.layout.render pass.markup rows
  return (markup, { command with cache := pass.cache }, output)

end ShowCommand

end ReactiveMarkup
