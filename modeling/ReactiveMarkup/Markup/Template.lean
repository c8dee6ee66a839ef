import ReactiveMarkup.Markup.Basic
import ReactiveMarkup.Pattern.Search
import ReactiveMarkup.Source.Basic

/-!
# Templates

The content of a face, a layout or a section is taken out of its element and kept as a template. A
text or comment that says nothing but `@child` becomes an anchor, the place for nested content. A
template is never changed again: filling it in for a row makes a copy in which every match of the
row pattern that names a column of the row is replaced by the text of that column.
-/

namespace ReactiveMarkup

namespace Template

/-- The name of the anchor that nested content goes to. -/
def childAnchor : String := "child"

/-- Whether a node says nothing but the mark of the child anchor. -/
def isMark (kind : NodeKind) : Bool :=
  match kind.content? with
  | some content => Text.trim content == "@" ++ childAnchor
  | none => false

/-- Text from a position on in which matches are replaced. -/
def fillFrom (row : Row) (text : List Char) : Nat → List Match → List Char
  | position, [] => text.drop position
  | position, found :: rest =>
    let column := String.ofList ((found.group? text 1).getD [])
    let shown := match row.get? column with
      | some value => value.display.toList
      | none => (text.drop found.start).take (found.stop - found.start)
    (text.drop position).take (found.start - position) ++ shown ++ fillFrom row text found.stop rest

/-- A text with the columns of a row filled in. -/
def fill (pattern : Pattern) (row : Row) (text : String) : String :=
  String.ofList (fillFrom row text.toList 0 (pattern.findAll text.toList))

/-- A node with the columns of a row filled in; comments stay as they are. -/
def fillKind (pattern : Pattern) (row : Row) : NodeKind → NodeKind
  | .element tag attributes =>
    .element tag (attributes.map fun (name, value) => (name, fill pattern row value))
  | .text content => .text (fill pattern row content)
  | kind => kind

/-- Whether filling in goes on below a node. -/
def fillsBelow : NodeKind → Bool
  | .element .. => true
  | .anchor _ => true
  | _ => false

end Template

namespace Markup

/-- Puts child anchors for the marks below a node, down to a depth. -/
def markAnchorsTo (markup : Markup) : Nat → NodeId → Markup
  | 0, _ => markup
  | depth + 1, id =>
    ((markup.children id).foldl
      (fun (state : Markup × Nat) child =>
        let (markup, index) := state
        if Template.isMark (markup.kind child) then
          let (markup, anchor) := (markup.remove id child).1.create (.anchor Template.childAnchor)
          (markup.insert id index anchor, index + 1)
        else (markAnchorsTo markup depth child, index + 1))
      (markup, 0)).1

/-- Puts child anchors for the marks below a node. -/
def markAnchors (markup : Markup) (id : NodeId) : Markup := markup.markAnchorsTo markup.size id

/-- Takes the content of a node as a template. -/
def detachTemplate (markup : Markup) (id : NodeId) : Markup × List NodeId :=
  let (markup, children) := markup.takeChildren id
  mapAccum
    (fun markup child =>
      if Template.isMark (markup.kind child) then markup.create (.anchor Template.childAnchor)
      else (markup, child))
    (children.foldl markAnchors markup) children

/-- Fills a row in at a node and below it, down to a depth. -/
def fillTo (pattern : Pattern) (row : Row) (markup : Markup) : Nat → NodeId → Markup
  | 0, _ => markup
  | depth + 1, id =>
    let filled := markup.setKind id (Template.fillKind pattern row)
    if Template.fillsBelow (markup.kind id) then
      (markup.children id).foldl (fun filled child => fillTo pattern row filled depth child) filled
    else filled

/-- Copies of template nodes with a row filled in. -/
def substitute (markup : Markup) (template : List NodeId) (pattern : Pattern) (row : Row) :
    Markup × List NodeId :=
  mapAccum
    (fun markup id =>
      let (markup, copy) := markup.copy id
      (fillTo pattern row markup markup.size copy, copy))
    markup template

/-- The first child anchor at some nodes or below them. -/
def childAnchor? (markup : Markup) (nodes : List NodeId) : Option NodeId :=
  nodes.findSome? fun node => markup.findAnchor? node Template.childAnchor

/-- Puts nested content into the first child anchor of some nodes, or behind them. -/
def nest (markup : Markup) (nodes nested : List NodeId) : Markup × List NodeId :=
  match markup.childAnchor? nodes with
  | some anchor => ((markup.takeChildren anchor).1.appendAll anchor nested, nodes)
  | none => (markup, nodes ++ nested)

end Markup

end ReactiveMarkup
