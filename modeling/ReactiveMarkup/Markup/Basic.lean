import ReactiveMarkup.Arena
import ReactiveMarkup.Unicode.Case

/-!
# Markup

A forest of nodes that can be changed: elements with attributes, texts, comments, and anchors, which
are named places and do not show. A node has at most one parent; wherever a node is put, it is first
taken from where it was. Names of attributes are the same in any case of the Latin letters, and the
spelling of the first one stays.
-/

namespace ReactiveMarkup

abbrev NodeId := Nat

/-- What a node is. -/
inductive NodeKind where
  | element (tag : String) (attributes : List (String × String))
  | text (content : String)
  | comment (content : String)
  | anchor (name : String)
deriving DecidableEq, Repr, Inhabited

/-- A node with its place among the others. -/
structure Node where
  kind : NodeKind
  children : List NodeId := []
  parent : Option NodeId := none
deriving DecidableEq, Repr, Inhabited

namespace NodeKind

def tag? : NodeKind → Option String
  | .element tag _ => some tag
  | _ => none

def anchorName? : NodeKind → Option String
  | .anchor name => some name
  | _ => none

/-- The content of a text or comment. -/
def content? : NodeKind → Option String
  | .text content => some content
  | .comment content => some content
  | _ => none

/-- The attributes of an element; other nodes have none. -/
def attributes : NodeKind → List (String × String)
  | .element _ attributes => attributes
  | _ => []

def attribute? (kind : NodeKind) (name : String) : Option String :=
  (kind.attributes.find? fun entry => Unicode.sameName entry.1 name).map Prod.snd

/-- Attributes with one of them set: the first of its name, or a new one at the end. -/
def setIn (name value : String) : List (String × String) → List (String × String)
  | [] => [(name, value)]
  | (other, old) :: rest =>
    if Unicode.sameName other name then (other, value) :: rest
    else (other, old) :: setIn name value rest

/-- Sets an attribute of an element. -/
def setAttribute (name value : String) : NodeKind → NodeKind
  | .element tag attributes => .element tag (setIn name value attributes)
  | kind => kind

/-- Takes an attribute from an element. -/
def removeAttribute (name : String) : NodeKind → NodeKind
  | .element tag attributes =>
    .element tag (attributes.eraseP fun entry => Unicode.sameName entry.1 name)
  | kind => kind

/-- Sets the content of a text or comment. -/
def setContent (content : String) : NodeKind → NodeKind
  | .text _ => .text content
  | .comment _ => .comment content
  | kind => kind

end NodeKind

/-- A forest of nodes. -/
abbrev Markup := Arena Node

namespace Markup

/-- What a node is. -/
def kind (markup : Markup) (id : NodeId) : NodeKind :=
  match markup.get? id with
  | some node => node.kind
  | none => .text ""

def children (markup : Markup) (id : NodeId) : List NodeId :=
  match markup.get? id with
  | some node => node.children
  | none => []

def parent? (markup : Markup) (id : NodeId) : Option NodeId := (markup.get? id).bind Node.parent

/-- A new node without parent and children. -/
def create (markup : Markup) (kind : NodeKind) : Markup × NodeId :=
  (markup.push { kind }, markup.size)

/-- Changes what a node is. -/
def setKind (markup : Markup) (id : NodeId) (f : NodeKind → NodeKind) : Markup :=
  markup.modify id fun node => { node with kind := f node.kind }

/-- Sets the list of a node's children, and nothing else. -/
def setChildren (markup : Markup) (id : NodeId) (f : List NodeId → List NodeId) : Markup :=
  markup.modify id fun node => { node with children := f node.children }

/-- Sets the parent of a node, and nothing else. -/
def setParent (markup : Markup) (id : NodeId) (parent : Option NodeId) : Markup :=
  markup.modify id fun node => { node with parent }

/-- Takes a child out of a node; the flag tells whether it was one. -/
def remove (markup : Markup) (id child : NodeId) : Markup × Bool :=
  if (markup.children id).contains child then
    ((markup.setChildren id (·.erase child)).setParent child none, true)
  else (markup, false)

/-- Takes a node out of its parent. -/
def detach (markup : Markup) (id : NodeId) : Markup :=
  match markup.parent? id with
  | some parent => (markup.remove parent id).1
  | none => markup

/-- Puts a node behind the children of another. -/
def append (markup : Markup) (id child : NodeId) : Markup :=
  ((markup.detach child).setParent child (some id)).setChildren id (· ++ [child])

/-- A list with an item put in at an index, or at the end when the list is shorter. -/
def insertIn (index : Nat) (item : NodeId) (list : List NodeId) : List NodeId :=
  list.take index ++ item :: list.drop index

/-- Puts a node among the children of another, counted without it. -/
def insert (markup : Markup) (id : NodeId) (index : Nat) (child : NodeId) : Markup :=
  ((markup.detach child).setParent child (some id)).setChildren id (insertIn index child)

/-- Takes all children out of a node. -/
def takeChildren (markup : Markup) (id : NodeId) : Markup × List NodeId :=
  let taken := markup.children id
  let emptied := markup.setChildren id fun _ => []
  (taken.foldl (fun markup child => markup.setParent child none) emptied, taken)

/-- Puts nodes behind the children of another, one after another. -/
def appendAll (markup : Markup) (id : NodeId) (nodes : List NodeId) : Markup :=
  nodes.foldl (fun markup node => markup.append id node) markup

/-- Gives a node other children. -/
def replaceChildren (markup : Markup) (id : NodeId) (nodes : List NodeId) : Markup :=
  (markup.takeChildren id).1.appendAll id nodes

/-- Puts the children of a node in its place among the children of its parent. -/
def unwrap (markup : Markup) (parent id : NodeId) : Markup :=
  let index := (markup.children parent).idxOf id
  let (markup, children) := markup.takeChildren id
  (children.foldl
    (fun (state : Markup × Nat) child => (state.1.insert parent state.2 child, state.2 + 1))
    ((markup.remove parent id).1, index)).1

/-- A copy of a node and of what is below it, down to a depth. -/
def copyTo (markup : Markup) : Nat → NodeId → Markup × NodeId
  | 0, id => markup.create (markup.kind id)
  | depth + 1, id =>
    let (fresh, copy) := markup.create (markup.kind id)
    let filled := (markup.children id).foldl
      (fun filled child =>
        let (filled, inner) := copyTo filled depth child
        filled.append copy inner)
      fresh
    (filled, copy)

/-- A copy of a node and of everything below it. No node lies deeper than there are nodes. -/
def copy (markup : Markup) (id : NodeId) : Markup × NodeId := markup.copyTo markup.size id

/-- Copies of some nodes with everything below them. -/
def copyAll (markup : Markup) (ids : List NodeId) : Markup × List NodeId := mapAccum copy markup ids

/-- A node and what is below it down to a depth, in document order. -/
def nodesTo (markup : Markup) : Nat → NodeId → List NodeId
  | 0, _ => []
  | depth + 1, id => id :: (markup.children id).flatMap (nodesTo markup depth)

/-- A node and everything below it, in document order. -/
def nodes (markup : Markup) (id : NodeId) : List NodeId := markup.nodesTo markup.size id

/-- The first anchor of a name at a node or below it. -/
def findAnchor? (markup : Markup) (id : NodeId) (name : String) : Option NodeId :=
  (markup.nodes id).find? fun node => (markup.kind node).anchorName? == some name

/-- The elements of a tag at a node or below it. -/
def elementsByTag (markup : Markup) (id : NodeId) (tag : String) : List NodeId :=
  (markup.nodes id).filter fun node => (markup.kind node).tag?.any (Unicode.sameName · tag)

/-- The texts at a node and below it, joined. -/
def innerText (markup : Markup) (id : NodeId) : String :=
  String.join ((markup.nodes id).map fun node => match markup.kind node with
    | .text content => content
    | _ => "")

/-- Whether a node is an element of a tag. -/
def hasTag (markup : Markup) (tag : String) (id : NodeId) : Bool :=
  (markup.kind id).tag?.any (Unicode.sameName · tag)

end Markup

end ReactiveMarkup
