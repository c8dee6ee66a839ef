import ReactiveMarkup.Face.Basic

/-!
# Passes

A pass goes over the rows of a source and gives, for every row it is asked for, the nodes that show
it. What a row was shown with is kept in a slot, named by the group, the key of the row and how
often that pair came before in the pass. A later pass takes the content of a slot over if the
version of the row and the face are still the same; slots that a pass does not use are gone after
it. Every rendering has a serial number of its own, so taking one over can be told from making one.
-/

namespace ReactiveMarkup

structure SlotName where
  group : String
  key : RowKey
  occurrence : Nat
deriving DecidableEq, Repr

/-- The nodes that show a row, with what they were made from. -/
structure Rendering where
  serial : Nat
  key : RowKey
  version : Nat
  face : Nat
  nodes : List NodeId
deriving DecidableEq, Repr

/-- The slots a pass leaves for the next one, and the serial number of the next rendering. -/
structure PassCache where
  slots : List (SlotName × Rendering) := []
  serial : Nat := 0
deriving Inhabited

/-- How many rows a pass made nodes for, took nodes over for, and did not show. -/
structure PassCounts where
  rendered : Nat := 0
  reused : Nat := 0
  skipped : Nat := 0
deriving DecidableEq, Repr

structure Pass where
  faces : List ResolvedFace
  pattern : Pattern
  markup : Markup
  previous : List (SlotName × Rendering)
  next : List (SlotName × Rendering) := []
  serial : Nat
  /-- The group and key of every row shown so far. -/
  seen : List (String × RowKey) := []
  shown : Nat := 0
  counts : PassCounts := {}

namespace Pass

/-- Begins a pass with what an earlier one left. -/
def start (faces : List ResolvedFace) (pattern : Pattern) (markup : Markup) (cache : PassCache) :
    Pass :=
  { faces, pattern, markup, previous := cache.slots, serial := cache.serial }

/-- The position of the first face that fits a row now. -/
def select (pass : Pass) (index : Nat) (levels : List String) : Option Nat :=
  pass.faces.findIdx? fun face => face.fits index (RowType.after pass.shown) levels

/-- Shows a row with a face under a slot. -/
def place (pass : Pass) (name : SlotName) (entry : Entry) (face : Face) : Pass × Rendering :=
  let taken := { pass with
    previous := pass.previous.filter fun slot => slot.1 != name
    seen := (name.group, name.key) :: pass.seen
    shown := pass.shown + 1 }
  let make : Pass × Rendering :=
    let (markup, nodes) := pass.markup.substitute face.template pass.pattern entry.row
    let rendering := ⟨pass.serial, name.key, entry.version, face.index, nodes⟩
    ({ taken with
        markup
        serial := pass.serial + 1
        next := (name, rendering) :: pass.next
        counts := { pass.counts with rendered := pass.counts.rendered + 1 } },
      rendering)
  match pass.previous.lookup name with
  | some rendering =>
    if rendering.version = entry.version && rendering.face = face.index then
      ({ taken with
          next := (name, rendering) :: pass.next
          counts := { pass.counts with reused := pass.counts.reused + 1 } },
        rendering)
    else make
  | none => make

/-- Shows the row at an index of a source, if a face fits it. -/
def renderRow (pass : Pass) (group : String) (source : Source) (index : Nat)
    (levels : List String) : Pass × Option Rendering :=
  match source.entries[index]? with
  | none => (pass, none)
  | some entry =>
    match (pass.select index levels).bind fun position => pass.faces[position]? with
    | none =>
      ({ pass with counts := { pass.counts with skipped := pass.counts.skipped + 1 } }, none)
    | some resolved =>
      let key := Source.keyOfRow source.options.keyField entry.row
      let (pass, rendering) :=
        pass.place ⟨group, key, pass.seen.count (group, key)⟩ entry resolved.face
      (pass, some rendering)

/-- What a pass leaves for the next one. -/
def cache (pass : Pass) : PassCache := ⟨pass.next, pass.serial⟩

/-- Copies of template nodes made in a pass. -/
def copyAll (pass : Pass) (template : List NodeId) : Pass × List NodeId :=
  let (markup, copies) := pass.markup.copyAll template
  ({ pass with markup }, copies)

/-- Nested content put into the first child anchor of a rendering, or behind it. -/
def nest (pass : Pass) (rendering : Rendering) (nested : List NodeId) :
    Pass × List NodeId :=
  let (markup, nodes) := pass.markup.nest rendering.nodes nested
  ({ pass with markup }, nodes)

end Pass

end ReactiveMarkup
