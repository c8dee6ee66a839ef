import ReactiveMarkup.Markup.Template

/-!
# Layouts and sections

What a command shows around its rows. The layout is a template with a place for the rows; the else
layout is shown when there are none. A section is a named template among the children of a command.
Reading them takes their elements out of the command.
-/

namespace ReactiveMarkup

structure Layout where
  /-- The template around the rows. -/
  wrapper : List NodeId := []
  /-- The template shown when there are no rows. -/
  empty : List NodeId := []
deriving Inhabited

namespace Markup

/-- Takes the template of an element and the element out of its parent. -/
def detachSectionNode (markup : Markup) (id : NodeId) : Markup × List NodeId :=
  let (markup, template) := markup.detachTemplate id
  (markup.detach id, template)

/-- Takes the layouts out of a command. Of several of one kind the last counts. -/
def detachLayout (markup : Markup) (id : NodeId) : Markup × Layout :=
  (markup.children id).foldl
    (fun (state : Markup × Layout) child =>
      let (markup, layout) := state
      match (markup.kind child).tag?.map Unicode.lower with
      | some tag =>
        if tag = "layout" then
          let (markup, wrapper) := markup.detachSectionNode child
          (markup, { layout with wrapper })
        else if tag = "else-layout" then
          let (markup, empty) := markup.detachSectionNode child
          (markup, { layout with empty })
        else (markup, layout)
      | none => (markup, layout))
    (markup, {})

/-- Takes the template of the first child of a tag. -/
def detachSection (markup : Markup) (id : NodeId) (tag : String) : Markup × List NodeId :=
  match (markup.children id).find? (markup.hasTag tag) with
  | some found => (markup.detach found).detachTemplate found
  | none => (markup, [])

end Markup

/-- Rows in a layout: a copy of the wrapper around them, or of the empty template without rows. -/
def Layout.render (layout : Layout) (markup : Markup) (rows : List NodeId) : Markup × List NodeId :=
  if rows.isEmpty then markup.copyAll layout.empty
  else if layout.wrapper.isEmpty then (markup, rows)
  else
    let (markup, copies) := markup.copyAll layout.wrapper
    markup.nest copies rows

end ReactiveMarkup
