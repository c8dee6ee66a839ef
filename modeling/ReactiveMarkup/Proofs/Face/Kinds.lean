import ReactiveMarkup.Face.Command
import ReactiveMarkup.Proofs.Markup.Kinds

/-!
# What a pass does to other nodes

Showing a source changes what no node is that was there before, whatever the cache says and however
the markup looks like.
-/

namespace ReactiveMarkup

open Markup

namespace Pass

variable {source : Source}

theorem keeps_place (pass : Pass) (name : SlotName) (entry : Entry) (face : Face) :
    Keeps pass.markup (pass.place name entry face).1.markup := by
  have hmade := keeps_substitute pass.markup face.template pass.pattern entry.row
  rw [place]
  split
  · split
    · exact .refl _
    · exact hmade
  · exact hmade

theorem keeps_renderRow (pass : Pass) (group : String) (source : Source) (index : Nat)
    (levels : List String) : Keeps pass.markup (pass.renderRow group source index levels).1.markup := by
  rw [renderRow]
  split
  · exact .refl _
  · split
    · exact .refl _
    · exact keeps_place ..

theorem keeps_copyAll (pass : Pass) (template : List NodeId) :
    Keeps pass.markup (pass.copyAll template).1.markup := Markup.keeps_copyAll _ _

theorem keeps_nest (pass : Pass) (rendering : Rendering) (nested : List NodeId) :
    Keeps pass.markup (pass.nest rendering nested).1.markup := Markup.keeps_nest _ _ _

theorem keeps_listRows (levels : List String) (divider : List NodeId) (rowCount : Nat)
    (source : Source) (rows : List Nat) (pass : Pass) (shown : Nat) :
    Keeps pass.markup (listRows levels divider rowCount source pass shown rows).1.markup := by
  induction rows generalizing pass shown with
  | nil => exact .refl _
  | cons index rest ih =>
      have hrow := keeps_renderRow pass "" source index levels
      rw [listRows]
      split
      · next skipped hskipped =>
          rw [hskipped] at hrow
          exact hrow.trans (ih skipped shown)
      · next rendered rendering hrendered =>
          rw [hrendered] at hrow
          refine hrow.trans (.trans ?_ (ih _ (shown + 1)))
          split
          · exact keeps_copyAll rendered divider
          · exact .refl _

theorem keeps_copies (template : List NodeId) (n : Nat) (pass : Pass) :
    Keeps pass.markup (pass.copies template n).1.markup := by
  induction n generalizing pass with
  | zero => exact .refl _
  | succ n ih => exact (keeps_copyAll pass template).trans (ih _)

theorem keeps_arrangeList (pass : Pass) (levels : List String) (divider incomplete : List NodeId)
    (rowCount : Nat) (source : Source) :
    Keeps pass.markup (pass.arrangeList levels divider incomplete rowCount source).1.markup := by
  have hrows := keeps_listRows levels divider rowCount source (List.range source.size) pass 0
  rw [arrangeList]
  dsimp only
  split
  · exact hrows
  · exact hrows.trans (keeps_copies incomplete _ _)

mutual

theorem keeps_treeRow (shape : TreeShape) (source : Source) (fuel : Nat) (pass : Pass)
    (met : List Nat) (depth index : Nat) :
    Keeps pass.markup (treeRow shape source fuel pass met depth index).1.markup := by
  match fuel with
  | 0 =>
      rw [treeRow]
      exact .refl _
  | fuel + 1 =>
      rw [treeRow]
      split
      · exact .refl _
      · have hrow := keeps_renderRow pass "" source index
          [toString depth, if (shape.childrenOf index).isEmpty then "leaf" else "parent"]
        dsimp only
        split
        · next skipped hskipped =>
            rw [hskipped] at hrow
            exact hrow
        · next rendered rendering hrendered =>
            rw [hrendered] at hrow
            exact (hrow.trans (keeps_treeRows shape source fuel rendered (index :: met) (depth + 1)
              (shape.childrenOf index))).trans (keeps_nest ..)
termination_by (fuel, 0)

theorem keeps_treeRows (shape : TreeShape) (source : Source) (fuel : Nat) (pass : Pass)
    (met : List Nat) (depth : Nat) (rows : List Nat) :
    Keeps pass.markup (treeRows shape source fuel pass met depth rows).1.markup := by
  match rows with
  | [] =>
      rw [treeRows]
      exact .refl _
  | index :: rest =>
      rw [treeRows]
      exact (keeps_treeRow shape source fuel pass met depth index).trans
        (keeps_treeRows shape source fuel _ _ depth rest)
termination_by (fuel, rows.length + 1)

end

theorem keeps_memberRows (group : String) (source : Source) (rows : List Nat) (pass : Pass) :
    Keeps pass.markup (memberRows group source pass rows).1.markup := by
  induction rows generalizing pass with
  | nil => exact .refl _
  | cons index rest ih => exact (keeps_renderRow pass group source index ["2"]).trans (ih _)

theorem keeps_viewGroups (source : Source) (groups : List (String × List Nat)) (pass : Pass) :
    Keeps pass.markup (viewGroups source pass groups).1.markup := by
  induction groups generalizing pass with
  | nil => exact .refl _
  | cons group rest ih =>
      obtain ⟨name, members⟩ := group
      rw [viewGroups]
      refine (keeps_renderRow pass headerGroup source (members.headD 0) ["1"]).trans
        ((keeps_memberRows name source members _).trans (.trans ?_ (ih _)))
      split
      · exact keeps_nest ..
      · exact .refl _

theorem keeps_arrange (pass : Pass) (arrangement : Arrangement) (rowCount : Nat) (source : Source) :
    Keeps pass.markup (pass.arrange arrangement rowCount source).1.markup := by
  cases arrangement with
  | list levels divider incomplete => exact keeps_arrangeList ..
  | tree parentField keyField => exact keeps_treeRows ..
  | view groupField => exact keeps_viewGroups ..

end Pass

theorem Layout.keeps_render (layout : Layout) (markup : Markup) (rows : List NodeId) :
    Keeps markup (layout.render markup rows).1 := by
  rw [render]
  split
  · exact Markup.keeps_copyAll _ _
  · split
    · exact .refl _
    · exact (Markup.keeps_copyAll _ _).trans (Markup.keeps_nest _ _ _)

/-- Showing a source changes what no node is that was there before. -/
theorem ShowCommand.keeps_refresh {command after : ShowCommand} {find : String → Option Source}
    {pattern : Pattern} {markup changed : Markup} {source : Source} {output : List NodeId}
    (h : command.refresh find pattern markup source = .ok (changed, after, output)) :
    Keeps markup changed := by
  rw [refresh] at h
  cases hresolved : command.faces.mapM (Face.resolve · find source) with
  | error error =>
      rw [hresolved] at h
      cases h
  | ok resolved =>
      rw [hresolved] at h
      let arranged := (Pass.start resolved pattern markup command.cache).arrange command.arrangement
        (command.resolveRowCount find) source
      have hmade : (Except.ok ((command.layout.render arranged.1.markup arranged.2).1,
          { command with cache := arranged.1.cache },
          (command.layout.render arranged.1.markup arranged.2).2) : Except Error _) =
            .ok (changed, after, output) := h
      obtain ⟨rfl, -⟩ := Prod.mk.inj (Except.ok.inj hmade)
      have harranged : Keeps markup arranged.1.markup :=
        Pass.keeps_arrange (Pass.start resolved pattern markup command.cache) ..
      exact harranged.trans (Layout.keeps_render command.layout _ _)

end ReactiveMarkup
