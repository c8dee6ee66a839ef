import ReactiveMarkup.Proofs.Markup.Detach
import ReactiveMarkup.Proofs.Markup.Parts
import ReactiveMarkup.Proofs.Markup.Unwrapping

/-!
# Templates are prepared exactly

What is taken out of an element as a template is its content, node for node, with an anchor in the place of
every mark, at whatever depth. The nodes that come out have no parent any more, and the element has no content.
No node that was there became something else, and what is not below the element has the children it had.

A mark is a text that says nothing but `@child`, and so is a comment that says nothing else. For texts that is
the purpose; a comment is not shown, and becomes a place for content all the same.
-/

namespace ReactiveMarkup

open Plot

/-- A mark is a text or a comment that says `@child` and nothing else, blanks aside. -/
theorem Template.isMark_iff {kind : NodeKind} : isMark kind = true ↔
    ∃ content, (kind = .text content ∨ kind = .comment content) ∧ Text.trim content = "@child" := by
  rw [isMark]
  cases kind with
  | element tag attributes => simp [NodeKind.content?]
  | anchor name => simp [NodeKind.content?]
  | text content => simp [NodeKind.content?, childAnchor]
  | comment content => simp [NodeKind.content?, childAnchor]

namespace Markup

variable {markup before middle after : Markup} {id : NodeId}

/-- Nodes without a parent still have none. -/
structure Strands (before after : Markup) : Prop where
  size : before.size ≤ after.size
  parent : ∀ id < before.size, before.parent? id = none → after.parent? id = none

theorem Strands.refl (markup : Markup) : Strands markup markup := ⟨Nat.le_refl _, fun _ _ h => h⟩

theorem Strands.trans (h : Strands before middle) (h' : Strands middle after) : Strands before after :=
  ⟨Nat.le_trans h.size h'.size, fun id hid hnone =>
    h'.parent id (Nat.lt_of_lt_of_le hid h.size) (h.parent id hid hnone)⟩

theorem strands_create (markup : Markup) (kind : NodeKind) : Strands markup (markup.create kind).1 :=
  ⟨by rw [size_create]; exact Nat.le_succ _, fun id _ hnone => by rw [parent?_create, hnone]⟩

/-- An anchor is put for a child; it is the only node that gets a parent. -/
theorem strands_putAnchor (markup : Markup) (id child : NodeId) (index : Nat) (kind : NodeKind) :
    Strands markup (((markup.remove id child).1.create kind).1.insert id index
      ((markup.remove id child).1.create kind).2) where
  size := by
    rw [size_insert, size_create, size_remove]
    exact Nat.le_succ _
  parent other hother hnone := by
    have hsize : (markup.remove id child).1.size = markup.size := size_remove id child
    rw [create_snd, parent?_insert_of_ne, parent?_create, parent?_remove]
    · split
      · rfl
      · exact hnone
    · rw [size_create]
      exact Nat.lt_succ_self _
    · exact parent?_create_self _
    · rw [hsize]
      exact Nat.ne_of_lt hother

theorem strands_markAnchorsTo (depth : Nat) (markup : Markup) (id : NodeId) :
    Strands markup (markup.markAnchorsTo depth id) := by
  induction depth generalizing markup id with
  | zero => exact .refl markup
  | succ depth ih =>
      rw [markAnchorsTo_succ]
      refine List.foldlRecOn (motive := fun state : Markup × Nat => Strands markup state.1)
        _ _ (.refl markup) fun state hstate child _ => hstate.trans ?_
      rw [markChild]
      split
      · exact strands_putAnchor state.1 id child state.2 _
      · exact ih state.1 child

/-- Nodes without parents stay without, and so do the anchors that come for them. -/
theorem strands_replaceMarks (ids : List NodeId) (markup : Markup)
    (hids : ∀ id ∈ ids, id < markup.size ∧ markup.parent? id = none) :
    Strands markup (mapAccum replaceMark markup ids).1 ∧
      ∀ node ∈ (mapAccum replaceMark markup ids).2,
        (mapAccum replaceMark markup ids).1.parent? node = none := by
  induction ids generalizing markup with
  | nil => exact ⟨.refl markup, List.forall_mem_nil _⟩
  | cons id rest ih =>
      obtain ⟨hid, hrest⟩ := List.forall_mem_cons.mp hids
      have hfirst : Strands markup (markup.replaceMark id).1 ∧
          (markup.replaceMark id).2 < (markup.replaceMark id).1.size ∧
            (markup.replaceMark id).1.parent? (markup.replaceMark id).2 = none := by
        rw [replaceMark]
        split
        · refine ⟨strands_create markup _, ?_, parent?_create_self _⟩
          rw [size_create]
          exact Nat.lt_succ_self _
        · exact ⟨.refl markup, hid⟩
      obtain ⟨hstrands, hlt, hnone⟩ := hfirst
      obtain ⟨hmore, hothers⟩ := ih (markup.replaceMark id).1 fun other hother =>
        ⟨Nat.lt_of_lt_of_le (hrest other hother).1 hstrands.size,
          hstrands.parent other (hrest other hother).1 (hrest other hother).2⟩
      exact ⟨hstrands.trans hmore, List.forall_mem_cons.mpr ⟨hmore.parent _ hlt hnone, hothers⟩⟩

theorem parent?_detachTemplate (id : NodeId)
    (hchildren : ∀ child ∈ markup.children id, child < markup.size) :
    ∀ node ∈ (markup.detachTemplate id).2, (markup.detachTemplate id).1.parent? node = none := by
  have hwalk : Strands (markup.takeChildren id).1
      ((markup.children id).foldl markAnchors (markup.takeChildren id).1) :=
    List.foldlRecOn (motive := Strands (markup.takeChildren id).1) _ _ (.refl _)
      fun state hstate child _ => hstate.trans (strands_markAnchorsTo state.size state child)
  rw [detachTemplate_eq]
  refine (strands_replaceMarks _ _ fun child hchild => ?_).2
  have hlt : child < (markup.takeChildren id).1.size := by
    rw [size_takeChildren]
    exact hchildren child hchild
  refine ⟨Nat.lt_of_lt_of_le hlt hwalk.size, hwalk.parent child hlt ?_⟩
  rw [parent?_takeChildren, if_pos hchild]

/-- The nodes of a tree and all nodes that are not made yet are a closed set. -/
theorem encloses_ids {plot : Plot} (h : Stands markup plot) (hwhole : plot.IsWhole) :
    Encloses (fun other => other ∈ plot.ids ∨ markup.size ≤ other) markup where
  inner other hother child hchild := by
    rcases hother with hin | hnew
    · have hbelow := Stands.children_subset h other (hwhole.told_eq ▸ hin) hchild
      rw [ids_eq]
      exact .inl (List.mem_cons_of_mem _ hbelow)
    · rw [children_of_le hnew] at hchild
      cases hchild
  new other hle := .inr hle

/-- Preparing a template is exact. The content of an element comes out node for node, with a new empty anchor
for every mark and for nothing else, and none of what comes out has a parent. The element is left empty, no
node becomes another one, and what is not below the element keeps its children. -/
theorem detachTemplate_exact {kind : NodeKind} {children : List Plot} (hwhole : AreWhole children)
    (h : Garden markup [.tree id kind children]) :
    ∃ template : List Plot, template.map root = (markup.detachTemplate id).2 ∧
      List.Forall₂ (Garden.Prepared markup.size) children template ∧
      Garden (markup.detachTemplate id).1 (.tree id kind [] :: template) ∧
      (∀ node ∈ (markup.detachTemplate id).2, (markup.detachTemplate id).1.parent? node = none) ∧
      (∀ other < markup.size, (markup.detachTemplate id).1.kind other = markup.kind other) ∧
      (∀ other < markup.size, other ∉ (Plot.tree id kind children).ids →
        (markup.detachTemplate id).1.children other = markup.children other) ∧
      (markup.Linked → (markup.detachTemplate id).1.Linked) := by
  obtain ⟨template, hnodes, -, hprepared, hgarden, -⟩ := Garden.detachTemplate_prepared hwhole h
  rw [List.append_nil] at hgarden
  have hstands := h.stands.1
  have hconfined := confined_detachTemplate
    (encloses_ids hstands (show IsWhole (.tree id kind children) from hwhole)) (.inl List.mem_cons_self)
  refine ⟨template, hnodes, hprepared, hgarden, parent?_detachTemplate id fun child hchild => ?_,
    hconfined.kind, fun other hother hout => hconfined.outside other fun hin => ?_, hconfined.linked⟩
  · rw [(Garden.tree_iff.mp h).2] at hchild
    exact StandAll.lt_size hstands.2.2.2 child (roots_subset_idsIn children hchild)
  · exact hin.elim hout (Nat.not_le.mpr hother)

/-- A face with marks at two depths, one of them with blanks, next to a comment and a text that are none. -/
def markedFace : Markup := ⟨#[
  { kind := .element "face" [], children := [1, 6] },
  { kind := .element "li" [], children := [2, 3, 4], parent := some 0 },
  { kind := .text " @child", parent := some 1 },
  { kind := .comment "child", parent := some 1 },
  { kind := .element "b" [], children := [5], parent := some 1 },
  { kind := .text "@child", parent := some 4 },
  { kind := .text "@child.", parent := some 0 }]⟩

/-- The content of the face as it stands there. -/
def markedContent : List Plot := [
  .tree 1 (.element "li" []) [.tree 2 (.text " @child") [], .tree 3 (.comment "child") [],
    .tree 4 (.element "b" []) [.tree 5 (.text "@child") []]],
  .tree 6 (.text "@child.") []]

theorem marked_face_prepared : Garden markedFace [.tree 0 (.element "face" []) markedContent] ∧
    (markedFace.detachTemplate 0).2 = [1, 6] ∧
    ∃ template, template.map root = [1, 6] ∧ List.Forall₂ (Garden.Prepared 7) markedContent template ∧
      Garden (markedFace.detachTemplate 0).1 (.tree 0 (.element "face" []) [] :: template) := by
  have hgarden : Garden markedFace [.tree 0 (.element "face" []) markedContent] := by
    refine ⟨?_, by decide⟩
    simp only [markedContent, Plot.StandAll, Plot.Stands]
    decide
  have hwhole : AreWhole markedContent := by simp [markedContent, Plot.IsWhole, Plot.AreWhole]
  have hnodes : (markedFace.detachTemplate 0).2 = [1, 6] := by decide +kernel
  obtain ⟨template, hroots, hprepared, htemplate, -⟩ := detachTemplate_exact hwhole hgarden
  exact ⟨hgarden, hnodes, template, hroots.trans hnodes, hprepared, htemplate⟩

/-- A face with a comment that says what a mark says. -/
def commentedFace : Markup := ⟨#[
  { kind := .element "face" [], children := [1] },
  { kind := .comment "@child", parent := some 0 }]⟩

/-- The comment does not come out as it is, but as a new anchor. -/
theorem commented_mark_replaced : commentedFace.children 0 = [1] ∧
    commentedFace.kind 1 = .comment "@child" ∧ (commentedFace.detachTemplate 0).2 = [2] ∧
      (commentedFace.detachTemplate 0).1.kind 2 = .anchor "child" := by
  decide +kernel

end Markup

end ReactiveMarkup
