import ReactiveMarkup.Proofs.Markup.Links

/-!
# Runs of edits

What a host can do to a forest, in any order and with any nodes: a node may be put where it is already,
below itself, or in place of its own children. Such a run never loses the links between parents and
children, gives no element an attribute twice, and leaves the order of all children alone that it does
not move.

What an edit moves is read off the forest it is done to. Nodes that an edit makes are not moved, because
they were nowhere before; in a copy they come to stand below other new nodes only.
-/

namespace ReactiveMarkup

/-- What a host can do to a forest. -/
inductive Edit where
  /-- A new node; an element gets its attributes one by one. -/
  | create (kind : NodeKind) (bare : kind.attributes = [])
  | append (id child : NodeId)
  | insert (id : NodeId) (index : Nat) (child : NodeId)
  | remove (id child : NodeId)
  | detach (id : NodeId)
  | takeChildren (id : NodeId)
  | replaceChildren (id : NodeId) (nodes : List NodeId)
  | copy (id : NodeId)
  | setAttribute (id : NodeId) (name value : String)
  | removeAttribute (id : NodeId) (name : String)
  | setContent (id : NodeId) (content : String)

namespace Edit

/-- The forest after an edit. -/
def apply (markup : Markup) : Edit → Markup
  | .create kind _ => (markup.create kind).1
  | .append id child => markup.append id child
  | .insert id index child => markup.insert id index child
  | .remove id child => (markup.remove id child).1
  | .detach id => markup.detach id
  | .takeChildren id => (markup.takeChildren id).1
  | .replaceChildren id nodes => markup.replaceChildren id nodes
  | .copy id => (markup.copy id).1
  | .setAttribute id name value => markup.setKind id (NodeKind.setAttribute name value)
  | .removeAttribute id name => markup.setKind id (NodeKind.removeAttribute name)
  | .setContent id content => markup.setKind id (NodeKind.setContent content)

/-- The nodes an edit names. -/
def nodes : Edit → List NodeId
  | .create _ _ => []
  | .append id child => [id, child]
  | .insert id _ child => [id, child]
  | .remove id child => [id, child]
  | .detach id => [id]
  | .takeChildren id => [id]
  | .replaceChildren id nodes => id :: nodes
  | .copy id => [id]
  | .setAttribute id _ _ => [id]
  | .removeAttribute id _ => [id]
  | .setContent id _ => [id]

/-- The nodes an edit of a forest moves. -/
def moves (markup : Markup) : Edit → List NodeId
  | .append _ child => [child]
  | .insert _ _ child => [child]
  | .remove id child => if child ∈ markup.children id then [child] else []
  | .detach id => if (markup.parent? id).isSome then [id] else []
  | .takeChildren id => markup.children id
  | .replaceChildren id nodes => markup.children id ++ nodes
  | _ => []

end Edit

namespace Markup

variable {markup before middle after : Markup} {moved more : List NodeId} {id child : NodeId}

/-! ## The order of children -/

/-- The children of a list that were not moved. -/
def unmoved (moved nodes : List NodeId) : List NodeId := nodes.filter fun node => node ∉ moved

theorem unmoved_append (moved more nodes : List NodeId) :
    unmoved (moved ++ more) nodes = unmoved more (unmoved moved nodes) := by
  rw [unmoved, unmoved, unmoved, List.filter_filter]
  exact List.filter_congr fun node _ => by simp [Bool.and_comm]

theorem unmoved_comm (moved more nodes : List NodeId) :
    unmoved more (unmoved moved nodes) = unmoved moved (unmoved more nodes) := by
  simp only [unmoved, List.filter_filter, Bool.and_comm]

theorem unmoved_erase (h : child ∈ moved) (nodes : List NodeId) :
    unmoved moved (nodes.erase child) = unmoved moved nodes := by
  induction nodes with
  | nil => rfl
  | cons node rest ih =>
      rw [List.erase_cons]
      split
      · next hnode =>
          rw [eq_of_beq hnode]
          simp [unmoved, h]
      · simp only [unmoved, List.filter_cons] at ih ⊢
        rw [ih]

/-- What was there keeps its children, in their order, as far as they were not moved. -/
structure KeepsOrder (moved : List NodeId) (before after : Markup) : Prop where
  size : before.size ≤ after.size
  order : ∀ id < before.size,
    unmoved moved (after.children id) = unmoved moved (before.children id)

namespace KeepsOrder

theorem refl (markup : Markup) : KeepsOrder [] markup markup := ⟨Nat.le_refl _, fun _ _ => rfl⟩

theorem trans (h : KeepsOrder moved before middle) (h' : KeepsOrder more middle after) :
    KeepsOrder (moved ++ more) before after where
  size := Nat.le_trans h.size h'.size
  order id hid := by
    -- Each part speaks of the lists without its own moves, so the moves of both are taken out.
    have hmore := h'.order id (Nat.lt_of_lt_of_le hid h.size)
    rw [unmoved_append, unmoved_comm, hmore, unmoved_comm, h.order id hid, ← unmoved_append]

/-- The lists of the nodes that were there stay as they are. -/
theorem of_children (hsize : before.size ≤ after.size)
    (h : ∀ id < before.size, after.children id = before.children id) :
    KeepsOrder [] before after :=
  ⟨hsize, fun id hid => by rw [h id hid]⟩

theorem remove (h : child ∈ moved) (markup : Markup) (id : NodeId) :
    KeepsOrder moved markup (markup.remove id child).1 where
  size := Nat.le_of_eq (size_remove id child).symm
  order other _ := by
    rw [children_remove]
    split
    · exact unmoved_erase h _
    · rfl

theorem detach (h : child ∈ moved) (markup : Markup) :
    KeepsOrder moved markup (markup.detach child) where
  size := Nat.le_of_eq (size_detach child).symm
  order other _ := by
    rw [children_detach]
    split
    · exact unmoved_erase h _
    · rfl

/-- Putting a node somewhere among the children of another leaves the others in their order. -/
theorem move (markup : Markup) (id : NodeId) {f : List NodeId → List NodeId}
    (hf : ∀ nodes, unmoved [child] (f nodes) = unmoved [child] nodes) :
    KeepsOrder [child] markup
      (((markup.detach child).setParent child (some id)).setChildren id f) where
  size := Nat.le_of_eq (by rw [size_setChildren, size_setParent, size_detach])
  order other hother := by
    have hdetached := (detach (List.mem_singleton_self child) markup).order other hother
    by_cases hid : other = id
    · subst hid
      rw [children_setChildren (by rw [size_setParent, size_detach]; exact hother), if_pos rfl,
        hf, children_setParent, hdetached]
    · rw [children_setChildren_of_ne hid, children_setParent, hdetached]

theorem append (markup : Markup) (id child : NodeId) :
    KeepsOrder [child] markup (markup.append id child) :=
  move markup id fun nodes => by simp [unmoved]

theorem insert (markup : Markup) (id : NodeId) (index : Nat) (child : NodeId) :
    KeepsOrder [child] markup (markup.insert id index child) := by
  refine move markup id fun nodes => ?_
  have hwhole := List.take_append_drop index nodes
  conv_rhs => rw [← hwhole]
  simp [insertIn, unmoved, -List.take_append_drop]

theorem takeChildren (markup : Markup) (id : NodeId) :
    KeepsOrder (markup.children id) markup (markup.takeChildren id).1 where
  size := Nat.le_of_eq (size_takeChildren id).symm
  order other _ := by
    rw [children_takeChildren]
    split
    · next hother =>
        rw [hother]
        simp [unmoved]
    · rfl

theorem appendAll (markup : Markup) (id : NodeId) (nodes : List NodeId) :
    KeepsOrder nodes markup (markup.appendAll id nodes) := by
  induction nodes generalizing markup with
  | nil => exact refl markup
  | cons node rest ih => exact (append markup id node).trans (ih _)

theorem replaceChildren (markup : Markup) (id : NodeId) (nodes : List NodeId) :
    KeepsOrder (markup.children id ++ nodes) markup (markup.replaceChildren id nodes) :=
  (takeChildren markup id).trans (appendAll _ id nodes)

end KeepsOrder

/-! ## Copies -/

/-- A copy of a linked forest is linked, and nothing is put below the nodes that were there. -/
theorem Linked.copy (h : markup.Linked) (id : NodeId) :
    (markup.copy id).1.Linked ∧ KeepsOrder [] markup (markup.copy id).1 := by
  have hold : ∀ copied : Markup, copied.Linked →
      (∀ other < markup.size, copied.children other = markup.children other) →
      ∀ copy inner : Nat, markup.size ≤ copy → markup.size ≤ inner →
        ∀ other : Nat, other < markup.size →
          (copied.append copy inner).children other = markup.children other := by
    intro copied hlinked hsame copy inner hcopy hinner other hother
    rw [children_append_of_ne (Nat.ne_of_lt (Nat.lt_of_lt_of_le hother hcopy)), hsame other hother]
    intro hmem
    rw [hsame other hother] at hmem
    exact Nat.not_lt.mpr hinner (h.lt_size hmem)
  obtain ⟨⟨hlinked, hsame⟩, hsize⟩ := copyTo_keeps
    (P := fun copied => copied.Linked ∧
      ∀ other < markup.size, copied.children other = markup.children other)
    (fun copied node hcopied => ⟨hcopied.1.create _, fun other hother => by
      rw [children_create]
      exact hcopied.2 other hother⟩)
    (fun copied copy inner hcopy hlt hinner hltInner hcopied =>
      ⟨hcopied.1.append (Nat.lt_trans hlt hltInner) hltInner,
        hold copied hcopied.1 hcopied.2 copy inner hcopy hinner⟩)
    markup.size id (Nat.le_refl markup.size) ⟨h, fun _ _ => rfl⟩
  exact ⟨hlinked, .of_children (Nat.le_of_lt hsize) hsame⟩

/-! ## Single edits -/

/-- What an edit keeps. -/
theorem Linked.edit (h : markup.Linked) {edit : Edit} (hnodes : ∀ id ∈ edit.nodes, id < markup.size) :
    (edit.apply markup).Linked ∧ KeepsOrder (edit.moves markup) markup (edit.apply markup) := by
  cases edit with
  | create kind bare =>
      refine ⟨h.create kind, .of_children ?_ fun id _ => children_create kind id⟩
      rw [Edit.apply, size_create]
      exact Nat.le_succ _
  | append id child =>
      simp only [Edit.nodes, List.forall_mem_cons] at hnodes
      exact ⟨h.append hnodes.1 hnodes.2.1, .append markup id child⟩
  | insert id index child =>
      simp only [Edit.nodes, List.forall_mem_cons] at hnodes
      exact ⟨h.insert hnodes.1 hnodes.2.1 index, .insert markup id index child⟩
  | remove id child =>
      refine ⟨h.remove id child, ?_⟩
      rw [Edit.moves]
      split
      · exact .remove (List.mem_singleton_self child) markup id
      · next hnot =>
          have hsame : (markup.remove id child).1 = markup := by
            rw [Markup.remove, if_neg (by simpa using hnot)]
          rw [Edit.apply, hsame]
          exact .refl markup
  | detach id =>
      refine ⟨h.detach id, ?_⟩
      rw [Edit.moves]
      split
      · exact .detach (List.mem_singleton_self id) markup
      · next hnone =>
          rw [Edit.apply, detach_of_no_parent (by simpa using hnone)]
          exact .refl markup
  | takeChildren id => exact ⟨h.takeChildren id, .takeChildren markup id⟩
  | replaceChildren id nodes =>
      simp only [Edit.nodes, List.forall_mem_cons] at hnodes
      exact ⟨h.replaceChildren hnodes.1 hnodes.2, .replaceChildren markup id nodes⟩
  | copy id => exact h.copy id
  | setAttribute id name value =>
      exact ⟨h.setKind id _, .of_children (Nat.le_of_eq (size_setKind id _).symm)
        fun other _ => children_setKind id other _⟩
  | removeAttribute id name =>
      exact ⟨h.setKind id _, .of_children (Nat.le_of_eq (size_setKind id _).symm)
        fun other _ => children_setKind id other _⟩
  | setContent id content =>
      exact ⟨h.setKind id _, .of_children (Nat.le_of_eq (size_setKind id _).symm)
        fun other _ => children_setKind id other _⟩

theorem Wellnamed.empty : Wellnamed Arena.empty := by
  intro id
  rw [kind_eq, get?_eq_none_of_le (Nat.zero_le id)]
  exact NodeKind.wellnamed_of_none rfl

/-- No edit gives an element an attribute twice. -/
theorem Wellnamed.edit (h : markup.Wellnamed) (edit : Edit) : (edit.apply markup).Wellnamed := by
  cases edit with
  | create kind bare => exact h.create (NodeKind.wellnamed_of_none bare)
  | append id child => exact (keeps_append markup id child).named h
  | insert id index child =>
      exact (Keeps.of_kind (size_insert id child index)
        fun other => kind_insert id child other index).named h
  | remove id child =>
      exact (Keeps.of_kind (size_remove id child) fun other => kind_remove id child other).named h
  | detach id =>
      exact (Keeps.of_kind (size_detach id) fun other => kind_detach id other).named h
  | takeChildren id =>
      exact (Keeps.of_kind (size_takeChildren id) fun other => kind_takeChildren id other).named h
  | replaceChildren id nodes => exact (keeps_replaceChildren markup id nodes).named h
  | copy id => exact (copyTo_new markup.size markup id).2.1.named h
  | setAttribute id name value => exact h.setKind (fun _ hkind => hkind.setAttribute name value) id
  | removeAttribute id name => exact h.setKind (fun _ hkind => hkind.removeAttribute name) id
  | setContent id content => exact h.setKind (fun _ hkind => hkind.setContent content) id

end Markup

/-! ## Runs -/

namespace Edit

/-- The forest after some edits. -/
def applyAll (markup : Markup) (edits : List Edit) : Markup :=
  edits.foldl (fun markup edit => edit.apply markup) markup

/-- Everything some edits of a forest move. -/
def movesAll (markup : Markup) : List Edit → List NodeId
  | [] => []
  | edit :: rest => edit.moves markup ++ movesAll (edit.apply markup) rest

/-- Whether each edit names nodes only that are there when it is done. -/
def There (markup : Markup) : List Edit → Prop
  | [] => True
  | edit :: rest => (∀ id ∈ edit.nodes, id < markup.size) ∧ There (edit.apply markup) rest

instance decidableThere (markup : Markup) : ∀ edits, Decidable (There markup edits)
  | [] => inferInstanceAs (Decidable True)
  | edit :: rest =>
    @instDecidableAnd _ _ (List.decidableBAll _ edit.nodes)
      (decidableThere (edit.apply markup) rest)

theorem there_append {markup : Markup} {edits more : List Edit} :
    There markup (edits ++ more) ↔ There markup edits ∧ There (applyAll markup edits) more := by
  induction edits generalizing markup with
  | nil => simp [There, applyAll]
  | cons edit rest ih => rw [List.cons_append, There, ih, There, and_assoc]; rfl

end Edit

namespace Markup

variable {markup : Markup}

/-- What a run of edits keeps. -/
theorem Linked.editAll {edits : List Edit} (h : markup.Linked) (hthere : Edit.There markup edits) :
    (Edit.applyAll markup edits).Linked ∧
      KeepsOrder (Edit.movesAll markup edits) markup (Edit.applyAll markup edits) := by
  induction edits generalizing markup with
  | nil => exact ⟨h, .refl markup⟩
  | cons edit rest ih =>
      obtain ⟨hnodes, hrest⟩ := hthere
      obtain ⟨hlinked, hone⟩ := h.edit hnodes
      obtain ⟨hafter, hmore⟩ := ih hlinked hrest
      exact ⟨hafter, hone.trans hmore⟩

theorem Wellnamed.editAll (h : markup.Wellnamed) (edits : List Edit) :
    (Edit.applyAll markup edits).Wellnamed :=
  List.foldlRecOn (motive := Wellnamed) edits _ h fun _ hmarkup edit _ => hmarkup.edit edit

end Markup

/-- Whatever is done to a forest that began empty, a node is in one list of children at most and there
once, which is the list of its parent; no element has an attribute twice; and what is done further on
leaves all children in their order that it does not move. -/
theorem edited_consistent (edits more : List Edit) (h : Edit.There Arena.empty (edits ++ more)) :
    let markup := Edit.applyAll Arena.empty edits
    let later := Edit.applyAll markup more
    (∀ id, (markup.children id).Nodup) ∧
      (∀ id other child, child ∈ markup.children id → child ∈ markup.children other → id = other) ∧
      (∀ id child, child ∈ markup.children id ↔ markup.parent? child = some id) ∧
      (∀ id, (markup.kind id).Wellnamed) ∧
      ∀ id < markup.size, Markup.unmoved (Edit.movesAll markup more) (later.children id) =
        Markup.unmoved (Edit.movesAll markup more) (markup.children id) := by
  intro markup later
  obtain ⟨hedits, hmore⟩ := Edit.there_append.mp h
  obtain ⟨hlinked, -⟩ := Markup.Linked.empty.editAll hedits
  obtain ⟨-, hkept⟩ := hlinked.editAll hmore
  exact ⟨hlinked.nodup, fun _ _ _ => hlinked.parent_unique, hlinked.mem_iff,
    Markup.Wellnamed.empty.editAll edits, hkept.order⟩

/-- A list with two items, the second of which gets an attribute, is put in front, and gets the
attribute again in capital letters. -/
def listEdits : List Edit :=
  [.create (.element "ul" []) rfl, .create (.element "li" []) rfl, .create (.element "li" []) rfl,
    .append 0 1, .append 0 2, .setAttribute 2 "class" "old", .insert 0 0 2,
    .setAttribute 2 "CLASS" "new"]

/-- The list is copied, its first item gets the copy of the other one, and the list gets that item
again, and the copied item, in place of what it had. -/
def moreEdits : List Edit :=
  [.copy 0, .append 2 5, .remove 3 5, .replaceChildren 0 [2, 5], .insert 0 1 1]

theorem edited_list_consistent :
    Edit.There Arena.empty (listEdits ++ moreEdits) ∧
    (Edit.applyAll Arena.empty listEdits).children 0 = [2, 1] ∧
    (Edit.applyAll Arena.empty listEdits).kind 2 = .element "li" [("class", "new")] ∧
    (∀ id child, child ∈ (Edit.applyAll Arena.empty listEdits).children id ↔
      (Edit.applyAll Arena.empty listEdits).parent? child = some id) ∧
    (Edit.applyAll (Edit.applyAll Arena.empty listEdits) moreEdits).children 0 = [2, 1, 5] := by
  obtain ⟨-, -, hlinks, -⟩ := edited_consistent listEdits moreEdits (by decide)
  exact ⟨by decide, by decide, by decide, hlinks, by decide⟩

end ReactiveMarkup
