import Mathlib.Data.List.Nodup
import ReactiveMarkup.Proofs.Markup.Kinds

/-!
# Parents and children

A forest keeps every link twice, in the list of the parent and at the child. It is linked when the two
tell the same and no list has a node twice; then a node is in one list at most, the one of its parent.
Every operation edits both ends, and a move edits three nodes, because a node is first taken from where
it was, which may be the very list it is put into. What keeps this together is one fact about putting:
a node without a parent is in no list, so a list stays without repetition when the node comes into it,
at whatever place.

An operation moves some nodes. All other children of a node that was there before stay its children,
in the order they had.
-/

namespace ReactiveMarkup.Markup

variable {markup before middle after : Markup} {id other child : NodeId}

/-! ## What the operations do to parents -/

theorem parent?_eq (id : NodeId) :
    markup.parent? id = ((markup.get? id).map Node.parent).getD none := by
  rw [parent?]
  cases markup.get? id <;> rfl

theorem parent?_of_le (h : markup.size ≤ id) : markup.parent? id = none := by
  rw [parent?, get?_eq_none_of_le h]
  rfl

theorem lt_size_of_parent? (h : markup.parent? child = some id) : child < markup.size := by
  rcases Nat.lt_or_ge child markup.size with hlt | hge
  · exact hlt
  · rw [parent?_of_le hge] at h
    cases h

@[simp] theorem parent?_create (kind : NodeKind) (id : NodeId) :
    (markup.create kind).1.parent? id = markup.parent? id := by
  rw [create, parent?, Arena.get?_push]
  split
  · next h =>
      rw [parent?_of_le (Nat.le_of_eq h.symm)]
      rfl
  · rfl

@[simp] theorem parent?_setKind (id other : NodeId) (f : NodeKind → NodeKind) :
    (markup.setKind id f).parent? other = markup.parent? other := by
  rw [setKind, parent?_eq, part_modify, ite_self, ← parent?_eq]

@[simp] theorem parent?_setChildren (id other : NodeId) (f : List NodeId → List NodeId) :
    (markup.setChildren id f).parent? other = markup.parent? other := by
  rw [setChildren, parent?_eq, part_modify, ite_self, ← parent?_eq]

theorem parent?_setParent (hid : id < markup.size) (parent : Option NodeId) (other : NodeId) :
    (markup.setParent id parent).parent? other =
      if other = id then parent else markup.parent? other := by
  rw [setParent, parent?_eq, part_modify, parent?_eq]
  by_cases h : other = id
  · subst h
    obtain ⟨node, hnode⟩ := get?_isSome_of_lt hid
    rw [if_pos ⟨rfl, hid⟩, if_pos rfl, hnode]
    rfl
  · rw [if_neg h, if_neg fun hc => h hc.1]

/-- Forgetting a parent needs no bound: a node that is not there has none. -/
theorem parent?_setParent_none (id other : NodeId) :
    (markup.setParent id none).parent? other =
      if other = id then none else markup.parent? other := by
  rcases Nat.lt_or_ge id markup.size with hlt | hge
  · exact parent?_setParent hlt none other
  · rw [setParent, parent?_eq, part_modify, if_neg fun hc => Nat.not_lt.mpr hge hc.2, ← parent?_eq]
    split
    · next h => rw [h, parent?_of_le hge]
    · rfl

theorem parent?_foldl_setParent (nodes : List NodeId) (markup : Markup) (other : NodeId) :
    (nodes.foldl (fun markup node => markup.setParent node none) markup).parent? other =
      if other ∈ nodes then none else markup.parent? other := by
  induction nodes generalizing markup with
  | nil => simp
  | cons node rest ih =>
      rw [List.foldl_cons, ih, parent?_setParent_none]
      by_cases hrest : other ∈ rest
      · simp [hrest]
      · by_cases hnode : other = node <;> simp [hrest, hnode]

theorem parent?_takeChildren (id other : NodeId) :
    (markup.takeChildren id).1.parent? other =
      if other ∈ markup.children id then none else markup.parent? other := by
  rw [takeChildren, parent?_foldl_setParent, parent?_setChildren]

theorem parent?_remove (id child other : NodeId) :
    (markup.remove id child).1.parent? other =
      if child ∈ markup.children id ∧ other = child then none else markup.parent? other := by
  rw [remove]
  split
  · next h =>
      have hmem : child ∈ markup.children id := List.contains_iff_mem.mp h
      rw [parent?_setParent_none, parent?_setChildren]
      simp [hmem]
  · next h =>
      have hmem : child ∉ markup.children id := fun hin => h (List.contains_iff_mem.mpr hin)
      simp [hmem]

/-! ## Linked forests -/

/-- Children and parents tell the same, and no node is twice among the children of another. -/
structure Linked (markup : Markup) : Prop where
  nodup : ∀ id, (markup.children id).Nodup
  mem_iff : ∀ id child, child ∈ markup.children id ↔ markup.parent? child = some id

namespace Linked

theorem empty : Linked Arena.empty where
  nodup id := by rw [children_of_le (Nat.zero_le id)]; exact List.nodup_nil
  mem_iff id child := by
    rw [children_of_le (Nat.zero_le id), parent?_of_le (Nat.zero_le child)]
    simp

/-- No node is among the children of two others. -/
theorem parent_unique (h : markup.Linked) (hid : child ∈ markup.children id)
    (hother : child ∈ markup.children other) : id = other := by
  rw [h.mem_iff] at hid hother
  rw [hid] at hother
  exact Option.some.inj hother

theorem lt_size (h : markup.Linked) (hchild : child ∈ markup.children id) : child < markup.size :=
  lt_size_of_parent? ((h.mem_iff id child).mp hchild)

theorem not_mem (h : markup.Linked) (hchild : markup.parent? child = none) (id : NodeId) :
    child ∉ markup.children id := by
  rw [h.mem_iff, hchild]
  simp

/-- Nothing changes for the links when lists and parents stay the same. -/
theorem congr (h : markup.Linked) (hchildren : ∀ id, after.children id = markup.children id)
    (hparent : ∀ id, after.parent? id = markup.parent? id) : after.Linked where
  nodup id := by rw [hchildren]; exact h.nodup id
  mem_iff id child := by rw [hchildren, hparent]; exact h.mem_iff id child

theorem create (h : markup.Linked) (kind : NodeKind) : (markup.create kind).1.Linked :=
  h.congr (children_create kind) (parent?_create kind)

theorem setKind (h : markup.Linked) (id : NodeId) (f : NodeKind → NodeKind) :
    (markup.setKind id f).Linked :=
  h.congr (fun other => children_setKind id other f) (fun other => parent?_setKind id other f)

theorem remove (h : markup.Linked) (id child : NodeId) : (markup.remove id child).1.Linked where
  nodup other := by
    rw [children_remove]
    split
    · exact (h.nodup other).erase child
    · exact h.nodup other
  mem_iff other node := by
    have hchild := h.mem_iff id child
    rw [children_remove, parent?_remove]
    by_cases hid : other = id
    · subst hid
      rw [if_pos rfl, (h.nodup other).mem_erase_iff, h.mem_iff]
      by_cases hnode : node = child
      · subst hnode
        by_cases hmem : node ∈ markup.children other
        · simp [hmem]
        · simp [hmem, ← h.mem_iff]
      · simp [hnode]
    · rw [if_neg hid, h.mem_iff]
      split
      · next hmem =>
          rw [hmem.2, hchild.mp hmem.1]
          simp [Ne.symm hid]
      · rfl

theorem parent?_detach (h : markup.Linked) (id other : NodeId) :
    (markup.detach id).parent? other = if other = id then none else markup.parent? other := by
  rw [Markup.detach]
  split
  · next parent hparent =>
      have hmem : id ∈ markup.children parent := (h.mem_iff parent id).mpr hparent
      rw [parent?_remove]
      simp [hmem]
  · next hnone =>
      split
      · next hother => rw [hother, hnone]
      · rfl

theorem detach (h : markup.Linked) (id : NodeId) : (markup.detach id).Linked := by
  rw [Markup.detach]
  split
  · exact h.remove _ id
  · exact h

/-- A node without a parent is put into a list. -/
theorem put (h : markup.Linked) (hid : id < markup.size) (hchild : child < markup.size)
    (hnone : markup.parent? child = none) {f : List NodeId → List NodeId}
    (hf : ∀ nodes, (f nodes).Perm (child :: nodes)) :
    ((markup.setParent child (some id)).setChildren id f).Linked where
  nodup other := by
    rw [children_setChildren (by rw [size_setParent]; exact hid), children_setParent]
    split
    · exact (hf _).nodup_iff.mpr (List.nodup_cons.mpr ⟨h.not_mem hnone other, h.nodup other⟩)
    · exact h.nodup other
  mem_iff other node := by
    rw [children_setChildren (by rw [size_setParent]; exact hid), children_setParent,
      parent?_setChildren, parent?_setParent hchild]
    have hnot := h.not_mem hnone other
    by_cases hother : other = id
    · subst hother
      rw [if_pos rfl, (hf _).mem_iff, List.mem_cons, h.mem_iff]
      by_cases hnode : node = child <;> simp [hnode]
    · rw [if_neg hother, h.mem_iff]
      split
      · next hnode =>
          rw [hnode, hnone]
          simp [Ne.symm hother]
      · rfl

/-- A node is moved to a place among the children of another. -/
theorem move (h : markup.Linked) (hid : id < markup.size) (hchild : child < markup.size)
    {f : List NodeId → List NodeId} (hf : ∀ nodes, (f nodes).Perm (child :: nodes)) :
    (((markup.detach child).setParent child (some id)).setChildren id f).Linked := by
  refine (h.detach child).put ?_ ?_ ?_ hf
  · rw [size_detach]
    exact hid
  · rw [size_detach]
    exact hchild
  · rw [h.parent?_detach, if_pos rfl]

theorem append (h : markup.Linked) (hid : id < markup.size) (hchild : child < markup.size) :
    (markup.append id child).Linked :=
  h.move hid hchild fun _ => List.perm_append_singleton child _

theorem insertIn_perm (index : Nat) (child : NodeId) (nodes : List NodeId) :
    (insertIn index child nodes).Perm (child :: nodes) := by
  rw [insertIn]
  refine List.perm_middle.trans ?_
  rw [List.take_append_drop]

theorem insert (h : markup.Linked) (hid : id < markup.size) (hchild : child < markup.size)
    (index : Nat) : (markup.insert id index child).Linked :=
  h.move hid hchild (insertIn_perm index child)

theorem takeChildren (h : markup.Linked) (id : NodeId) : (markup.takeChildren id).1.Linked where
  nodup other := by
    rw [children_takeChildren]
    split
    · exact List.nodup_nil
    · exact h.nodup other
  mem_iff other node := by
    rw [children_takeChildren, parent?_takeChildren]
    by_cases hmem : node ∈ markup.children id
    · by_cases hother : other = id
      · simp [hmem, hother]
      · simp only [hother, hmem, if_true, if_false]
        exact iff_of_false (fun hin => hother (h.parent_unique hin hmem)) (by simp)
    · by_cases hother : other = id
      · subst hother
        simp [hmem, ← h.mem_iff]
      · simp [hother, hmem, h.mem_iff]

theorem appendAll (h : markup.Linked) (hid : id < markup.size) {nodes : List NodeId}
    (hnodes : ∀ node ∈ nodes, node < markup.size) : (markup.appendAll id nodes).Linked := by
  induction nodes generalizing markup with
  | nil => exact h
  | cons node rest ih =>
      rw [appendAll_cons]
      refine ih (h.append hid (hnodes node List.mem_cons_self)) ?_ fun other hother => ?_
      · rw [size_append]
        exact hid
      · rw [size_append]
        exact hnodes other (List.mem_cons_of_mem _ hother)

theorem replaceChildren (h : markup.Linked) (hid : id < markup.size) {nodes : List NodeId}
    (hnodes : ∀ node ∈ nodes, node < markup.size) : (markup.replaceChildren id nodes).Linked := by
  refine (h.takeChildren id).appendAll ?_ fun node hnode => ?_
  · rw [size_takeChildren]
    exact hid
  · rw [size_takeChildren]
    exact hnodes node hnode

end Linked

end ReactiveMarkup.Markup
