import ReactiveMarkup.Markup.Basic

/-!
# What the changes of a forest do

Every operation on a forest is read here as its effect on three things: how many nodes there are,
what each of them is, and which children it has. The parents are left out on purpose. They decide
nothing but which list of children a node is taken from when it is put elsewhere, so all that is
ever needed about them is that taking a node away changes no list it is not in.

The lemmas are stated for all nodes at once, with the changed node singled out by an `if`. Nodes that
were never made have no children, so most of them need no bound.
-/

namespace ReactiveMarkup.Markup

variable {markup : Markup}

/-! ## Nodes that are not there -/

theorem get?_eq_none_of_le {id : NodeId} (h : markup.size ≤ id) : markup.get? id = none :=
  Array.getElem?_eq_none h

theorem get?_isSome_of_lt {id : NodeId} (h : id < markup.size) :
    ∃ node, markup.get? id = some node :=
  ⟨markup.cells[id], Array.getElem?_eq_getElem h⟩

theorem children_of_le {id : NodeId} (h : markup.size ≤ id) : markup.children id = [] := by
  rw [children, get?_eq_none_of_le h]

theorem lt_size_of_mem_children {id child : NodeId} (h : child ∈ markup.children id) :
    id < markup.size := by
  rcases Nat.lt_or_ge id markup.size with hlt | hge
  · exact hlt
  · rw [children_of_le hge] at h
    cases h

/-! ## Single cells -/

theorem kind_eq (id : NodeId) :
    markup.kind id = ((markup.get? id).map Node.kind).getD (.text "") := by
  rw [Markup.kind]
  cases markup.get? id <;> rfl

theorem children_eq (id : NodeId) :
    markup.children id = ((markup.get? id).map Node.children).getD [] := by
  rw [children]
  cases markup.get? id <;> rfl

/-- A part of a cell after a change of one cell. Nodes that are not there keep `default`. -/
theorem part_modify {α : Type} (part : Node → α) (default : α) (id other : NodeId)
    (f : Node → Node) :
    ((Arena.get? (markup.modify id f) other).map part).getD default =
      if other = id ∧ id < markup.size then
        ((markup.get? other).map fun node => part (f node)).getD default
      else ((markup.get? other).map part).getD default := by
  rw [Arena.get?_modify]
  by_cases h : id = other
  · subst h
    rw [if_pos rfl]
    split
    · cases markup.get? id <;> rfl
    · next hout =>
        rw [get?_eq_none_of_le (Nat.not_lt.mp fun hlt => hout ⟨rfl, hlt⟩)]
        rfl
  · rw [if_neg h]
    split
    · next hin => exact absurd hin.1.symm h
    · rfl

@[simp] theorem size_create (kind : NodeKind) : (markup.create kind).1.size = markup.size + 1 := by
  rw [create, Arena.size_push]

@[simp] theorem create_snd (kind : NodeKind) : (markup.create kind).2 = markup.size := rfl

theorem kind_create (kind : NodeKind) (id : NodeId) :
    (markup.create kind).1.kind id = if id = markup.size then kind else markup.kind id := by
  rw [create, kind_eq, kind_eq, Arena.get?_push]
  split <;> rfl

@[simp] theorem children_create (kind : NodeKind) (id : NodeId) :
    (markup.create kind).1.children id = markup.children id := by
  rw [create, children_eq, children_eq, Arena.get?_push]
  split
  · next h =>
      rw [get?_eq_none_of_le (Nat.le_of_eq h.symm)]
      rfl
  · rfl

@[simp] theorem size_setKind (id : NodeId) (f : NodeKind → NodeKind) :
    (markup.setKind id f).size = markup.size := Arena.size_modify ..

theorem kind_setKind {id other : NodeId} {f : NodeKind → NodeKind} (hid : id < markup.size) :
    (markup.setKind id f).kind other =
      if other = id then f (markup.kind other) else markup.kind other := by
  rw [setKind, kind_eq, part_modify, kind_eq]
  by_cases h : other = id
  · subst h
    obtain ⟨node, hnode⟩ := get?_isSome_of_lt hid
    rw [if_pos ⟨rfl, hid⟩, if_pos rfl, hnode]
    rfl
  · rw [if_neg h, if_neg fun hc => h hc.1]

theorem kind_setKind_of_ne {id other : NodeId} {f : NodeKind → NodeKind} (h : other ≠ id) :
    (markup.setKind id f).kind other = markup.kind other := by
  rw [setKind, kind_eq, part_modify, if_neg fun hc => h hc.1, ← kind_eq]

@[simp] theorem children_setKind (id other : NodeId) (f : NodeKind → NodeKind) :
    (markup.setKind id f).children other = markup.children other := by
  rw [setKind, children_eq, part_modify, ite_self, ← children_eq]

@[simp] theorem size_setParent (id : NodeId) (parent : Option NodeId) :
    (markup.setParent id parent).size = markup.size := Arena.size_modify ..

@[simp] theorem kind_setParent (id other : NodeId) (parent : Option NodeId) :
    (markup.setParent id parent).kind other = markup.kind other := by
  rw [setParent, kind_eq, part_modify, ite_self, ← kind_eq]

@[simp] theorem children_setParent (id other : NodeId) (parent : Option NodeId) :
    (markup.setParent id parent).children other = markup.children other := by
  rw [setParent, children_eq, part_modify, ite_self, ← children_eq]

@[simp] theorem size_setChildren (id : NodeId) (f : List NodeId → List NodeId) :
    (markup.setChildren id f).size = markup.size := Arena.size_modify ..

@[simp] theorem kind_setChildren (id other : NodeId) (f : List NodeId → List NodeId) :
    (markup.setChildren id f).kind other = markup.kind other := by
  rw [setChildren, kind_eq, part_modify, ite_self, ← kind_eq]

theorem children_setChildren {id other : NodeId} {f : List NodeId → List NodeId}
    (hid : id < markup.size) :
    (markup.setChildren id f).children other =
      if other = id then f (markup.children other) else markup.children other := by
  rw [setChildren, children_eq, part_modify, children_eq]
  by_cases h : other = id
  · subst h
    obtain ⟨node, hnode⟩ := get?_isSome_of_lt hid
    rw [if_pos ⟨rfl, hid⟩, if_pos rfl, hnode]
    rfl
  · rw [if_neg h, if_neg fun hc => h hc.1]

theorem children_setChildren_of_ne {id other : NodeId} {f : List NodeId → List NodeId}
    (h : other ≠ id) : (markup.setChildren id f).children other = markup.children other := by
  rw [setChildren, children_eq, part_modify, if_neg fun hc => h hc.1, ← children_eq]

/-! ## Taking nodes away -/

@[simp] theorem size_remove (id child : NodeId) : (markup.remove id child).1.size = markup.size := by
  rw [remove]
  split
  · rw [size_setParent, size_setChildren]
  · rfl

@[simp] theorem kind_remove (id child other : NodeId) :
    (markup.remove id child).1.kind other = markup.kind other := by
  rw [remove]
  split
  · rw [kind_setParent, kind_setChildren]
  · rfl

theorem children_remove (id child other : NodeId) :
    (markup.remove id child).1.children other =
      if other = id then (markup.children other).erase child else markup.children other := by
  rw [remove]
  split
  · next h =>
      have hmem : child ∈ markup.children id := List.contains_iff_mem.mp h
      rw [children_setParent, children_setChildren (lt_size_of_mem_children hmem)]
  · next h =>
      split
      · next ho =>
          subst ho
          exact (List.erase_of_not_mem fun hmem => h (List.contains_iff_mem.mpr hmem)).symm
      · rfl

@[simp] theorem size_detach (id : NodeId) : (markup.detach id).size = markup.size := by
  rw [detach]
  split
  · rw [size_remove]
  · rfl

@[simp] theorem kind_detach (id other : NodeId) :
    (markup.detach id).kind other = markup.kind other := by
  rw [detach]
  split
  · rw [kind_remove]
  · rfl

theorem children_detach (id other : NodeId) :
    (markup.detach id).children other =
      if markup.parent? id = some other then (markup.children other).erase id
      else markup.children other := by
  rw [detach]
  split
  · next parent h =>
      rw [children_remove, h]
      by_cases ho : other = parent
      · rw [if_pos ho, if_pos (by rw [ho])]
      · rw [if_neg ho, if_neg (fun hc => ho (Option.some.inj hc).symm)]
  · next h => rw [h, if_neg (by simp)]

/-- A list that a node is not in stays as it is when the node is taken from where it was. -/
theorem children_detach_of_not_mem {id other : NodeId} (h : id ∉ markup.children other) :
    (markup.detach id).children other = markup.children other := by
  rw [children_detach]
  split
  · exact List.erase_of_not_mem h
  · rfl

theorem children_detach_sublist (id other : NodeId) :
    ((markup.detach id).children other).Sublist (markup.children other) := by
  rw [children_detach]
  split
  · exact List.erase_sublist
  · exact List.Sublist.refl _

@[simp] theorem takeChildren_snd (id : NodeId) :
    (markup.takeChildren id).2 = markup.children id := rfl

/-- Forgetting the parents of some nodes changes nothing that counts. -/
theorem foldl_setParent (nodes : List NodeId) (parent : Option NodeId) (markup : Markup) :
    (nodes.foldl (fun markup node => markup.setParent node parent) markup).size = markup.size ∧
    ∀ other, (nodes.foldl (fun markup node => markup.setParent node parent) markup).kind other =
        markup.kind other ∧
      (nodes.foldl (fun markup node => markup.setParent node parent) markup).children other =
        markup.children other := by
  induction nodes generalizing markup with
  | nil => exact ⟨rfl, fun _ => ⟨rfl, rfl⟩⟩
  | cons node rest ih =>
      obtain ⟨hsize, hsame⟩ := ih (markup.setParent node parent)
      refine ⟨by rw [List.foldl_cons, hsize, size_setParent], fun other => ?_⟩
      rw [List.foldl_cons, (hsame other).1, (hsame other).2, kind_setParent, children_setParent]
      exact ⟨rfl, rfl⟩

@[simp] theorem size_takeChildren (id : NodeId) :
    (markup.takeChildren id).1.size = markup.size := by
  rw [takeChildren, (foldl_setParent _ none _).1, size_setChildren]

@[simp] theorem kind_takeChildren (id other : NodeId) :
    (markup.takeChildren id).1.kind other = markup.kind other := by
  rw [takeChildren, ((foldl_setParent _ none _).2 other).1, kind_setChildren]

theorem children_takeChildren (id other : NodeId) :
    (markup.takeChildren id).1.children other =
      if other = id then [] else markup.children other := by
  rw [takeChildren, ((foldl_setParent _ none _).2 other).2]
  rcases Nat.lt_or_ge id markup.size with hlt | hge
  · rw [children_setChildren hlt]
  · split
    · next ho => rw [ho, children_of_le (by rw [size_setChildren]; exact hge)]
    · next ho => rw [children_setChildren_of_ne ho]

/-! ## Putting nodes somewhere -/

@[simp] theorem size_append (id child : NodeId) : (markup.append id child).size = markup.size := by
  rw [append, size_setChildren, size_setParent, size_detach]

@[simp] theorem kind_append (id child other : NodeId) :
    (markup.append id child).kind other = markup.kind other := by
  rw [append, kind_setChildren, kind_setParent, kind_detach]

theorem children_append_self {id child : NodeId} (hid : id < markup.size)
    (h : child ∉ markup.children id) :
    (markup.append id child).children id = markup.children id ++ [child] := by
  rw [append, children_setChildren (by rw [size_setParent, size_detach]; exact hid), if_pos rfl,
    children_setParent, children_detach_of_not_mem h]

theorem children_append_of_ne {id child other : NodeId} (hne : other ≠ id)
    (h : child ∉ markup.children other) :
    (markup.append id child).children other = markup.children other := by
  rw [append, children_setChildren_of_ne hne, children_setParent, children_detach_of_not_mem h]

@[simp] theorem size_appendAll (id : NodeId) (nodes : List NodeId) :
    (markup.appendAll id nodes).size = markup.size := by
  induction nodes generalizing markup with
  | nil => rfl
  | cons node rest ih =>
      rw [appendAll, List.foldl_cons]
      exact ih.trans (size_append id node)

@[simp] theorem kind_appendAll (id other : NodeId) (nodes : List NodeId) :
    (markup.appendAll id nodes).kind other = markup.kind other := by
  induction nodes generalizing markup with
  | nil => rfl
  | cons node rest ih =>
      rw [appendAll, List.foldl_cons]
      exact ih.trans (kind_append id node other)

theorem appendAll_cons (id node : NodeId) (rest : List NodeId) :
    markup.appendAll id (node :: rest) = (markup.append id node).appendAll id rest := rfl

/-- Nodes that are all different and not yet below a node come to stand behind its children. -/
theorem children_appendAll_self {id : NodeId} {nodes : List NodeId} (hid : id < markup.size)
    (hnodup : nodes.Nodup) (h : ∀ node ∈ nodes, node ∉ markup.children id) :
    (markup.appendAll id nodes).children id = markup.children id ++ nodes := by
  induction nodes generalizing markup with
  | nil => simp [appendAll]
  | cons node rest ih =>
      obtain ⟨hnew, hrest⟩ := List.nodup_cons.mp hnodup
      have hself := children_append_self hid (h node (by simp))
      rw [appendAll_cons, ih (by rw [size_append]; exact hid) hrest, hself]
      · simp
      · intro other hother
        rw [hself, List.mem_append, List.mem_singleton]
        rintro (hold | rfl)
        · exact h other (by simp [hother]) hold
        · exact hnew hother

/-- Lists that none of the nodes is in stay as they are. -/
theorem children_appendAll_of_ne {id other : NodeId} {nodes : List NodeId} (hne : other ≠ id)
    (h : ∀ node ∈ nodes, node ∉ markup.children other) :
    (markup.appendAll id nodes).children other = markup.children other := by
  induction nodes generalizing markup with
  | nil => rfl
  | cons node rest ih =>
      have hsame := children_append_of_ne hne (h node (by simp))
      rw [appendAll_cons, ih, hsame]
      intro next hnext
      rw [hsame]
      exact h next (by simp [hnext])

theorem parent?_create_self (kind : NodeKind) : (markup.create kind).1.parent? markup.size = none := by
  rw [create, parent?, Arena.get?_push, if_pos rfl]
  rfl

theorem detach_of_no_parent {id : NodeId} (h : markup.parent? id = none) :
    markup.detach id = markup := by
  rw [detach, h]

@[simp] theorem size_insert (id child : NodeId) (index : Nat) :
    (markup.insert id index child).size = markup.size := by
  rw [insert, size_setChildren, size_setParent, size_detach]

@[simp] theorem kind_insert (id child other : NodeId) (index : Nat) :
    (markup.insert id index child).kind other = markup.kind other := by
  rw [insert, kind_setChildren, kind_setParent, kind_detach]

theorem children_insert {id child other : NodeId} {index : Nat} (hid : id < markup.size)
    (h : markup.parent? child = none) :
    (markup.insert id index child).children other =
      if other = id then insertIn index child (markup.children other)
      else markup.children other := by
  rw [insert, detach_of_no_parent h, children_setChildren (by rw [size_setParent]; exact hid),
    children_setParent]

theorem children_insert_of_ne {id child other : NodeId} {index : Nat} (hne : other ≠ id)
    (h : child ∉ markup.children other) :
    (markup.insert id index child).children other = markup.children other := by
  rw [insert, children_setChildren_of_ne hne, children_setParent, children_detach_of_not_mem h]

@[simp] theorem size_replaceChildren (id : NodeId) (nodes : List NodeId) :
    (markup.replaceChildren id nodes).size = markup.size := by
  rw [replaceChildren, size_appendAll, size_takeChildren]

@[simp] theorem kind_replaceChildren (id other : NodeId) (nodes : List NodeId) :
    (markup.replaceChildren id nodes).kind other = markup.kind other := by
  rw [replaceChildren, kind_appendAll, kind_takeChildren]

theorem children_replaceChildren_self {id : NodeId} {nodes : List NodeId} (hid : id < markup.size)
    (hnodup : nodes.Nodup) : (markup.replaceChildren id nodes).children id = nodes := by
  have hnone : (markup.takeChildren id).1.children id = [] := by
    rw [children_takeChildren, if_pos rfl]
  rw [replaceChildren, children_appendAll_self (by rw [size_takeChildren]; exact hid) hnodup
    (fun _ _ => by rw [hnone]; exact List.not_mem_nil), hnone, List.nil_append]

theorem children_replaceChildren_of_ne {id other : NodeId} {nodes : List NodeId} (hne : other ≠ id)
    (h : ∀ node ∈ nodes, node ∉ markup.children other) :
    (markup.replaceChildren id nodes).children other = markup.children other := by
  have hsame : (markup.takeChildren id).1.children other = markup.children other := by
    rw [children_takeChildren, if_neg hne]
  rw [replaceChildren, children_appendAll_of_ne hne (fun node hnode => by rw [hsame]; exact h node hnode),
    hsame]

end ReactiveMarkup.Markup
