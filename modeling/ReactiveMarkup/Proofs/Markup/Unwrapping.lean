import ReactiveMarkup.Proofs.Markup.Links
import ReactiveMarkup.Proofs.Markup.Shown

/-!
# Unwrapping

A wrapper is replaced by its children where it stands. In terms of lists of children this is one rule
for all nodes: whoever has the wrapper among its children has the children of the wrapper in its place
afterwards, and the wrapper has none. In terms of plots, `withoutIn` leaves some nodes out and keeps
what is below them, to any depth and however they are nested.

Leaving out some nodes and then others is leaving out all of them at once, and what is left out is
counted in nodes and not in places. So wrappers may be unwrapped in any order.
-/

namespace ReactiveMarkup

namespace Plot

variable {gone later : NodeId → Bool}

mutual

/-- What is left of a plot without some nodes: what was below them stands in their place. -/
def without (gone : NodeId → Bool) : Plot → List Plot
  | .tree id kind children =>
    if gone id then withoutIn gone children else [.tree id kind (withoutIn gone children)]
  | .gap id kind => if gone id then [] else [.gap id kind]

/-- What is left of some plots without some nodes. -/
def withoutIn (gone : NodeId → Bool) : List Plot → List Plot
  | [] => []
  | plot :: rest => without gone plot ++ withoutIn gone rest

end

theorem withoutIn_append (plots more : List Plot) :
    withoutIn gone (plots ++ more) = withoutIn gone plots ++ withoutIn gone more := by
  induction plots with
  | nil => rfl
  | cons plot rest ih => rw [List.cons_append, withoutIn, withoutIn, ih, List.append_assoc]

mutual

/-- The nodes that are left are all the others, in the order they had. -/
theorem idsIn_without : ∀ plot : Plot,
    idsIn (without gone plot) = plot.ids.filter fun id => !gone id
  | .tree id kind children => by
      rw [without, ids, List.filter_cons]
      cases hgone : gone id with
      | true => exact idsIn_withoutIn children
      | false => simp [idsIn, ids, idsIn_withoutIn children]
  | .gap id kind => by
      rw [without, ids]
      cases hgone : gone id <;> simp [idsIn, ids, hgone]

theorem idsIn_withoutIn : ∀ plots : List Plot,
    idsIn (withoutIn gone plots) = (idsIn plots).filter fun id => !gone id
  | [] => rfl
  | plot :: rest => by
      rw [withoutIn, idsIn_append, idsIn_without plot, idsIn_withoutIn rest, idsIn,
        List.filter_append]

end

mutual

/-- Some nodes are left out after others. -/
theorem withoutIn_without : ∀ plot : Plot,
    withoutIn later (without gone plot) = without (fun id => gone id || later id) plot
  | .tree id kind children => by
      have hbelow := withoutIn_withoutIn children
      rw [without, without]
      cases hgone : gone id with
      | true => exact hbelow
      | false =>
          rw [Bool.false_or, if_neg Bool.false_ne_true, withoutIn, without, hbelow, withoutIn,
            List.append_nil]
  | .gap id kind => by
      rw [without, without]
      cases hgone : gone id with
      | true => rfl
      | false =>
          rw [Bool.false_or, if_neg Bool.false_ne_true, withoutIn, without, withoutIn,
            List.append_nil]

theorem withoutIn_withoutIn : ∀ plots : List Plot,
    withoutIn later (withoutIn gone plots) = withoutIn (fun id => gone id || later id) plots
  | [] => rfl
  | plot :: rest => by
      rw [withoutIn, withoutIn_append, withoutIn_without plot, withoutIn_withoutIn rest, withoutIn]

end

mutual

theorem IsWhole.without : ∀ {plot : Plot}, plot.IsWhole → AreWhole (without gone plot)
  | .tree id kind children, h => by
      have hbelow : AreWhole (withoutIn gone children) := AreWhole.withoutIn h
      rw [Plot.without]
      split
      · exact hbelow
      · exact ⟨hbelow, trivial⟩

theorem AreWhole.withoutIn : ∀ {plots : List Plot}, AreWhole plots →
    AreWhole (withoutIn gone plots)
  | [], _ => trivial
  | _ :: _, h => by
      rw [Plot.withoutIn]
      exact AreWhole.append (IsWhole.without h.1) (AreWhole.withoutIn h.2)

end

mutual

/-- Without nodes it does not have a plot is what it was. -/
theorem without_eq_self : ∀ plot : Plot, (∀ id ∈ plot.ids, gone id = false) →
    without gone plot = [plot]
  | .tree id kind children, h => by
      rw [without, if_neg (Bool.eq_false_iff.mp (h id List.mem_cons_self)),
        withoutIn_eq_self children fun other hother => h other (List.mem_cons_of_mem _ hother)]
  | .gap id kind, h => by
      rw [without, if_neg (Bool.eq_false_iff.mp (h id List.mem_cons_self))]

theorem withoutIn_eq_self : ∀ plots : List Plot, (∀ id ∈ idsIn plots, gone id = false) →
    withoutIn gone plots = plots
  | [], _ => rfl
  | plot :: rest, h => by
      rw [withoutIn, without_eq_self plot fun id hid => h id (List.mem_append_left _ hid),
        withoutIn_eq_self rest fun id hid => h id (List.mem_append_right _ hid)]
      rfl

end

/-- Tops that are not left out stay tops. -/
theorem roots_withoutIn {plots : List Plot} (h : ∀ plot ∈ plots, gone plot.root = false) :
    (withoutIn gone plots).map root = plots.map root := by
  induction plots with
  | nil => rfl
  | cons plot rest ih =>
    have htop : (without gone plot).map root = [plot.root] := by
      cases plot with
      | tree id kind children =>
        have hid : gone id = false := h _ List.mem_cons_self
        rw [without, if_neg (Bool.eq_false_iff.mp hid)]
        rfl
      | gap id kind =>
        have hid : gone id = false := h _ List.mem_cons_self
        rw [without, if_neg (Bool.eq_false_iff.mp hid)]
        rfl
    have hrest := ih fun other hother => h other (List.mem_cons_of_mem _ hother)
    rw [withoutIn, List.map_append, htop, hrest]
    rfl

end Plot

namespace Markup

variable {markup : Markup} {parent wrapper : NodeId}

/-- One node is put among the children of another; the number is its index. -/
def insertNext (parent : NodeId) (state : Markup × Nat) (child : NodeId) : Markup × Nat :=
  (state.1.insert parent state.2 child, state.2 + 1)

theorem unwrap_eq (markup : Markup) (parent wrapper : NodeId) :
    markup.unwrap parent wrapper = ((markup.children wrapper).foldl (insertNext parent)
      (((markup.takeChildren wrapper).1.remove parent wrapper).1,
        (markup.children parent).idxOf wrapper)).1 := rfl

theorem parent?_insert_of_ne {id index child other : NodeId} (hchild : child < markup.size)
    (hnone : markup.parent? child = none) (hne : other ≠ child) :
    (markup.insert id index child).parent? other = markup.parent? other := by
  rw [insert, detach_of_no_parent hnone, parent?_setChildren, parent?_setParent hchild, if_neg hne]

/-- Nodes without parents are put next to each other among the children of a node. -/
theorem children_insertAll {nodes before after : List NodeId} (hparent : parent < markup.size)
    (hchildren : markup.children parent = before ++ after) (hnodup : nodes.Nodup)
    (hnodes : ∀ node ∈ nodes, node < markup.size ∧ markup.parent? node = none) (id : NodeId) :
    (nodes.foldl (insertNext parent) (markup, before.length)).1.children id =
      if id = parent then before ++ nodes ++ after else markup.children id := by
  induction nodes generalizing markup before with
  | nil =>
    split
    · next hid => rw [hid, List.append_nil, ← hchildren]; rfl
    · rfl
  | cons node rest ih =>
    obtain ⟨hnew, hrest⟩ := List.nodup_cons.mp hnodup
    obtain ⟨hlt, hnone⟩ := hnodes node (List.mem_cons_self ..)
    have hinserted : ∀ other, (markup.insert parent before.length node).children other =
        if other = parent then insertIn before.length node (markup.children other)
        else markup.children other := fun other => children_insert hparent hnone
    have hput : (markup.insert parent before.length node).children parent
        = (before ++ [node]) ++ after := by
      rw [hinserted, if_pos rfl, hchildren, insertIn, List.take_left, List.drop_left,
        List.append_assoc]
      rfl
    have hothers : ∀ other ∈ rest, other < (markup.insert parent before.length node).size ∧
        (markup.insert parent before.length node).parent? other = none := by
      intro other hother
      obtain ⟨hotherLt, hotherNone⟩ := hnodes other (List.mem_cons_of_mem _ hother)
      have hne : other ≠ node := fun hsame => hnew (hsame ▸ hother)
      exact ⟨by rwa [size_insert], by rwa [parent?_insert_of_ne hlt hnone hne]⟩
    have hlength : before.length + 1 = (before ++ [node]).length := by
      rw [List.length_append, List.length_singleton]
    rw [List.foldl_cons, insertNext, hlength, ih (by rwa [size_insert]) hput hrest hothers,
      List.append_assoc before, List.singleton_append]
    split
    · rfl
    · next hid => rw [hinserted, if_neg hid]

theorem size_insertAll (nodes : List NodeId) (state : Markup × Nat) :
    (nodes.foldl (insertNext parent) state).1.size = state.1.size := by
  induction nodes generalizing state with
  | nil => rfl
  | cons node rest ih => rw [List.foldl_cons, ih, insertNext, size_insert]

theorem kind_insertAll (nodes : List NodeId) (state : Markup × Nat) (id : NodeId) :
    (nodes.foldl (insertNext parent) state).1.kind id = state.1.kind id := by
  induction nodes generalizing state with
  | nil => rfl
  | cons node rest ih => rw [List.foldl_cons, ih, insertNext, kind_insert]

theorem Linked.insertAll {nodes : List NodeId} {state : Markup × Nat} (h : state.1.Linked)
    (hparent : parent < state.1.size) (hnodes : ∀ node ∈ nodes, node < state.1.size) :
    (nodes.foldl (insertNext parent) state).1.Linked := by
  induction nodes generalizing state with
  | nil => exact h
  | cons node rest ih =>
    refine ih (h.insert hparent (hnodes node (List.mem_cons_self ..)) state.2) ?_ fun other hother => ?_
    · rwa [insertNext, size_insert]
    · rw [insertNext, size_insert]
      exact hnodes other (List.mem_cons_of_mem _ hother)

@[simp] theorem size_unwrap (markup : Markup) (parent wrapper : NodeId) :
    (markup.unwrap parent wrapper).size = markup.size := by
  rw [unwrap_eq, size_insertAll, size_remove, size_takeChildren]

@[simp] theorem kind_unwrap (markup : Markup) (parent wrapper id : NodeId) :
    (markup.unwrap parent wrapper).kind id = markup.kind id := by
  rw [unwrap_eq, kind_insertAll, kind_remove, kind_takeChildren]

theorem Linked.unwrap (h : markup.Linked) (hparent : markup.parent? wrapper = some parent) :
    (markup.unwrap parent wrapper).Linked := by
  have hin : wrapper ∈ markup.children parent := (h.mem_iff parent wrapper).mpr hparent
  rw [unwrap_eq]
  refine ((h.takeChildren wrapper).remove parent wrapper).insertAll ?_ fun child hchild => ?_
  · rw [size_remove, size_takeChildren]
    exact lt_size_of_mem_children hin
  · rw [size_remove, size_takeChildren]
    exact h.lt_size hchild

/-- A list of children in which a wrapper is replaced by its children. -/
def unwrapIn (markup : Markup) (wrapper : NodeId) (nodes : List NodeId) : List NodeId :=
  nodes.flatMap fun node => if node = wrapper then markup.children wrapper else [node]

theorem unwrapIn_append (markup : Markup) (wrapper : NodeId) (nodes more : List NodeId) :
    markup.unwrapIn wrapper (nodes ++ more)
      = markup.unwrapIn wrapper nodes ++ markup.unwrapIn wrapper more := List.flatMap_append

theorem unwrapIn_of_not_mem {nodes : List NodeId} (h : wrapper ∉ nodes) :
    markup.unwrapIn wrapper nodes = nodes := by
  induction nodes with
  | nil => rfl
  | cons node rest ih =>
    simp only [List.mem_cons, not_or] at h
    rw [unwrapIn, List.flatMap_cons, if_neg (Ne.symm h.1), ← unwrapIn, ih h.2]
    rfl

/-- Everyone who has the wrapper among its children has the children of the wrapper instead. -/
theorem children_unwrap (h : markup.Linked) (hparent : markup.parent? wrapper = some parent)
    (hne : parent ≠ wrapper) (id : NodeId) :
    (markup.unwrap parent wrapper).children id =
      if id = wrapper then [] else markup.unwrapIn wrapper (markup.children id) := by
  have hin : wrapper ∈ markup.children parent := (h.mem_iff parent wrapper).mpr hparent
  obtain ⟨before, after, hchildren⟩ := List.append_of_mem hin
  have hnodup := h.nodup parent
  rw [hchildren, List.nodup_append, List.nodup_cons] at hnodup
  have hbefore : wrapper ∉ before := fun hmem =>
    hnodup.2.2 wrapper hmem wrapper (List.mem_cons_self ..) rfl
  have hafter : wrapper ∉ after := hnodup.2.1.1
  have hindex : (markup.children parent).idxOf wrapper = before.length := by
    rw [hchildren, List.idxOf_append_of_notMem hbefore, List.idxOf_cons_self, Nat.add_zero]
  have htaken : ∀ other, (((markup.takeChildren wrapper).1.remove parent wrapper).1).children other =
      if other = parent then before ++ after
      else if other = wrapper then [] else markup.children other := by
    intro other
    rw [children_remove, children_takeChildren]
    split
    · next hother =>
        rw [hother, if_neg hne, hchildren, List.erase_append_right _ hbefore, List.erase_cons_head]
    · rfl
  have hfree : ∀ child ∈ markup.children wrapper,
      child < ((markup.takeChildren wrapper).1.remove parent wrapper).1.size ∧
        ((markup.takeChildren wrapper).1.remove parent wrapper).1.parent? child = none := by
    intro child hchild
    rw [size_remove, size_takeChildren, parent?_remove, parent?_takeChildren, if_pos hchild, ite_self]
    exact ⟨h.lt_size hchild, rfl⟩
  rw [unwrap_eq, hindex, @children_insertAll _ _ _ before after ?_ ?_ (h.nodup wrapper) hfree, htaken]
  · by_cases hid : id = parent
    · have hself : markup.unwrapIn wrapper [wrapper] = markup.children wrapper := by
        simp [unwrapIn]
      rw [if_pos hid, hid, if_neg hne, hchildren, unwrapIn_append, unwrapIn_of_not_mem hbefore,
        ← List.singleton_append, unwrapIn_append, hself, unwrapIn_of_not_mem hafter, List.append_assoc]
    · have hout : wrapper ∉ markup.children id := fun hmem => hid (h.parent_unique hmem hin)
      rw [if_neg hid, if_neg hid, unwrapIn_of_not_mem hout]
  · rw [size_remove, size_takeChildren]
    exact lt_size_of_mem_children hin
  · rw [htaken, if_pos rfl]

end Markup

namespace Plot

variable {markup changed : Markup} {wrapper : NodeId}

mutual

theorem IsWhole.told_eq : ∀ {plot : Plot}, plot.IsWhole → plot.told = plot.ids
  | .tree id kind children, h => by rw [told, ids, @AreWhole.told_eq children h]

theorem AreWhole.told_eq : ∀ {plots : List Plot}, AreWhole plots → toldIn plots = idsIn plots
  | [], _ => rfl
  | _ :: _, h => by rw [toldIn, idsIn, IsWhole.told_eq h.1, AreWhole.told_eq h.2]

end

/-- A whole plot tells what comes in the place of its top if that is the wrapper. -/
theorem roots_without {plot : Plot} (hself : wrapper ∉ markup.children wrapper)
    (h : Stands markup plot) (hwhole : plot.IsWhole) :
    (without (· == wrapper) plot).map root = markup.unwrapIn wrapper [plot.root] := by
  cases plot with
  | gap id kind => exact hwhole.elim
  | tree id kind children =>
    rw [without, Markup.unwrapIn, List.flatMap_singleton, root]
    by_cases hid : id = wrapper
    · subst hid
      have hbelow : ∀ plot ∈ children, (plot.root == id) = false := by
        intro plot hplot
        refine beq_false_of_ne fun hsame => hself ?_
        rw [h.2.2.1, ← hsame]
        exact List.mem_map_of_mem hplot
      rw [if_pos rfl, if_pos (beq_self_eq_true id), roots_withoutIn hbelow, h.2.2.1]
    · rw [if_neg hid, if_neg (by simpa using hid)]
      rfl

theorem roots_withoutIn_unwrapIn {plots : List Plot} (hself : wrapper ∉ markup.children wrapper)
    (h : StandAll markup plots) (hwhole : AreWhole plots) :
    (withoutIn (· == wrapper) plots).map root = markup.unwrapIn wrapper (plots.map root) := by
  induction plots with
  | nil => rfl
  | cons plot rest ih =>
    have hsplit : (plot :: rest).map root = [plot.root] ++ rest.map root := rfl
    rw [withoutIn, List.map_append, roots_without hself h.1 hwhole.1, ih h.2 hwhole.2, hsplit,
      Markup.unwrapIn_append]

mutual

/-- A plot stands without the wrapper, where all but the wrapper have what comes in its place. -/
theorem Stands.unwrapped (hself : wrapper ∉ markup.children wrapper)
    (hsize : changed.size = markup.size) (hkind : ∀ id, changed.kind id = markup.kind id)
    (hchildren : ∀ id, id ≠ wrapper →
      changed.children id = markup.unwrapIn wrapper (markup.children id)) :
    ∀ {plot : Plot}, Stands markup plot → plot.IsWhole →
      StandAll changed (without (· == wrapper) plot)
  | .tree id kind children, h, hwhole => by
      have hbelow := StandAll.unwrapped hself hsize hkind hchildren h.2.2.2 hwhole
      rw [without]
      split
      · exact hbelow
      · next hid =>
          have hne : id ≠ wrapper := by simpa using hid
          refine ⟨⟨hsize ▸ h.1, (hkind id).trans h.2.1, ?_, hbelow⟩, trivial⟩
          rw [hchildren id hne, h.2.2.1, roots_withoutIn_unwrapIn hself h.2.2.2 hwhole]

theorem StandAll.unwrapped (hself : wrapper ∉ markup.children wrapper)
    (hsize : changed.size = markup.size) (hkind : ∀ id, changed.kind id = markup.kind id)
    (hchildren : ∀ id, id ≠ wrapper →
      changed.children id = markup.unwrapIn wrapper (markup.children id)) :
    ∀ {plots : List Plot}, StandAll markup plots → AreWhole plots →
      StandAll changed (withoutIn (· == wrapper) plots)
  | [], _, _ => trivial
  | _ :: _, h, hwhole => by
      rw [withoutIn]
      exact standAll_append.mpr ⟨Stands.unwrapped hself hsize hkind hchildren h.1 hwhole.1,
        StandAll.unwrapped hself hsize hkind hchildren h.2 hwhole.2⟩

end

mutual

/-- Nobody in a plot without repetition is its own child. -/
theorem Stands.not_mem_children_self : ∀ {plot : Plot}, Stands markup plot → plot.ids.Nodup →
    ∀ id ∈ plot.told, id ∉ markup.children id
  | .tree top kind children, h, hnodup, id, hid => by
      obtain ⟨htop, hbelow⟩ := List.nodup_cons.mp hnodup
      rcases List.mem_cons.mp hid with rfl | hid
      · rw [h.2.2.1]
        exact fun hmem => htop (roots_subset_idsIn children hmem)
      · exact StandAll.not_mem_children_self h.2.2.2 hbelow id hid

theorem StandAll.not_mem_children_self : ∀ {plots : List Plot}, StandAll markup plots →
    (idsIn plots).Nodup → ∀ id ∈ toldIn plots, id ∉ markup.children id
  | _ :: _, h, hnodup, id, hid => by
      rw [idsIn, List.nodup_append] at hnodup
      rcases List.mem_append.mp hid with hid | hid
      · exact Stands.not_mem_children_self h.1 hnodup.1 id hid
      · exact StandAll.not_mem_children_self h.2 hnodup.2.1 id hid

end

end Plot

namespace Markup.Linked

variable {markup : Markup} {parent wrapper : NodeId}

theorem not_mem_children_self (h : markup.Linked) (hparent : markup.parent? wrapper = some parent)
    (hne : parent ≠ wrapper) : wrapper ∉ markup.children wrapper := by
  rw [h.mem_iff, hparent]
  exact fun hsame => hne (Option.some.inj hsame)

/-- After a wrapper is unwrapped, it has no parent, and neither has any node that had none. -/
theorem parent?_unwrap_eq_none (h : markup.Linked) (hparent : markup.parent? wrapper = some parent)
    (hne : parent ≠ wrapper) {id : NodeId} (hid : id = wrapper ∨ markup.parent? id = none) :
    (markup.unwrap parent wrapper).parent? id = none := by
  have hout : ∀ above, id ∉ (markup.unwrap parent wrapper).children above := by
    intro above
    rw [children_unwrap h hparent hne]
    split
    · exact List.not_mem_nil
    · rw [unwrapIn, List.mem_flatMap]
      rintro ⟨node, hnode, hin⟩
      rcases hid with rfl | hnone
      · split at hin
        · exact h.not_mem_children_self hparent hne hin
        · next hother => exact hother (List.mem_singleton.mp hin).symm
      · split at hin
        · exact h.not_mem hnone wrapper hin
        · exact h.not_mem hnone above (List.mem_singleton.mp hin ▸ hnode)
  cases hafter : (markup.unwrap parent wrapper).parent? id with
  | none => rfl
  | some above => exact absurd (((h.unwrap hparent).mem_iff above id).mpr hafter) (hout above)

end Markup.Linked

namespace Garden

open Plot

variable {markup : Markup} {plots : List Plot} {parent wrapper : NodeId}

/-- What is below a node of whole trees is in the trees. -/
theorem children_subset (h : Garden markup plots) (hwhole : AreWhole plots) {id : NodeId}
    (hid : id ∈ idsIn plots) : markup.children id ⊆ idsIn plots :=
  h.stands.children_subset id (hwhole.told_eq ▸ hid)

theorem parent_ne (h : Garden markup plots) (hwhole : AreWhole plots) (hlinked : markup.Linked)
    (hin : wrapper ∈ idsIn plots) (hparent : markup.parent? wrapper = some parent) :
    parent ≠ wrapper := by
  rintro rfl
  exact h.stands.not_mem_children_self h.apart parent (hwhole.told_eq ▸ hin)
    ((hlinked.mem_iff parent parent).mpr hparent)

/-- Unwrapping leaves the wrapper out of the trees. -/
theorem unwrap (h : Garden markup plots) (hwhole : AreWhole plots) (hlinked : markup.Linked)
    (hin : wrapper ∈ idsIn plots) (hparent : markup.parent? wrapper = some parent) :
    Garden (markup.unwrap parent wrapper) (withoutIn (· == wrapper) plots) := by
  have hne := h.parent_ne hwhole hlinked hin hparent
  constructor
  case stands =>
    refine h.stands.unwrapped (hlinked.not_mem_children_self hparent hne) (Markup.size_unwrap ..)
      (Markup.kind_unwrap markup parent wrapper) (fun id hid => ?_) hwhole
    rw [Markup.children_unwrap hlinked hparent hne, if_neg hid]
  case apart =>
    rw [idsIn_withoutIn]
    exact h.apart.filter _

end Garden

end ReactiveMarkup
