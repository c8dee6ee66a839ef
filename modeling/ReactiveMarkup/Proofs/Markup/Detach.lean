import ReactiveMarkup.Proofs.Markup.Copies

/-!
# Taking templates out

A template is taken out of its element in two steps: the element loses its children, and the marks in
them become child anchors. Both are read here as what they do to the plot of the element: the templates
that come out are whole plots of their own, and nobody else's list of children changes, told or not.

What comes out is `Prepared`: a mark, wherever it stands, has become a new anchor with nothing in it, and
every other node is the node it was, in its place. The children of a node are gone over by their index while
the list is edited; that stays right because a mark is taken out and its anchor put in at the same index. The
walk goes down as many levels as the forest has nodes, which is more than any plot has.
-/

namespace ReactiveMarkup

open Plot

namespace Garden

variable {markup : Markup} {rest : List Plot}

/-- The children of some nodes are left alone. -/
def Spares (markup changed : Markup) (plots : List Plot) : Prop :=
  ∀ id ∈ idsIn plots, changed.children id = markup.children id

theorem Spares.right {changed : Markup} {plots : List Plot}
    (h : Spares markup changed (plots ++ rest)) : Spares markup changed rest :=
  fun id hid => h id (by rw [idsIn_append]; exact List.mem_append_right _ hid)

theorem Spares.tail {changed : Markup} {plot : Plot} (h : Spares markup changed (plot :: rest)) :
    Spares markup changed rest :=
  fun id hid => h id (List.mem_append_right _ hid)

theorem Spares.trans {changed later : Markup} (h : Spares markup changed rest)
    (hlater : Spares changed later rest) : Spares markup later rest :=
  fun id hid => (hlater id hid).trans (h id hid)

/-- A tree is taken out of the trees below a node. -/
theorem remove {id : NodeId} {kind : NodeKind} {before after : List Plot} {plot : Plot}
    (h : Garden markup (.tree id kind (before ++ plot :: after) :: rest)) :
    Garden (markup.remove id plot.root).1 (.tree id kind (before ++ after) :: rest) ∧
      Spares markup (markup.remove id plot.root).1 rest := by
  obtain ⟨htop, hchildren⟩ := tree_iff.mp h
  have hne : ∀ other ∈ idsIn ((before ++ plot :: after) ++ rest), other ≠ id :=
    fun other hother heq => htop.head_not_mem (heq ▸ hother)
  have hsame : ∀ other ∈ idsIn ((before ++ plot :: after) ++ rest),
      (markup.remove id plot.root).1.children other = markup.children other := by
    intro other hother
    rw [Markup.children_remove, if_neg (hne other hother)]
  refine ⟨tree_iff.mpr ⟨?_, ?_⟩, fun other hother => hsame other ?_⟩
  · have hframe : Garden (markup.remove id plot.root).1
        (.gap id kind :: ((before ++ plot :: after) ++ rest)) :=
      htop.frame (Nat.le_of_eq (Markup.size_remove id plot.root).symm)
        (fun other _ => Markup.kind_remove id plot.root other)
        (fun other hother => hsame other (toldIn_subset_idsIn _ hother))
    refine hframe.sublist ?_
    exact (((List.Sublist.refl before).append (List.sublist_cons_self plot after)).append
      (List.Sublist.refl rest)).cons_cons _
  · have hnodup := htop.tail.left.roots_nodup
    rw [List.map_append, List.map_cons, List.nodup_append] at hnodup
    rw [Markup.children_remove, if_pos rfl, hchildren, List.map_append, List.map_cons,
      List.erase_append_right _ (fun hmem => hnodup.2.2 _ hmem _ List.mem_cons_self rfl),
      List.erase_cons_head, List.map_append]
  · rw [idsIn_append]
    exact List.mem_append_right _ hother

/-- A new tree is put among the trees below a node. -/
theorem insert {id : NodeId} {kind : NodeKind} {before after : List Plot} {plot : Plot}
    (h : Garden markup (plot :: .tree id kind (before ++ after) :: rest))
    (hparent : markup.parent? plot.root = none) :
    Garden (markup.insert id before.length plot.root)
        (.tree id kind (before ++ plot :: after) :: rest) ∧
      Spares markup (markup.insert id before.length plot.root) rest := by
  have hlt := h.stands.2.1.1
  obtain ⟨htop, hchildren⟩ := tree_iff.mp (h.perm (List.Perm.swap _ _ _))
  have hne : ∀ other ∈ idsIn (before ++ after ++ plot :: rest), other ≠ id :=
    fun other hother heq => htop.head_not_mem (heq ▸ hother)
  have hsame : ∀ other ∈ idsIn (before ++ after ++ plot :: rest),
      (markup.insert id before.length plot.root).children other = markup.children other := by
    intro other hother
    rw [Markup.children_insert hlt hparent, if_neg (hne other hother)]
  refine ⟨tree_iff.mpr ⟨?_, ?_⟩, fun other hother => hsame other ?_⟩
  · have hframe : Garden (markup.insert id before.length plot.root)
        (.gap id kind :: (before ++ after ++ plot :: rest)) :=
      htop.frame (Nat.le_of_eq (Markup.size_insert id plot.root before.length).symm)
        (fun other _ => Markup.kind_insert id plot.root other before.length)
        (fun other hother => hsame other (toldIn_subset_idsIn _ hother))
    refine hframe.perm (List.Perm.cons _ ?_)
    rw [List.append_assoc, List.append_assoc]
    exact List.perm_middle.append_left before
  · have hindex : before.length = (before.map root).length := (List.length_map _).symm
    rw [Markup.children_insert hlt hparent, if_pos rfl, hchildren, Markup.insertIn,
      List.map_append, hindex, List.take_left, List.drop_left, List.map_append, List.map_cons]
  · rw [idsIn_append]
    exact List.mem_append_right _ (List.mem_append_right _ hother)

/-! ## Marks -/

/-- Trees and what they are with anchors for their marks. Anchors are not among the nodes below a bound; a
node that is no mark stays what it is, with the trees below it treated in the same way. -/
inductive Prepared (bound : Nat) : Plot → Plot → Prop
  | mark {id : NodeId} {kind : NodeKind} {children : List Plot} {anchor : NodeId}
      (mark : Template.isMark kind = true) (new : bound ≤ anchor) :
      Prepared bound (.tree id kind children) (.tree anchor (.anchor Template.childAnchor) [])
  | node {id : NodeId} {kind : NodeKind} {children others : List Plot}
      (plain : Template.isMark kind = false) (below : List.Forall₂ (Prepared bound) children others) :
      Prepared bound (.tree id kind children) (.tree id kind others)

/-- A tree whose marks are replaced below its top; the top stays, whether it is a mark or not. -/
inductive Marked (bound : Nat) : Plot → Plot → Prop
  | tree {id : NodeId} {kind : NodeKind} {children others : List Plot}
      (below : List.Forall₂ (Prepared bound) children others) :
      Marked bound (.tree id kind children) (.tree id kind others)

/-- A child is replaced by a new anchor. -/
theorem putAnchor {id : NodeId} {kind : NodeKind} {before after : List Plot} {plot : Plot}
    (h : Garden markup (.tree id kind (before ++ plot :: after) :: rest)) (anchor : NodeKind) :
    let created := (markup.remove id plot.root).1.create anchor
    Garden (created.1.insert id before.length created.2)
        (.tree id kind (before ++ .tree created.2 anchor [] :: after) :: rest) ∧
      Spares markup (created.1.insert id before.length created.2) rest := by
  obtain ⟨hremoved, hspared⟩ := h.remove
  obtain ⟨hinserted, hkept⟩ := (hremoved.create anchor).insert
    (Markup.parent?_create_self anchor)
  refine ⟨hinserted, fun other hother => ?_⟩
  exact (hkept other hother).trans ((Markup.children_create anchor other).trans (hspared other hother))

end Garden

namespace Markup

/-- One child of a node is gone over for marks; the number is its index among the children. -/
def markChild (depth : Nat) (id : NodeId) (state : Markup × Nat) (child : NodeId) : Markup × Nat :=
  if Template.isMark (state.1.kind child) then
    let created := (state.1.remove id child).1.create (.anchor Template.childAnchor)
    (created.1.insert id state.2 created.2, state.2 + 1)
  else (state.1.markAnchorsTo depth child, state.2 + 1)

/-- A tree that is a mark as a whole is replaced by an anchor. -/
def replaceMark (markup : Markup) (id : NodeId) : Markup × NodeId :=
  if Template.isMark (markup.kind id) then markup.create (.anchor Template.childAnchor)
  else (markup, id)

theorem detachTemplate_eq (markup : Markup) (id : NodeId) :
    markup.detachTemplate id =
      mapAccum replaceMark ((markup.children id).foldl markAnchors (markup.takeChildren id).1)
        (markup.children id) := rfl

theorem markAnchorsTo_succ (markup : Markup) (depth : Nat) (id : NodeId) :
    markup.markAnchorsTo (depth + 1) id =
      ((markup.children id).foldl (markChild depth id) (markup, 0)).1 := rfl

end Markup

namespace Garden

theorem size_le_markChild {depth : Nat} (hdepth : ∀ (markup : Markup) (id : NodeId),
      markup.size ≤ (markup.markAnchorsTo depth id).size) (id : NodeId) (children : List NodeId)
    (state : Markup × Nat) :
    state.1.size ≤ (children.foldl (Markup.markChild depth id) state).1.size := by
  refine List.foldlRecOn (motive := fun changed : Markup × Nat => state.1.size ≤ changed.1.size) _ _
    (Nat.le_refl _) fun changed hchanged child _ => Nat.le_trans hchanged ?_
  rw [Markup.markChild]
  split
  · rw [Markup.size_insert, Markup.size_create, Markup.size_remove]
    exact Nat.le_succ _
  · exact hdepth changed.1 child

theorem size_le_markAnchorsTo : ∀ (depth : Nat) (markup : Markup) (id : NodeId),
    markup.size ≤ (markup.markAnchorsTo depth id).size
  | 0, markup, _ => Nat.le_refl _
  | depth + 1, markup, id => by
      rw [Markup.markAnchorsTo_succ]
      exact size_le_markChild (size_le_markAnchorsTo depth) id _ (markup, 0)

/-- What going over the plot of a node for marks does to a forest. A walk that goes deep enough leaves no
mark below the node. -/
def Marks (depth : Nat) : Prop :=
  ∀ (markup : Markup) (plot : Plot) (rest : List Plot) (bound : Nat), plot.IsWhole →
    bound ≤ markup.size → Garden markup (plot :: rest) →
    ∃ marked : Plot, marked.root = plot.root ∧ marked.IsWhole ∧
      (plot.height < depth → Marked bound plot marked) ∧
      Garden (markup.markAnchorsTo depth plot.root) (marked :: rest) ∧
      Spares markup (markup.markAnchorsTo depth plot.root) rest

section

variable {depth bound : Nat} {id : NodeId} {kind : NodeKind} {rest : List Plot}

/-- A child that is no mark is gone over where it stands. -/
theorem markBelow (hdepth : Marks depth) {before more : List Plot} {plot : Plot}
    (hwhole : plot.IsWhole) (hbound : bound ≤ markup.size)
    (h : Garden markup (.tree id kind (before ++ plot :: more) :: rest)) :
    ∃ marked : Plot, marked.IsWhole ∧ (plot.height < depth → Marked bound plot marked) ∧
      Garden (markup.markAnchorsTo depth plot.root) (.tree id kind (before ++ marked :: more) :: rest) ∧
      Spares markup (markup.markAnchorsTo depth plot.root) rest := by
  obtain ⟨htop, hchildren⟩ := tree_iff.mp h
  have hfirst : Garden markup (plot :: .gap id kind :: (before ++ more ++ rest)) := by
    refine htop.perm ?_
    rw [List.append_assoc, List.append_assoc]
    exact (List.perm_middle.cons _).trans (List.Perm.swap _ _ _)
  obtain ⟨marked, hroot, hmarkedWhole, hbelow, hmarked, hspared⟩ :=
    hdepth _ _ _ bound hwhole hbound hfirst
  refine ⟨marked, hmarkedWhole, hbelow, tree_iff.mpr ⟨hmarked.perm ?_, ?_⟩,
    Spares.right (Spares.tail hspared)⟩
  · rw [List.append_assoc, List.append_assoc]
    exact (List.Perm.swap _ _ _).trans (List.perm_middle.symm.cons _)
  · rw [hspared id (by simp [idsIn, ids]), hchildren, List.map_append, List.map_append, List.map_cons,
      List.map_cons, hroot]

/-- One child of a node is gone over, behind those that are done. -/
theorem markChild (hdepth : Marks depth) {before more : List Plot} {plot : Plot}
    (hwhole : plot.IsWhole) (hbound : bound ≤ markup.size)
    (h : Garden markup (.tree id kind (before ++ plot :: more) :: rest)) :
    let changed := Markup.markChild depth id (markup, before.length) plot.root
    ∃ first : Plot, first.IsWhole ∧ (plot.height < depth → Prepared bound plot first) ∧
      changed.2 = before.length + 1 ∧ bound ≤ changed.1.size ∧
      Garden changed.1 (.tree id kind (before ++ first :: more) :: rest) ∧
      Spares markup changed.1 rest := by
  intro changed
  have hsize : bound ≤ changed.1.size := Nat.le_trans hbound
    (size_le_markChild (size_le_markAnchorsTo depth) id [plot.root] (markup, before.length))
  cases plot with
  | gap => exact hwhole.elim
  | tree child childKind below =>
      have hkind : markup.kind child = childKind :=
        (standAll_iff.mp (tree_iff.mp h).1.stands.2 (.tree child childKind below) (by simp)).2.1
      by_cases hmark : Template.isMark childKind = true
      · have hchanged : changed = _ := if_pos (hkind ▸ hmark)
        obtain ⟨hput, hspared⟩ := h.putAnchor (.anchor Template.childAnchor)
        rw [hchanged] at hsize ⊢
        refine ⟨.tree _ (.anchor Template.childAnchor) [], trivial, fun _ => .mark hmark ?_, rfl, hsize,
          hput, hspared⟩
        rw [Markup.create_snd, Markup.size_remove]
        exact hbound
      · have hchanged : changed = _ := if_neg (hkind ▸ hmark)
        obtain ⟨marked, hmarkedWhole, hbelow, hmarked, hspared⟩ := markBelow hdepth hwhole hbound h
        rw [hchanged] at hsize ⊢
        refine ⟨marked, hmarkedWhole, fun hheight => ?_, rfl, hsize, hmarked, hspared⟩
        cases hbelow hheight with
        | tree hothers => exact .node (Bool.eq_false_iff.mpr hmark) hothers

/-- The children of a node are gone over: those in front are done, each new one is put behind them. -/
theorem markChildren (hdepth : Marks depth) : ∀ (todo before : List Plot) {markup : Markup},
    bound ≤ markup.size → Garden markup (.tree id kind (before ++ todo) :: rest) → AreWhole todo →
    ∃ done, AreWhole done ∧ (heightIn todo ≤ depth → List.Forall₂ (Prepared bound) todo done) ∧
      Garden ((todo.map root).foldl (Markup.markChild depth id) (markup, before.length)).1
        (.tree id kind (before ++ done) :: rest) ∧
      Spares markup
        ((todo.map root).foldl (Markup.markChild depth id) (markup, before.length)).1 rest
  | [], before, markup, _, h, _ => ⟨[], trivial, fun _ => .nil, h, fun _ _ => rfl⟩
  | plot :: more, before, markup, hbound, h, hwhole => by
      obtain ⟨first, hfirst, hprepared, hindex, hsize, hgarden, hspared⟩ :=
        markChild hdepth hwhole.1 hbound h
      rw [List.append_cons] at hgarden
      obtain ⟨done, hdone, hall, hlast, hmore⟩ :=
        markChildren hdepth more (before ++ [first]) hsize hgarden hwhole.2
      rw [List.length_append, List.length_singleton, ← hindex] at hlast hmore
      rw [List.append_assoc] at hlast
      refine ⟨first :: done, ⟨hfirst, hdone⟩, fun hheight => ?_, hlast, hspared.trans hmore⟩
      exact .cons (hprepared (Nat.lt_of_succ_le (Nat.le_trans (Nat.le_max_left _ _) hheight)))
        (hall (Nat.le_trans (Nat.le_max_right _ _) hheight))

end

/-- Putting anchors for marks changes the plot of a node, and nothing else. -/
theorem marks : ∀ depth : Nat, Marks depth
  | 0 => fun _ plot _ _ hwhole _ h =>
      ⟨plot, rfl, hwhole, fun hheight => absurd hheight (Nat.not_lt_zero _), h, fun _ _ => rfl⟩
  | depth + 1 => fun markup plot rest bound hwhole hbound h => by
      cases plot with
      | gap id kind => exact hwhole.elim
      | tree id kind children =>
          obtain ⟨done, hdone, hprepared, hgarden, hspared⟩ :=
            markChildren (marks depth) children [] hbound h hwhole
          rw [root, Markup.markAnchorsTo_succ, h.stands.1.2.2.1]
          exact ⟨.tree id kind done, rfl, hdone, fun hheight =>
            .tree (hprepared (Nat.le_of_lt_succ hheight)), hgarden, hspared⟩

/-- Some trees are gone over for marks one after another. -/
theorem markAll {bound : Nat} : ∀ (plots : List Plot) {markup : Markup} {rest : List Plot},
    AreWhole plots → bound ≤ markup.size → Garden markup (plots ++ rest) →
    ∃ marked : List Plot, marked.map root = plots.map root ∧ AreWhole marked ∧
      List.Forall₂ (Marked bound) plots marked ∧
      Garden ((plots.map root).foldl Markup.markAnchors markup) (marked ++ rest) ∧
      Spares markup ((plots.map root).foldl Markup.markAnchors markup) rest
  | [], _, _, _, _, h => ⟨[], rfl, trivial, .nil, h, fun _ _ => rfl⟩
  | plot :: more, markup, rest, hwhole, hbound, h => by
      obtain ⟨first, hroot, hfirst, hbelow, hmarked, hspared⟩ :=
        marks markup.size markup plot _ bound hwhole.1 hbound h
      obtain ⟨others, hroots, hothers, hall, hgarden, hmore⟩ := markAll more hwhole.2
        (Nat.le_trans hbound (size_le_markAnchorsTo markup.size markup plot.root)) hmarked.swap_cons
      refine ⟨first :: others, ?_, ⟨hfirst, hothers⟩,
        .cons (hbelow (h.height_lt_size List.mem_cons_self)) hall, hgarden.cons_swap, ?_⟩
      · rw [List.map_cons, List.map_cons, hroot, hroots]
      · exact (Spares.right hspared).trans (Spares.tail hmore)

theorem size_le_replaceMark (markup : Markup) (id : NodeId) :
    markup.size ≤ (markup.replaceMark id).1.size := by
  rw [Markup.replaceMark]
  split
  · rw [Markup.size_create]
    exact Nat.le_succ _
  · exact Nat.le_refl _

/-- Trees that are marks as a whole are replaced by anchors, and then all marks are. -/
theorem replaceMarks {bound : Nat} {plots marked : List Plot}
    (hmarked : List.Forall₂ (Marked bound) plots marked) : ∀ {markup : Markup} {rest : List Plot},
    AreWhole marked → bound ≤ markup.size → Garden markup (marked ++ rest) →
    ∃ template : List Plot,
      template.map root = (ReactiveMarkup.mapAccum Markup.replaceMark markup (marked.map root)).2 ∧
      AreWhole template ∧ List.Forall₂ (Prepared bound) plots template ∧
      Garden (ReactiveMarkup.mapAccum Markup.replaceMark markup (marked.map root)).1
        (template ++ rest) ∧
      Spares markup (ReactiveMarkup.mapAccum Markup.replaceMark markup (marked.map root)).1 rest := by
  induction hmarked with
  | nil => exact fun _ _ h => ⟨[], rfl, trivial, .nil, h, fun _ _ => rfl⟩
  | @cons plot top more others hfirst _ ih =>
      intro markup rest hwhole hbound h
      have hstep : ∃ first : Plot, first.IsWhole ∧ Prepared bound plot first ∧
          (markup.replaceMark top.root).2 = first.root ∧
          Garden (markup.replaceMark top.root).1 (first :: (others ++ rest)) ∧
          Spares markup (markup.replaceMark top.root).1 rest := by
        obtain ⟨hbelow⟩ := hfirst
        have hkind := h.stands.1.2.1
        rw [root, Markup.replaceMark, hkind]
        split
        · next hmark =>
            exact ⟨.tree markup.size (.anchor Template.childAnchor) [], trivial, .mark hmark hbound, rfl,
              h.tail.create _, fun id _ => Markup.children_create _ id⟩
        · next hmark =>
            exact ⟨_, hwhole.1, .node (Bool.eq_false_iff.mpr hmark) hbelow, rfl, h, fun _ _ => rfl⟩
      obtain ⟨first, hfirst, hprepared, hroot, hchanged, hspared⟩ := hstep
      obtain ⟨template, hroots, htemplate, hall, hgarden, hmore⟩ := ih hwhole.2
        (Nat.le_trans hbound (size_le_replaceMark markup top.root)) hchanged.swap_cons
      refine ⟨first :: template, ?_, ⟨hfirst, htemplate⟩, .cons hprepared hall, hgarden.cons_swap, ?_⟩
      · rw [List.map_cons, hroots, ← hroot]
        rfl
      · exact hspared.trans (Spares.tail hmore)

/-- The content of a node becomes a template of its own, with anchors for its marks. -/
theorem detachTemplate_prepared {markup : Markup} {id : NodeId} {kind : NodeKind}
    {children rest : List Plot} (hwhole : AreWhole children)
    (h : Garden markup (.tree id kind children :: rest)) :
    ∃ template : List Plot, template.map root = (markup.detachTemplate id).2 ∧ AreWhole template ∧
      List.Forall₂ (Prepared markup.size) children template ∧
      Garden (markup.detachTemplate id).1 (.tree id kind [] :: (template ++ rest)) ∧
      Spares markup (markup.detachTemplate id).1 rest := by
  obtain ⟨htop, hchildren⟩ := tree_iff.mp h
  have hsize := Nat.le_of_eq (@Markup.size_takeChildren markup id).symm
  obtain ⟨marked, hroots, hmarkedWhole, hall, hmarked, hspared⟩ := markAll children hwhole hsize
    htop.takeChildren.swap_cons
  have hlater : markup.size ≤
      ((children.map root).foldl Markup.markAnchors (markup.takeChildren id).1).size :=
    List.foldlRecOn (motive := fun changed : Markup => markup.size ≤ changed.size) _ _ hsize
      fun changed hchanged child _ => Nat.le_trans hchanged (size_le_markAnchorsTo changed.size changed child)
  obtain ⟨template, hnodes, htemplate, hprepared, hgarden, hmore⟩ :=
    replaceMarks hall hmarkedWhole hlater hmarked
  rw [hroots, ← hchildren, ← Markup.detachTemplate_eq] at hnodes hgarden hmore
  rw [← hchildren] at hspared
  refine ⟨template, hnodes, htemplate, hprepared, hgarden.cons_swap, fun other hother => ?_⟩
  have hin : other ∈ idsIn (.tree id kind [] :: rest) := List.mem_append_right _ hother
  rw [hmore other hin, hspared other hin, Markup.children_takeChildren, if_neg]
  rintro rfl
  exact htop.head_not_mem (by rw [idsIn_append]; exact List.mem_append_right _ hother)

/-- The content of a node becomes a template of its own, and the node stays without content. -/
theorem detachTemplate {markup : Markup} {id : NodeId} {kind : NodeKind}
    {children rest : List Plot} (hwhole : AreWhole children)
    (h : Garden markup (.tree id kind children :: rest)) :
    ∃ template : List Plot, template.map root = (markup.detachTemplate id).2 ∧ AreWhole template ∧
      Garden (markup.detachTemplate id).1 (.tree id kind [] :: (template ++ rest)) ∧
      Spares markup (markup.detachTemplate id).1 rest := by
  obtain ⟨template, hnodes, htemplate, -, hgarden⟩ := detachTemplate_prepared hwhole h
  exact ⟨template, hnodes, htemplate, hgarden⟩

/-- A node is taken out of wherever it is, which nobody's told list of children is. -/
theorem detach {markup : Markup} {plots : List Plot} (h : Garden markup plots) {plot : Plot}
    (hplot : plot ∈ plots) : Garden (markup.detach plot.root) plots :=
  h.frame (Nat.le_of_eq (Markup.size_detach plot.root).symm)
    (fun other _ => Markup.kind_detach plot.root other)
    (fun other hother =>
      Markup.children_detach_of_not_mem (h.root_not_mem_children hplot other hother))

end Garden

end ReactiveMarkup
