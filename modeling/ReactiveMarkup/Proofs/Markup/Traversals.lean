import Mathlib.Data.Fintype.EquivFin
import ReactiveMarkup.Proofs.Markup.Ancestry
import ReactiveMarkup.Proofs.Markup.Leaves

/-!
# Going through trees

Searching below a node, writing it and copying it go down from it without a bound, and come to an end
only if the way down does. Here they are given a bound, the number of nodes, and where no node is its
own ancestor the bound changes nothing: each is what its own recursion over the children gives, and the
recursion is well-founded.

A copy is made while the forest grows, so its recursion is told as a relation. What it goes through is
the tree as it was at the beginning, and that tree still stands after every step.
-/

namespace ReactiveMarkup

namespace Markup

mutual

/-- A node is copied, and then all that is below it, however deep that is. -/
inductive Clones : Markup → NodeId → Markup × NodeId → Prop
  | node {markup after : Markup} {id : NodeId}
      (below : ClonesInto markup.size (markup.create (markup.kind id)).1 (markup.children id) after) :
      Clones markup id (after, markup.size)

/-- Nodes are copied one after another, and each copy is put behind the children of a node. -/
inductive ClonesInto : NodeId → Markup → List NodeId → Markup → Prop
  | nil {copy : NodeId} {markup : Markup} : ClonesInto copy markup [] markup
  | cons {copy child : NodeId} {markup after : Markup} {rest : List NodeId} {made : Markup × NodeId}
      (first : Clones markup child made)
      (more : ClonesInto copy (made.1.append copy made.2) rest after) :
      ClonesInto copy markup (child :: rest) after

end

/-- The way down from every node comes to an end, and whatever goes down from a node is what its
recursion over the children gives. -/
structure Traversable (markup : Markup) : Prop where
  ends : WellFounded fun child id => child ∈ markup.children id
  inside : ∀ id, ∀ child ∈ markup.children id, child < markup.size
  findAnchor : ∀ id < markup.size, ∀ name, markup.findAnchor? id name =
    if (markup.kind id).anchorName? = some name then some id
    else (markup.children id).findSome? (markup.findAnchor? · name)
  elements : ∀ id < markup.size, ∀ tag, markup.elementsByTag id tag =
    (if markup.hasTag tag id then [id] else []) ++
      (markup.children id).flatMap (markup.elementsByTag · tag)
  text : ∀ id < markup.size, markup.innerText id =
    (match markup.kind id with
      | .text content => content
      | _ => "") ++ String.join ((markup.children id).map markup.innerText)
  fragment : ∀ id < markup.size, markup.fragment id =
    match markup.kind id with
    | .element tag attributes => .element tag attributes ((markup.children id).map markup.fragment)
    | .text content => .text content
    | .comment content => .comment content
    | .anchor name => .anchor name ((markup.children id).map markup.fragment)
  copy : ∀ id < markup.size, Clones markup id (markup.copy id)

end Markup

open Plot

variable {markup : Markup}

/-! ## Trees below nodes -/

/-- If the way down comes to an end no node is its own ancestor. -/
theorem Markup.Linked.not_under_of_ends (h : markup.Linked)
    (hends : WellFounded fun child id => child ∈ markup.children id) (id : NodeId) :
    ¬ markup.Under id id := fun hbelow =>
  have hdown := Relation.TransGen.mono (fun child high hup => (h.mem_iff high child).mpr hup)
    id id hbelow
  hends.transGen.asymmetric id id hdown hdown

/-- Where no node is its own ancestor the way down comes to an end as well. -/
theorem Markup.Grounded.ends (h : markup.Grounded) (hlinked : markup.Linked) :
    WellFounded fun child id => child ∈ markup.children id := by
  have hbelow : WellFounded fun low high : Fin markup.size => markup.Under low high := by
    have : IsTrans (Fin markup.size) fun low high => markup.Under low high :=
      ⟨fun _ _ _ hlow hhigh => hlow.trans hhigh⟩
    have : Std.Irrefl fun low high : Fin markup.size => markup.Under low high :=
      ⟨fun low => h.not_under low⟩
    exact Finite.wellFounded_of_trans_of_irrefl _
  have hlow : ∀ low : Fin markup.size, Acc (fun child id => child ∈ markup.children id) low.val :=
    fun low => by
      induction low using hbelow.induction with
      | _ low ih =>
        refine ⟨low.val, fun child hchild => ?_⟩
        have hup := (hlinked.mem_iff _ _).mp hchild
        exact ih ⟨child, hlinked.lt_size hchild⟩ (.single hup)
  refine ⟨fun id => ⟨id, fun child hchild => ?_⟩⟩
  exact hlow ⟨child, hlinked.lt_size hchild⟩

mutual

/-- The nodes of a tree are below its top. -/
theorem Plot.Stands.within (hlinked : markup.Linked) : ∀ {plot : Plot}, Stands markup plot →
    ∀ id ∈ plot.ids, markup.Within id plot.root
  | .tree top kind children, h, id, hid => by
      rcases List.mem_cons.mp hid with rfl | hin
      · exact .refl
      · obtain ⟨child, hchild, hway⟩ := StandAll.within hlinked h.2.2.2 id hin
        refine hway.tail ((hlinked.mem_iff top child).mp ?_)
        rw [h.2.2.1]
        exact hchild
  | .gap top kind, _, id, hid => by
      rw [ids, List.mem_singleton] at hid
      exact hid ▸ .refl

theorem Plot.StandAll.within (hlinked : markup.Linked) : ∀ {plots : List Plot},
    StandAll markup plots → ∀ id ∈ idsIn plots, ∃ top ∈ plots.map root, markup.Within id top
  | plot :: rest, h, id, hid => by
      rcases List.mem_append.mp hid with hin | hin
      · exact ⟨plot.root, List.mem_cons_self, Stands.within hlinked h.1 id hin⟩
      · obtain ⟨root, hroot, hway⟩ := StandAll.within hlinked h.2 id hin
        exact ⟨root, List.mem_cons_of_mem _ hroot, hway⟩

end

/-- Where no node is its own ancestor there is a tree below every node. -/
theorem Markup.Grounded.exists_tree (h : markup.Grounded) (hlinked : markup.Linked) {id : NodeId}
    (hid : id < markup.size) : ∃ plot : Plot, plot.root = id ∧ plot.IsWhole ∧ Garden markup [plot] := by
  have hstands : ∃ plot : Plot, plot.root = id ∧ plot.IsWhole ∧ Stands markup plot := by
    induction id using (h.ends hlinked).induction with
    | _ id ih =>
      obtain ⟨plots, hroots, hplots⟩ := exists_plots fun child hchild =>
        ih child hchild (hlinked.lt_size hchild)
      refine ⟨.tree id (markup.kind id) plots, rfl, ?_, hid, rfl, hroots.symm, ?_⟩
      · exact areWhole_iff.mpr fun plot hplot => (hplots plot hplot).1
      · exact standAll_iff.mpr fun plot hplot => (hplots plot hplot).2
  obtain ⟨plot, hroot, hwhole, hplot⟩ := hstands
  refine ⟨plot, hroot, hwhole, ⟨hplot, trivial⟩, ?_⟩
  rw [idsIn, idsIn, List.append_nil]
  refine hplot.nodup hlinked fun parent hup hin => ?_
  exact h.not_under plot.root (.head' hup (hplot.within hlinked parent hin))

/-! ## Recursions -/

namespace Garden

variable {plot : Plot}

theorem nodes_below (h : Garden markup [plot]) (hwhole : plot.IsWhole) :
    markup.nodes plot.root = plot.root :: (markup.children plot.root).flatMap markup.nodes := by
  have hheight := h.height_lt_size List.mem_cons_self
  have hnodes := nodesTo_eq h.stands.1 hwhole hheight
  cases plot with
  | tree id kind children =>
      obtain ⟨-, -, hchildren, hall⟩ := h.stands.1
      have hbelow := flatMap_nodesTo_eq hall hwhole (Nat.le_of_lt hheight)
      rw [root, ids] at hnodes
      rw [root, hchildren, Markup.nodes, hnodes, ← hbelow]
      rfl
  | gap id kind => exact hwhole.elim

theorem fragment_below (h : Garden markup [plot]) (hwhole : plot.IsWhole) :
    markup.fragment plot.root =
      match markup.kind plot.root with
      | .element tag attributes =>
        .element tag attributes ((markup.children plot.root).map markup.fragment)
      | .text content => .text content
      | .comment content => .comment content
      | .anchor name => .anchor name ((markup.children plot.root).map markup.fragment) := by
  have hheight := h.height_lt_size List.mem_cons_self
  have hfragment := fragmentTo_eq h.stands.1 hwhole hheight
  cases plot with
  | tree id kind children =>
      obtain ⟨-, hkind, hchildren, hall⟩ := h.stands.1
      have hbelow := fragmentsTo_eq hall hwhole (Nat.le_of_lt hheight)
      rw [root, shape] at hfragment
      rw [root, hkind, hchildren, Markup.fragment, hfragment]
      cases kind with
      | element tag attributes => exact congrArg _ hbelow.symm
      | text content => rfl
      | comment content => rfl
      | anchor name => exact congrArg _ hbelow.symm
  | gap id kind => exact hwhole.elim

mutual

/-- A copy that is made down to a depth is complete if the tree is not deeper. -/
theorem clones : ∀ (plot : Plot) (depth : Nat) {markup : Markup} {rest : List Plot},
    plot.IsWhole → (∀ markup, StandAll markup rest → Stands markup plot) → plot.height ≤ depth →
    Garden markup rest → Markup.Clones markup plot.root (markup.copyTo depth plot.root)
  | .tree id kind children, depth, markup, rest, hwhole, hwithin, hheight, h => by
      obtain ⟨-, hkind, hchildren, -⟩ := hwithin markup h.stands
      have hnew := h.create kind
      rw [root]
      cases depth with
      | zero =>
          cases children with
          | nil =>
              refine .node ?_
              rw [hchildren]
              exact .nil
          | cons child more =>
              rw [height, heightIn] at hheight
              omega
      | succ depth =>
          refine .node ?_
          have hbelow := clonesInto children depth hwhole
            (fun markup hstand => (hwithin markup hstand).2.2.2) hheight hnew
          rw [hkind, hchildren]
          exact hbelow
  | .gap id kind, _, _, _, hwhole, _, _, _ => hwhole.elim

theorem clonesInto : ∀ (plots : List Plot) (depth : Nat) {markup : Markup} {rest done : List Plot}
    {copy : NodeId} {kind : NodeKind},
    AreWhole plots → (∀ markup, StandAll markup rest → StandAll markup plots) →
    heightIn plots ≤ depth + 1 → Garden markup (.tree copy kind done :: rest) →
    Markup.ClonesInto copy markup (plots.map root)
      ((plots.map root).foldl
        (fun filled child =>
          let (filled, below) := Markup.copyTo filled depth child
          filled.append copy below)
        markup)
  | [], _, _, _, _, _, _, _, _, _, _ => .nil
  | plot :: more, depth, markup, rest, done, copy, kind, hwhole, hwithin, hheight, h => by
      rw [heightIn] at hheight
      -- The tree is looked for below what grows, and what grows stands beside it.
      have hbeside : ∀ markup, StandAll markup (.tree copy kind done :: rest) → Stands markup plot :=
        fun markup hstand => (hwithin markup hstand.2).1
      have hfirst := clones plot depth hwhole.1 hbeside (by omega) h
      obtain ⟨made, hroot, -, -, hgarden⟩ := copyTo plot depth hwhole.1 hbeside (by omega) h
      have hput := (hgarden.perm (List.Perm.swap _ _ _)).append
      rw [hroot] at hput
      exact .cons hfirst (clonesInto more depth hwhole.2
        (fun markup hstand => (hwithin markup hstand).2) (by omega) hput)

end

end Garden

theorem join_flatMap {α : Type} (parts : α → List String) (items : List α) :
    String.join (items.flatMap parts) = String.join (items.map fun item => String.join (parts item)) := by
  induction items with
  | nil => rfl
  | cons item rest ih => rw [List.flatMap_cons, String.join_append, List.map_cons, String.join_cons, ih]

/-- Where no node is its own ancestor, whatever goes down from a node comes to an end. -/
theorem Markup.Grounded.traversable (h : markup.Grounded) (hlinked : markup.Linked) :
    markup.Traversable := by
  have htree : ∀ id < markup.size, ∃ plot : Plot, plot.root = id ∧ plot.IsWhole ∧ Garden markup [plot] :=
    fun id hid => h.exists_tree hlinked hid
  have hnodes : ∀ id < markup.size, markup.nodes id = id :: (markup.children id).flatMap markup.nodes :=
    fun id hid => by
      obtain ⟨plot, rfl, hwhole, hgarden⟩ := htree id hid
      exact hgarden.nodes_below hwhole
  exact {
    ends := h.ends hlinked
    inside := fun _ _ hchild => hlinked.lt_size hchild
    findAnchor := fun id hid name => by
      rw [Markup.findAnchor?, hnodes id hid, List.find?_cons, List.find?_flatMap]
      by_cases hname : (markup.kind id).anchorName? = some name
      · rw [beq_iff_eq.mpr hname, if_pos hname]
      · rw [beq_eq_false_iff_ne.mpr hname, if_neg hname]
        rfl
    elements := fun id hid tag => by
      rw [Markup.elementsByTag, hnodes id hid, List.filter_cons, List.filter_flatMap]
      change (if markup.hasTag tag id then _ else _) = _
      split
      · rfl
      · rfl
    text := fun id hid => by
      rw [Markup.innerText, hnodes id hid, List.map_cons, String.join_cons, List.map_flatMap,
        join_flatMap]
      rfl
    fragment := fun id hid => by
      obtain ⟨plot, rfl, hwhole, hgarden⟩ := htree id hid
      exact hgarden.fragment_below hwhole
    copy := fun id hid => by
      obtain ⟨plot, rfl, hwhole, hgarden⟩ := htree id hid
      exact Garden.clones plot markup.size hwhole (fun _ (hstand : StandAll _ [plot]) => hstand.1)
        (Nat.le_of_lt (hgarden.height_lt_size List.mem_cons_self)) hgarden }

/-! ## Runs of edits -/

/-- However a forest is edited that began empty, no node ever becomes its own ancestor exactly if no edit
puts a node into its own list or into the list of a node below it. And exactly then whatever goes down
from a node comes to an end, at every node, after every edit. -/
theorem edited_trees_traversable (edits : List Edit) (h : Edit.There Arena.empty edits) :
    ((∀ front, front <+: edits → ∀ id, ¬ (Edit.applyAll Arena.empty front).Under id id) ↔
      Edit.AllApart Arena.empty edits) ∧
    ((∀ front, front <+: edits → (Edit.applyAll Arena.empty front).Traversable) ↔
      Edit.AllApart Arena.empty edits) := by
  have hlinked : ∀ front, front <+: edits → (Edit.applyAll Arena.empty front).Linked := by
    rintro front ⟨more, rfl⟩
    exact (Markup.Linked.empty.editAll (Edit.there_append.mp h).1).1
  have hgrounded : Edit.AllApart Arena.empty edits → ∀ front, front <+: edits →
      (Edit.applyAll Arena.empty front).Grounded := by
    rintro hapart front ⟨more, rfl⟩
    exact Markup.Grounded.empty.editAll Markup.Linked.empty (Edit.there_append.mp h).1 hapart.front
  have hmixed : ¬ Edit.AllApart Arena.empty edits →
      ∃ front, front <+: edits ∧ ∃ id, (Edit.applyAll Arena.empty front).Under id id :=
    Markup.Grounded.empty.under_editAll Markup.Linked.empty h
  refine ⟨⟨fun hnone => ?_, fun hapart front hin => (hgrounded hapart front hin).not_under⟩,
    ⟨fun hall => ?_, fun hapart front hin => (hgrounded hapart front hin).traversable (hlinked front hin)⟩⟩
  · by_contra hnot
    obtain ⟨front, hin, id, hbelow⟩ := hmixed hnot
    exact hnone front hin id hbelow
  · by_contra hnot
    obtain ⟨front, hin, id, hbelow⟩ := hmixed hnot
    exact (hlinked front hin).not_under_of_ends (hall front hin).ends id hbelow

theorem listed_items_traversable : Edit.There Arena.empty (listEdits ++ moreEdits) ∧
    Edit.AllApart Arena.empty (listEdits ++ moreEdits) ∧
    (Edit.applyAll Arena.empty (listEdits ++ moreEdits)).Traversable := by
  have hthere : Edit.There Arena.empty (listEdits ++ moreEdits) := by decide
  have hapart : Edit.AllApart Arena.empty (listEdits ++ moreEdits) := by
    refine ⟨trivial, trivial, trivial, ?_, ?_, trivial, ?_, trivial, trivial, ?_, trivial, ?_, ?_, trivial⟩
    · exact Markup.not_within_of_parent?_none (by decide) (by decide)
    · exact Markup.not_within_of_parent?_none (by decide) (by decide)
    · exact Markup.not_within_of_parent?_none (by decide) (by decide)
    · exact @Markup.not_within_of_parent? _ 2 5 0 (by decide) (by decide)
        (Markup.not_within_of_parent?_none (by decide) (by decide))
    · refine fun node hnode => Markup.not_within_of_parent?_none (by decide) ?_
      rintro rfl
      exact absurd hnode (by decide)
    · exact Markup.not_within_of_parent?_none (by decide) (by decide)
  exact ⟨hthere, hapart, (edited_trees_traversable _ hthere).2.mpr hapart _ (List.prefix_refl _)⟩

/-- A node that is put into its own list is its own ancestor, and the way down from it has no end. -/
theorem node_put_into_itself :
    let edits : List Edit := [.create (.element "div" []) rfl, .append 0 0]
    let markup := Edit.applyAll Arena.empty edits
    Edit.There Arena.empty edits ∧ markup.Under 0 0 ∧
      ¬ WellFounded fun child id => child ∈ markup.children id := by
  have hself : 0 ∈ (Edit.applyAll Arena.empty
    [.create (.element "div" []) rfl, .append 0 0]).children 0 := by decide
  exact ⟨by decide, .single (by decide), fun hends => hends.asymmetric 0 0 hself hself⟩

end ReactiveMarkup
