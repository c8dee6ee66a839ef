import Mathlib.Data.List.Perm.Subperm
import ReactiveMarkup.Proofs.Markup.Garden

/-!
# Copies of templates

Copies are made down to a depth, and the depth that is used is the number of nodes. A plot is never
deeper than it has nodes, and its nodes are different numbers below the size of the forest, so the
depth is always enough: a copy of a plot is a new plot of the same shape.

What is copied may be anywhere in the garden. The lemmas ask only that it stands whenever the garden
does, so the parts of a plot can be copied as well as the plot.
-/

namespace ReactiveMarkup

open Plot

namespace Plot

/-! ## Heights -/

mutual

theorem height_lt_length : ∀ plot : Plot, plot.height < plot.ids.length
  | .tree id kind children => by
      rw [height, ids, List.length_cons]
      exact Nat.lt_succ_of_le (heightIn_le_length children)
  | .gap id kind => by
      rw [height, ids]
      exact Nat.zero_lt_one

theorem heightIn_le_length : ∀ plots : List Plot, heightIn plots ≤ (idsIn plots).length
  | [] => Nat.le_refl _
  | plot :: rest => by
      have hplot := height_lt_length plot
      have hrest := heightIn_le_length rest
      rw [heightIn, idsIn, List.length_append]
      omega

end

/-! ## Filled plots -/

mutual

/-- A plot with the columns of a row filled in. -/
def fill (pattern : Pattern) (row : Row) : Plot → Plot
  | .tree id kind children =>
    .tree id (Template.fillKind pattern row kind)
      (if Template.fillsBelow kind then fillAll pattern row children else children)
  | .gap id kind => .gap id (Template.fillKind pattern row kind)

/-- Plots with the columns of a row filled in. -/
def fillAll (pattern : Pattern) (row : Row) : List Plot → List Plot
  | [] => []
  | plot :: rest => fill pattern row plot :: fillAll pattern row rest

end

variable {pattern : Pattern} {row : Row}

@[simp] theorem root_fill (plot : Plot) : (plot.fill pattern row).root = plot.root := by
  cases plot <;> rfl

@[simp] theorem roots_fillAll (plots : List Plot) :
    (fillAll pattern row plots).map root = plots.map root := by
  induction plots with
  | nil => rfl
  | cons plot rest ih => rw [fillAll, List.map_cons, List.map_cons, ih, root_fill]

mutual

theorem shape_fill : ∀ plot : Plot, plot.IsWhole →
    (plot.fill pattern row).shape = plot.shape.fill pattern row
  | .tree id kind children, h => by
      rw [fill, shape, shape, Shape.fill]
      split
      · rw [shapes_fillAll children h]
      · rfl

theorem shapes_fillAll : ∀ plots : List Plot, AreWhole plots →
    shapes (fillAll pattern row plots) = Shape.fillAll pattern row (shapes plots)
  | [], _ => rfl
  | plot :: rest, h => by
      rw [fillAll, shapes, shapes, Shape.fillAll, shape_fill plot h.1, shapes_fillAll rest h.2]

end

mutual

theorem IsWhole.fill : ∀ {plot : Plot}, plot.IsWhole → (plot.fill pattern row).IsWhole
  | .tree id kind children, h => by
      rw [Plot.fill, IsWhole]
      split
      · exact AreWhole.fillAll h
      · exact h

theorem AreWhole.fillAll : ∀ {plots : List Plot}, AreWhole plots →
    AreWhole (fillAll pattern row plots)
  | [], _ => trivial
  | _ :: _, h => ⟨IsWhole.fill h.1, AreWhole.fillAll h.2⟩

end

end Plot

namespace Markup

variable {pattern : Pattern} {row : Row}

theorem children_fillTo (depth : Nat) (markup : Markup) (id other : NodeId) :
    (fillTo pattern row markup depth id).children other = markup.children other := by
  induction depth generalizing markup id with
  | zero => rfl
  | succ depth ih =>
      have hfold : ∀ (nodes : List NodeId) (filled : Markup),
          (nodes.foldl (fun filled child => fillTo pattern row filled depth child) filled).children
            other = filled.children other := by
        intro nodes
        induction nodes with
        | nil => exact fun _ => rfl
        | cons node rest ihrest => exact fun filled => (ihrest _).trans (ih filled node)
      rw [fillTo]
      split
      · rw [hfold, children_setKind]
      · rw [children_setKind]

theorem children_foldl_fillTo (depth : Nat) (nodes : List NodeId) (markup : Markup)
    (other : NodeId) :
    (nodes.foldl (fun filled child => fillTo pattern row filled depth child) markup).children
      other = markup.children other := by
  induction nodes generalizing markup with
  | nil => rfl
  | cons node rest ih => exact (ih _).trans (children_fillTo depth markup node other)

end Markup

namespace Garden

variable {markup : Markup} {plots rest : List Plot} {pattern : Pattern} {row : Row}

theorem height_lt_size {plot : Plot} (h : Garden markup plots) (hplot : plot ∈ plots) :
    plot.height < markup.size := by
  have hnodup : plot.ids.Nodup := by
    have honly := (h.sublist (List.singleton_sublist.mpr hplot)).apart
    rwa [idsIn, idsIn, List.append_nil] at honly
  have hsub : plot.ids ⊆ List.range markup.size := fun id hid =>
    List.mem_range.mpr (Stands.lt_size (standAll_iff.mp h.stands plot hplot) id hid)
  have hlen := (List.subperm_of_subset hnodup hsub).length_le
  rw [List.length_range] at hlen
  exact Nat.lt_of_lt_of_le (height_lt_length plot) hlen

/-! ## Copying -/

mutual

/-- A copy is a new plot of the same shape. -/
theorem copyTo : ∀ (plot : Plot) (depth : Nat) {markup : Markup} {rest : List Plot},
    plot.IsWhole → (∀ markup, StandAll markup rest → Stands markup plot) → plot.height ≤ depth →
    Garden markup rest →
    ∃ copy : Plot, copy.root = (markup.copyTo depth plot.root).2 ∧ copy.shape = plot.shape ∧
      copy.IsWhole ∧ Garden (markup.copyTo depth plot.root).1 (copy :: rest)
  | .tree id kind children, depth, markup, rest, hwhole, hwithin, hheight, h => by
      obtain ⟨-, hkind, hchildren, -⟩ := hwithin markup h.stands
      have hnew := h.create kind
      cases depth with
      | zero =>
          cases children with
          | nil =>
              refine ⟨.tree markup.size kind [], ?_, rfl, trivial, ?_⟩
              · rfl
              · rw [root, Markup.copyTo, hkind]
                exact hnew
          | cons child more =>
              rw [height, heightIn] at hheight
              omega
      | succ depth =>
          obtain ⟨copies, hshapes, hwholes, hgarden⟩ := copyFold children depth hwhole
            (fun markup hstand => (hwithin markup hstand).2.2.2) hheight hnew
          refine ⟨.tree markup.size kind copies, ?_, ?_, hwholes, ?_⟩
          · rfl
          · rw [shape, shape, hshapes]
          · rw [root, Markup.copyTo, hkind, hchildren]
            exact hgarden
  | .gap id kind, _, _, _, hwhole, _, _, _ => hwhole.elim

/-- Copies of the trees below a node come to stand below its copy. -/
theorem copyFold : ∀ (plots : List Plot) (depth : Nat) {markup : Markup} {rest done : List Plot}
    {copy : NodeId} {kind : NodeKind},
    AreWhole plots → (∀ markup, StandAll markup rest → StandAll markup plots) →
    heightIn plots ≤ depth + 1 → Garden markup (.tree copy kind done :: rest) →
    ∃ copies : List Plot, shapes copies = shapes plots ∧ AreWhole copies ∧
      Garden
        ((plots.map root).foldl
          (fun filled child =>
            let (filled, below) := Markup.copyTo filled depth child
            filled.append copy below)
          markup)
        (.tree copy kind (done ++ copies) :: rest)
  | [], _, _, _, done, _, _, _, _, _, h => ⟨[], rfl, trivial, by rw [List.append_nil]; exact h⟩
  | plot :: more, depth, markup, rest, done, copy, kind, hwhole, hwithin, hheight, h => by
      rw [heightIn] at hheight
      obtain ⟨first, hroot, hshape, hfirst, hgarden⟩ := copyTo plot depth hwhole.1
        (fun markup (hstand : StandAll markup (.tree copy kind done :: rest)) =>
          (hwithin markup hstand.2).1)
        (by omega) h
      have hput := (hgarden.perm (List.Perm.swap _ _ _)).append
      obtain ⟨copies, hshapes, hcopies, hmore⟩ := copyFold more depth hwhole.2
        (fun markup hstand => (hwithin markup hstand).2) (by omega) hput
      refine ⟨first :: copies, ?_, ⟨hfirst, hcopies⟩, ?_⟩
      · rw [shapes, shapes, hshape, hshapes]
      · rw [List.append_assoc, hroot] at hmore
        exact hmore

end

theorem copy (h : Garden markup rest) {plot : Plot} (hplot : plot ∈ rest) (hwhole : plot.IsWhole) :
    ∃ copy : Plot, copy.root = (markup.copy plot.root).2 ∧ copy.shape = plot.shape ∧
      copy.IsWhole ∧ Garden (markup.copy plot.root).1 (copy :: rest) :=
  copyTo plot markup.size hwhole (fun _ hstand => standAll_iff.mp hstand plot hplot)
    (Nat.le_of_lt (h.height_lt_size hplot)) h

/-! ## Filling in -/

mutual

theorem fillTo : ∀ (plot : Plot) (depth : Nat) {markup : Markup} {rest : List Plot},
    plot.IsWhole → plot.height < depth → Garden markup (plot :: rest) →
    Garden (Markup.fillTo pattern row markup depth plot.root) (plot.fill pattern row :: rest)
  | .tree id kind children, 0, _, _, _, hheight, _ => absurd hheight (Nat.not_lt_zero _)
  | .tree id kind children, depth + 1, markup, rest, hwhole, hheight, h => by
      obtain ⟨-, hkind, hchildren, -⟩ := h.stands.1
      have htop := (tree_iff.mp h).1.setKind (Template.fillKind pattern row)
      rw [root, Markup.fillTo, Plot.fill, hkind, hchildren]
      split
      · refine tree_iff.mpr ⟨?_, ?_⟩
        · refine cons_swap (fillFold children depth hwhole ?_ htop.swap_cons)
          exact Nat.le_of_lt_succ hheight
        · rw [Markup.children_foldl_fillTo, Markup.children_setKind, hchildren, roots_fillAll]
      · refine tree_iff.mpr ⟨htop, ?_⟩
        rw [Markup.children_setKind, hchildren]
  | .gap id kind, _, _, _, hwhole, _, _ => hwhole.elim

theorem fillFold : ∀ (plots : List Plot) (depth : Nat) {markup : Markup} {rest : List Plot},
    AreWhole plots → heightIn plots ≤ depth → Garden markup (plots ++ rest) →
    Garden
      ((plots.map root).foldl
        (fun filled child => Markup.fillTo pattern row filled depth child) markup)
      (fillAll pattern row plots ++ rest)
  | [], _, _, _, _, _, h => h
  | plot :: more, depth, markup, rest, hwhole, hheight, h => by
      rw [heightIn] at hheight
      have hfirst := fillTo plot depth hwhole.1 (by omega) h
      exact cons_swap (fillFold more depth hwhole.2 (by omega) hfirst.swap_cons)

end

end Garden

/-! ## Templates -/

theorem Shape.fillAll_eq_map (pattern : Pattern) (row : Row) (shapes : List Shape) :
    Shape.fillAll pattern row shapes = shapes.map (Shape.fill pattern row) := by
  induction shapes with
  | nil => rfl
  | cons shape more ih => rw [Shape.fillAll, ih, List.map_cons]

/-- The nodes of a template are tops of whole plots of the shapes that are expected of them. -/
def Rooted (form : NodeId → Shape) (plots : List Plot) (template : List NodeId) : Prop :=
  ∀ id ∈ template, ∃ plot ∈ plots, plot.IsWhole ∧ plot.root = id ∧ plot.shape = form id

theorem Rooted.mono {form : NodeId → Shape} {plots others : List Plot} {template : List NodeId}
    (h : Rooted form plots template) (hsub : plots ⊆ others) : Rooted form others template := by
  intro id hid
  obtain ⟨plot, hplot, hfacts⟩ := h id hid
  exact ⟨plot, hsub hplot, hfacts⟩

namespace Garden

variable {markup : Markup} {plots rest : List Plot} {form : NodeId → Shape}
  {template : List NodeId}

/-- What is made node by node from a template is made from the whole template. -/
theorem mapAccum {step : Markup → NodeId → Markup × NodeId} (made : Shape → Shape)
    (hstep : ∀ {markup : Markup} {rest : List Plot} {plot : Plot}, Garden markup rest →
      plot ∈ rest → plot.IsWhole → ∃ copy : Plot, copy.root = (step markup plot.root).2 ∧
        copy.shape = made plot.shape ∧ copy.IsWhole ∧
          Garden (step markup plot.root).1 (copy :: rest))
    {markup : Markup} {rest : List Plot} (h : Garden markup rest)
    (hroots : Rooted form rest template) :
    ∃ copies : List Plot, copies.map root = (ReactiveMarkup.mapAccum step markup template).2 ∧
      shapes copies = (template.map form).map made ∧ AreWhole copies ∧
        Garden (ReactiveMarkup.mapAccum step markup template).1 (copies ++ rest) := by
  induction template generalizing markup rest with
  | nil => exact ⟨[], rfl, rfl, trivial, h⟩
  | cons id more ih =>
      obtain ⟨plot, hplot, hwhole, rfl, hform⟩ := hroots id (by simp)
      obtain ⟨copy, hroot, hshape, hcopy, hgarden⟩ := hstep h hplot hwhole
      obtain ⟨copies, hcopies, hshapes, hwholes, hmore⟩ := ih hgarden
        (Rooted.mono (fun other hother => hroots other (by simp [hother]))
          (List.subset_cons_self _ _))
      refine ⟨copy :: copies, ?_, ?_, ⟨hcopy, hwholes⟩, cons_swap hmore⟩
      · rw [List.map_cons, hroot, hcopies, ReactiveMarkup.mapAccum]
      · rw [shapes, hshapes, hshape, hform]
        rfl

theorem copyAll (h : Garden markup rest) (hroots : Rooted form rest template) :
    ∃ copies : List Plot, copies.map root = (markup.copyAll template).2 ∧
      shapes copies = template.map form ∧ AreWhole copies ∧
        Garden (markup.copyAll template).1 (copies ++ rest) := by
  have hall := mapAccum id (fun h hplot hwhole => h.copy hplot hwhole) h hroots
  rwa [List.map_id] at hall

theorem substitute (pattern : Pattern) (row : Row) (h : Garden markup rest)
    (hroots : Rooted form rest template) :
    ∃ copies : List Plot, copies.map root = (markup.substitute template pattern row).2 ∧
      shapes copies = Shape.fillAll pattern row (template.map form) ∧ AreWhole copies ∧
        Garden (markup.substitute template pattern row).1 (copies ++ rest) := by
  rw [Shape.fillAll_eq_map]
  refine mapAccum _ (fun {markup rest plot} h hplot hwhole => ?_) h hroots
  obtain ⟨copy, hroot, hshape, hcopy, hgarden⟩ := h.copy hplot hwhole
  refine ⟨copy.fill pattern row, ?_, ?_, hcopy.fill, ?_⟩
  · rw [root_fill, hroot]
  · rw [shape_fill copy hcopy, hshape]
  · have hdone : Garden _ (copy.fill pattern row :: rest) := fillTo copy _ hcopy
      (hgarden.height_lt_size List.mem_cons_self) hgarden
    rw [hroot] at hdone
    exact hdone

end Garden

end ReactiveMarkup
