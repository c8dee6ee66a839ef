import ReactiveMarkup.Proofs.Markup.Copies

/-!
# What plots show

The HTML of a node is written from the fragment below it, and the fragment of a whole plot is that of
its shape. So two forests in which plots of the same shapes stand show the same.
-/

namespace ReactiveMarkup

open Plot

namespace Markup

/-- The shape of a node down to a depth. -/
def shapeTo (markup : Markup) : Nat → NodeId → Shape
  | 0, id => .node (markup.kind id) []
  | depth + 1, id => .node (markup.kind id) ((markup.children id).map (shapeTo markup depth))

def shape (markup : Markup) (id : NodeId) : Shape := markup.shapeTo markup.size id

end Markup

namespace Plot

mutual

theorem fragmentTo_eq {markup : Markup} : ∀ {plot : Plot} {depth : Nat}, Stands markup plot →
    plot.IsWhole → plot.height < depth →
    markup.fragmentTo depth plot.root = plot.shape.fragment
  | _, 0, _, _, hdepth => absurd hdepth (Nat.not_lt_zero _)
  | .tree id kind children, depth + 1, ⟨_, hkind, hchildren, hall⟩, hwhole, hdepth => by
      have hbelow := fragmentsTo_eq hall hwhole (Nat.le_of_lt_succ hdepth)
      rw [root, Markup.fragmentTo, hkind, hchildren, hbelow, shape]
      cases kind <;> rfl
  | .gap _ _, _ + 1, _, hwhole, _ => hwhole.elim

theorem fragmentsTo_eq {markup : Markup} : ∀ {plots : List Plot} {depth : Nat},
    StandAll markup plots → AreWhole plots → heightIn plots ≤ depth →
    (plots.map root).map (markup.fragmentTo depth) = Shape.fragments (shapes plots)
  | [], _, _, _, _ => rfl
  | plot :: rest, depth, h, hwhole, hdepth => by
      rw [heightIn] at hdepth
      rw [List.map_cons, List.map_cons, shapes, Shape.fragments,
        fragmentTo_eq h.1 hwhole.1 (by omega), fragmentsTo_eq h.2 hwhole.2 (by omega)]

end

mutual

theorem shapeTo_eq {markup : Markup} : ∀ {plot : Plot} {depth : Nat}, Stands markup plot →
    plot.IsWhole → plot.height ≤ depth → markup.shapeTo depth plot.root = plot.shape
  | .tree id kind [], 0, ⟨_, hkind, _, _⟩, _, _ => by
      rw [root, Markup.shapeTo, hkind]
      rfl
  | .tree _ _ (_ :: _), 0, _, _, hdepth => by
      rw [height, heightIn] at hdepth
      omega
  | .tree id kind children, depth + 1, ⟨_, hkind, hchildren, hall⟩, hwhole, hdepth => by
      rw [root, Markup.shapeTo, hkind, hchildren, shapesTo_eq hall hwhole hdepth, shape]
  | .gap _ _, _, _, hwhole, _ => hwhole.elim

theorem shapesTo_eq {markup : Markup} : ∀ {plots : List Plot} {depth : Nat},
    StandAll markup plots → AreWhole plots → heightIn plots ≤ depth + 1 →
    (plots.map root).map (markup.shapeTo depth) = shapes plots
  | [], _, _, _, _ => rfl
  | plot :: rest, depth, h, hwhole, hdepth => by
      rw [heightIn] at hdepth
      rw [List.map_cons, List.map_cons, shapes, shapeTo_eq h.1 hwhole.1 (by omega),
        shapesTo_eq h.2 hwhole.2 (by omega)]

end

mutual

theorem ids_subset_nodesTo {markup : Markup} : ∀ {plot : Plot} {depth : Nat}, Stands markup plot →
    plot.height < depth → plot.ids ⊆ markup.nodesTo depth plot.root
  | _, 0, _, hdepth => absurd hdepth (Nat.not_lt_zero _)
  | .tree id kind children, depth + 1, ⟨_, _, hchildren, hall⟩, hdepth => by
      rw [root, Markup.nodesTo, hchildren, ids]
      exact List.cons_subset_cons _ (idsIn_subset_nodesTo hall (Nat.le_of_lt_succ hdepth))
  | .gap id kind, depth + 1, _, _ => by
      rw [root, Markup.nodesTo, ids]
      exact List.cons_subset_cons _ (List.nil_subset _)

theorem idsIn_subset_nodesTo {markup : Markup} : ∀ {plots : List Plot} {depth : Nat},
    StandAll markup plots → heightIn plots ≤ depth →
    idsIn plots ⊆ (plots.map root).flatMap (markup.nodesTo depth)
  | [], _, _, _ => List.nil_subset _
  | plot :: rest, depth, h, hdepth => by
      rw [heightIn] at hdepth
      rw [idsIn, List.map_cons, List.flatMap_cons]
      exact List.append_subset.mpr
        ⟨List.Subset.trans (ids_subset_nodesTo h.1 (by omega)) (List.subset_append_left _ _),
          List.Subset.trans (idsIn_subset_nodesTo h.2 (by omega)) (List.subset_append_right _ _)⟩

end

mutual

theorem nodesTo_eq {markup : Markup} : ∀ {plot : Plot} {depth : Nat}, Stands markup plot →
    plot.IsWhole → plot.height < depth → markup.nodesTo depth plot.root = plot.ids
  | _, 0, _, _, hdepth => absurd hdepth (Nat.not_lt_zero _)
  | .tree id kind children, depth + 1, ⟨_, _, hchildren, hall⟩, hwhole, hdepth => by
      rw [root, Markup.nodesTo, hchildren, ids,
        flatMap_nodesTo_eq hall hwhole (Nat.le_of_lt_succ hdepth)]
  | .gap _ _, _ + 1, _, hwhole, _ => hwhole.elim

theorem flatMap_nodesTo_eq {markup : Markup} : ∀ {plots : List Plot} {depth : Nat},
    StandAll markup plots → AreWhole plots → heightIn plots ≤ depth →
    (plots.map root).flatMap (markup.nodesTo depth) = idsIn plots
  | [], _, _, _, _ => rfl
  | plot :: rest, depth, h, hwhole, hdepth => by
      rw [heightIn] at hdepth
      rw [List.map_cons, List.flatMap_cons, idsIn, nodesTo_eq h.1 hwhole.1 (by omega),
        flatMap_nodesTo_eq h.2 hwhole.2 (by omega)]

end

end Plot

namespace Garden

variable {markup : Markup} {plots rest : List Plot}

/-- Everything a plot tells is found below its top. -/
theorem ids_subset_nodes (h : Garden markup plots) {plot : Plot} (hplot : plot ∈ plots) :
    plot.ids ⊆ markup.nodes plot.root :=
  ids_subset_nodesTo (standAll_iff.mp h.stands plot hplot) (h.height_lt_size hplot)

theorem shape_eq (h : Garden markup plots) {plot : Plot} (hplot : plot ∈ plots)
    (hwhole : plot.IsWhole) : markup.shape plot.root = plot.shape :=
  shapeTo_eq (standAll_iff.mp h.stands plot hplot) hwhole (Nat.le_of_lt (h.height_lt_size hplot))

theorem fragment_eq (h : Garden markup plots) {plot : Plot} (hplot : plot ∈ plots)
    (hwhole : plot.IsWhole) : markup.fragment plot.root = plot.shape.fragment :=
  fragmentTo_eq (standAll_iff.mp h.stands plot hplot) hwhole (h.height_lt_size hplot)

theorem heightIn_le_size (h : Garden markup plots) : heightIn plots ≤ markup.size := by
  have hall : ∀ plot ∈ plots, plot.height < markup.size := fun plot hplot => h.height_lt_size hplot
  clear h
  induction plots with
  | nil => exact Nat.zero_le _
  | cons plot more ih =>
      rw [heightIn]
      exact Nat.max_le.mpr ⟨hall plot (by simp), ih fun other hother => hall other (by simp [hother])⟩

theorem fragments_eq (h : Garden markup plots) (hwhole : AreWhole plots) :
    (plots.map root).map markup.fragment = Shape.fragments (shapes plots) :=
  fragmentsTo_eq h.stands hwhole h.heightIn_le_size

/-- The nodes below the tops of whole plots are those of the plots. -/
theorem nodes_eq (h : Garden markup plots) (hwhole : AreWhole plots) :
    (plots.map root).flatMap markup.nodes = idsIn plots :=
  flatMap_nodesTo_eq h.stands hwhole h.heightIn_le_size

theorem shapes_eq (h : Garden markup plots) (hwhole : AreWhole plots) :
    (plots.map root).map markup.shape = shapes plots := by
  rw [shapes_eq_map, List.map_map]
  exact List.map_congr_left fun plot hplot =>
    h.shape_eq hplot (areWhole_iff.mp hwhole plot hplot)

/-- Tops of whole plots are a template of the shapes they have. -/
theorem rooted_shape (h : Garden markup plots) {template : List NodeId}
    (htemplate : ∀ id ∈ template, ∃ plot ∈ plots, plot.IsWhole ∧ plot.root = id) :
    Rooted markup.shape plots template := by
  intro id hid
  obtain ⟨plot, hplot, hwhole, rfl⟩ := htemplate id hid
  exact ⟨plot, hplot, hwhole, rfl, (h.shape_eq hplot hwhole).symm⟩

/-- Where the plots stand that a template belongs to, its nodes have the shapes that are expected. -/
theorem shape_template (h : Garden markup plots) {form : NodeId → Shape} {template : List NodeId}
    (hroots : Rooted form plots template) : ∀ id ∈ template, markup.shape id = form id := by
  intro id hid
  obtain ⟨plot, hplot, hwhole, rfl, hform⟩ := hroots id hid
  rw [h.shape_eq hplot hwhole, hform]

theorem html_eq (h : Garden markup plots) (hwhole : AreWhole plots) :
    markup.html (plots.map root) = Fragment.html (Shape.fragments (shapes plots)) := by
  rw [Markup.html, h.fragments_eq hwhole]

end Garden

end ReactiveMarkup
