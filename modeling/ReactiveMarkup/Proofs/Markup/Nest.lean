import ReactiveMarkup.Proofs.Markup.Copies

/-!
# Nested content

Nested content goes into the first place of some plots in document order. The first place is found by
going through all nodes, and what hangs below it is thrown away before the new content comes, so it
does not matter what that was: it is enough that the plots stand up to the place. This is why the
plots of a row that was shown in an earlier pass can be used again although their place still holds
the rows of that pass.
-/

namespace ReactiveMarkup

open Plot

namespace Plot

/-! ## Places -/

mutual

/-- Whether a plot leaves nothing untold but the content of places. -/
def IsPlaced : Plot → Prop
  | .tree _ _ children => ArePlaced children
  | .gap _ kind => kind.isPlace = true

/-- Whether some plots leave nothing untold but the content of places. -/
def ArePlaced : List Plot → Prop
  | [] => True
  | plot :: rest => IsPlaced plot ∧ ArePlaced rest

end

mutual

theorem isSome_place? : ∀ plot : Plot, plot.place?.isSome = plot.shape.hasPlace
  | .tree id kind children => by
      rw [place?, shape, Shape.hasPlace]
      split
      · next h => rw [h, Bool.true_or, Option.isSome_some]
      · next h => rw [isSome_placeIn? children, Bool.eq_false_iff.mpr h, Bool.false_or]
  | .gap id kind => by
      rw [place?, shape, Shape.hasPlace, Shape.havePlace, Bool.or_false]
      cases kind.isPlace <;> rfl

theorem isSome_placeIn? : ∀ plots : List Plot,
    (placeIn? plots).isSome = Shape.havePlace (shapes plots)
  | [] => rfl
  | plot :: rest => by
      rw [placeIn?, shapes, Shape.havePlace, Option.isSome_or, isSome_place? plot,
        isSome_placeIn? rest]

end

section Swap

variable {put : NodeId → Plot}

theorem root_swap (hput : ∀ id, (put id).root = id) (plot : Plot) : (swap put plot).root = plot.root := by
  cases plot with
  | tree id kind children =>
      rw [swap]
      split
      · exact hput id
      · rfl
  | gap id kind =>
      rw [swap]
      split
      · exact hput id
      · rfl

theorem roots_swapIn (hput : ∀ id, (put id).root = id) (plots : List Plot) :
    (swapIn put plots).map root = plots.map root := by
  induction plots with
  | nil => rfl
  | cons plot rest ih =>
      rw [swapIn]
      split
      · rw [List.map_cons, List.map_cons, root_swap hput]
      · rw [List.map_cons, List.map_cons, ih]

mutual

theorem place_mem_ids (hput : ∀ id, (put id).root = id) :
    ∀ (plot : Plot) {id : NodeId}, plot.place? = some id → id ∈ (swap put plot).ids
  | .tree root kind children, id, h => by
      rw [place?] at h
      rw [swap]
      split at h
      · next hplace =>
          rw [if_pos hplace, ids_eq, hput, Option.some.inj h]
          exact List.mem_cons_self
      · next hplace =>
          rw [if_neg hplace, ids]
          exact List.mem_cons_of_mem _ (place_mem_idsIn hput children h)
  | .gap root kind, id, h => by
      rw [place?] at h
      rw [swap]
      split at h
      · next hplace =>
          rw [if_pos hplace, ids_eq, hput, Option.some.inj h]
          exact List.mem_cons_self
      · cases h

theorem place_mem_idsIn (hput : ∀ id, (put id).root = id) :
    ∀ (plots : List Plot) {id : NodeId}, placeIn? plots = some id → id ∈ idsIn (swapIn put plots)
  | [], _, h => by cases h
  | plot :: rest, id, h => by
      rw [placeIn?] at h
      rw [swapIn]
      cases hplace : plot.place? with
      | some found =>
          rw [hplace] at h
          rw [Option.isSome_some, if_pos rfl]
          exact List.mem_append_left _ (place_mem_ids hput plot (hplace.trans h))
      | none =>
          rw [hplace] at h
          rw [if_neg (by simp)]
          exact List.mem_append_right _ (place_mem_idsIn hput rest h)

end

mutual

theorem stands_swap_iff {markup : Markup} (hput : ∀ id, (put id).root = id)
    (hgap : ∀ id, Stands markup (put id) → Stands markup (hole id)) :
    ∀ plot : Plot, Stands markup (swap put plot) ↔
      Stands markup (swap hole plot) ∧
        ∀ id ∈ plot.place?, Stands markup (put id)
  | .tree root kind children => by
      rw [swap, swap, place?]
      split
      · exact ⟨fun h => ⟨hgap _ h, fun id hid => Option.some.inj hid ▸ h⟩, fun h => h.2 root rfl⟩
      · rw [Stands, Stands, standAll_swapIn_iff hput hgap children, roots_swapIn hput,
          roots_swapIn fun _ => rfl]
        exact ⟨fun ⟨hlt, hkind, hchildren, hall, hid⟩ => ⟨⟨hlt, hkind, hchildren, hall⟩, hid⟩,
          fun ⟨⟨hlt, hkind, hchildren, hall⟩, hid⟩ => ⟨hlt, hkind, hchildren, hall, hid⟩⟩
  | .gap root kind => by
      rw [swap, swap, place?]
      split
      · exact ⟨fun h => ⟨hgap _ h, fun id hid => Option.some.inj hid ▸ h⟩, fun h => h.2 root rfl⟩
      · exact ⟨fun h => ⟨h, fun id hid => by cases hid⟩, fun h => h.1⟩

theorem standAll_swapIn_iff {markup : Markup} (hput : ∀ id, (put id).root = id)
    (hgap : ∀ id, Stands markup (put id) → Stands markup (hole id)) :
    ∀ plots : List Plot, StandAll markup (swapIn put plots) ↔
      StandAll markup (openIn plots) ∧ ∀ id ∈ placeIn? plots, Stands markup (put id)
  | [] => ⟨fun h => ⟨h, fun id hid => by cases hid⟩, fun h => h.1⟩
  | plot :: rest => by
      rw [openIn, swapIn, swapIn, placeIn?]
      cases hplace : plot.place? with
      | some found =>
          rw [Option.isSome_some, if_pos rfl, if_pos rfl, StandAll, StandAll, stands_swap_iff hput hgap plot, hplace]
          exact ⟨fun ⟨⟨hplot, hid⟩, hrest⟩ => ⟨⟨hplot, hrest⟩, hid⟩,
            fun ⟨⟨hplot, hrest⟩, hid⟩ => ⟨⟨hplot, hid⟩, hrest⟩⟩
      | none =>
          rw [if_neg (by simp), if_neg (by simp), StandAll, StandAll,
            standAll_swapIn_iff hput hgap rest, Option.none_or, ← openIn, and_assoc]

end

mutual

theorem ids_swap_perm (hput : ∀ id, (put id).root = id) : ∀ plot : Plot, (swap put plot).ids.Perm
    ((swap hole plot).ids ++
      (plot.place?.toList.flatMap fun id => (put id).inner))
  | .tree root kind children => by
      rw [swap, swap, place?]
      split
      · rw [ids_eq, hput]
        simp [hole, ids]
      · exact (idsIn_swapIn_perm hput children).cons root
  | .gap root kind => by
      rw [swap, swap, place?]
      split
      · rw [ids_eq, hput]
        simp [hole, ids]
      · simp

theorem idsIn_swapIn_perm (hput : ∀ id, (put id).root = id) : ∀ plots : List Plot,
    (idsIn (swapIn put plots)).Perm
    (idsIn (openIn plots) ++ ((placeIn? plots).toList.flatMap fun id => (put id).inner))
  | [] => List.Perm.refl _
  | plot :: rest => by
      rw [openIn, swapIn, swapIn, placeIn?]
      cases hplace : plot.place? with
      | some found =>
          have hplot := ids_swap_perm hput plot
          rw [hplace] at hplot
          rw [Option.isSome_some, if_pos rfl, if_pos rfl, idsIn, idsIn, List.append_assoc]
          refine (hplot.append_right _).trans ?_
          rw [List.append_assoc]
          exact List.perm_append_comm.append_left _
      | none =>
          rw [if_neg (by simp), if_neg (by simp), idsIn, idsIn, Option.none_or, List.append_assoc]
          exact (idsIn_swapIn_perm hput rest).append_left _

end

end Swap

mutual

theorem place_not_mem_told : ∀ (plot : Plot) {id : NodeId}, plot.place? = some id →
    (swap hole plot).ids.Nodup →
    id ∉ (swap hole plot).told
  | .tree root kind children, id, h, hnodup => by
      rw [place?] at h
      rw [swap] at hnodup ⊢
      split at h
      · next hplace =>
          rw [if_pos hplace, hole, told]
          exact List.not_mem_nil
      · next hplace =>
          rw [if_neg hplace] at hnodup ⊢
          rw [ids, List.nodup_cons] at hnodup
          rw [told, List.mem_cons]
          rintro (rfl | hin)
          · exact hnodup.1 (place_mem_idsIn (fun _ => rfl) children h)
          · exact place_not_mem_toldIn children h hnodup.2 hin
  | .gap root kind, id, h, _ => by
      rw [swap]
      split
      all_goals
        first | rw [hole, told] | rw [told]
        exact List.not_mem_nil

theorem place_not_mem_toldIn : ∀ (plots : List Plot) {id : NodeId}, placeIn? plots = some id →
    (idsIn (openIn plots)).Nodup → id ∉ toldIn (openIn plots)
  | [], _, h, _ => by cases h
  | plot :: rest, id, h, hnodup => by
      rw [placeIn?] at h
      rw [openIn, swapIn] at hnodup ⊢
      cases hplace : plot.place? with
      | some found =>
          rw [hplace] at h hnodup
          rw [Option.isSome_some, if_pos rfl] at hnodup ⊢
          rw [idsIn, List.nodup_append] at hnodup
          rw [toldIn, List.mem_append]
          rintro (hin | hin)
          · exact place_not_mem_told plot (hplace.trans h) hnodup.1 hin
          · exact hnodup.2.2 id (place_mem_ids (fun _ => rfl) plot (hplace.trans h)) id
              (toldIn_subset_idsIn rest hin) rfl
      | none =>
          rw [hplace] at h hnodup
          rw [if_neg (by simp)] at hnodup ⊢
          rw [idsIn, List.nodup_append] at hnodup
          rw [toldIn, List.mem_append]
          rintro (hin | hin)
          · exact hnodup.2.2 id (told_subset_ids plot hin) id
              (place_mem_idsIn (fun _ => rfl) rest h) rfl
          · exact place_not_mem_toldIn rest h hnodup.2.1 hin

end

/-! ## Opening and planting -/

theorem roots_openIn (plots : List Plot) : (openIn plots).map root = plots.map root :=
  roots_swapIn (fun _ => rfl) plots

theorem roots_plantIn (nested plots : List Plot) : (plantIn nested plots).map root = plots.map root :=
  roots_swapIn (fun _ => rfl) plots

mutual

theorem IsWhole.isPlaced : ∀ {plot : Plot}, plot.IsWhole → plot.IsPlaced
  | .tree _ _ _, h => AreWhole.arePlaced h
  | .gap _ _, h => h.elim

theorem AreWhole.arePlaced : ∀ {plots : List Plot}, AreWhole plots → ArePlaced plots
  | [], _ => trivial
  | _ :: _, h => ⟨IsWhole.isPlaced h.1, AreWhole.arePlaced h.2⟩

end

mutual

theorem IsWhole.isPlaced_swap : ∀ {plot : Plot}, plot.IsWhole → (swap hole plot).IsPlaced
  | .tree root kind children, h => by
      rw [swap]
      split
      · rfl
      · exact AreWhole.arePlaced_openIn h
  | .gap _ _, h => h.elim

theorem AreWhole.arePlaced_openIn : ∀ {plots : List Plot}, AreWhole plots →
    ArePlaced (openIn plots)
  | [], _ => trivial
  | plot :: rest, h => by
      rw [openIn, swapIn]
      split
      · exact ⟨IsWhole.isPlaced_swap h.1, AreWhole.arePlaced h.2⟩
      · exact ⟨IsWhole.isPlaced h.1, AreWhole.arePlaced_openIn h.2⟩

end

mutual

theorem place?_swap : ∀ plot : Plot, (swap hole plot).place? = plot.place?
  | .tree root kind children => by
      rw [swap, place?]
      split
      · rfl
      · next h => rw [place?, if_neg h, ← openIn, placeIn?_openIn children]
  | .gap root kind => by
      rw [swap, place?]
      split
      · rfl
      · next h => rw [place?, if_neg h]

theorem placeIn?_openIn : ∀ plots : List Plot, placeIn? (openIn plots) = placeIn? plots
  | [] => rfl
  | plot :: rest => by
      rw [openIn, swapIn]
      split
      · rw [placeIn?, placeIn?, place?_swap plot]
      · rw [placeIn?, placeIn?, ← openIn, placeIn?_openIn rest]

end

mutual

theorem IsWhole.swap {put : NodeId → Plot} (hput : ∀ id, (put id).IsWhole) :
    ∀ {plot : Plot}, plot.IsWhole → (Plot.swap put plot).IsWhole
  | .tree root kind children, h => by
      rw [Plot.swap]
      split
      · exact hput root
      · exact AreWhole.swapIn hput h
  | .gap _ _, h => h.elim

theorem AreWhole.swapIn {put : NodeId → Plot} (hput : ∀ id, (put id).IsWhole) :
    ∀ {plots : List Plot}, AreWhole plots → AreWhole (swapIn put plots)
  | [], _ => trivial
  | plot :: rest, h => by
      rw [Plot.swapIn]
      split
      · exact ⟨IsWhole.swap hput h.1, h.2⟩
      · exact ⟨h.1, AreWhole.swapIn hput h.2⟩

end

mutual

theorem shape_plant (nested : List Plot) : ∀ plot : Plot,
    (swap (.tree · (.anchor Template.childAnchor) nested) plot).shape =
      plot.shape.plant (shapes nested)
  | .tree root kind children => by
      rw [swap, shape, Shape.plant]
      split
      · next h => rw [shape, NodeKind.isPlace_iff.mp h]
      · rw [shape, ← plantIn, shapes_plantIn nested children]
  | .gap root kind => by
      rw [swap, shape, Shape.plant]
      split
      · next h => rw [shape, NodeKind.isPlace_iff.mp h]
      · rw [shape, Shape.plantIn]

theorem shapes_plantIn (nested : List Plot) : ∀ plots : List Plot,
    shapes (plantIn nested plots) = Shape.plantIn (shapes nested) (shapes plots)
  | [] => rfl
  | plot :: rest => by
      rw [plantIn, swapIn, shapes, Shape.plantIn, isSome_place? plot]
      split
      · rw [shapes, shape_plant nested plot]
      · rw [shapes, ← plantIn, shapes_plantIn nested rest]

end

theorem standAll_planted_iff {markup : Markup} (nested plots : List Plot) :
    StandAll markup (plantIn nested plots) ↔ StandAll markup (openIn plots) ∧
      ∀ id ∈ placeIn? plots, Stands markup (.tree id (.anchor Template.childAnchor) nested) :=
  standAll_swapIn_iff (fun _ => rfl)
    (fun id (h : Stands markup (.tree id (.anchor Template.childAnchor) nested)) => ⟨h.1, h.2.1⟩)
    plots

theorem idsIn_planted_perm {nested plots : List Plot} {place : NodeId}
    (h : placeIn? plots = some place) :
    (idsIn (plantIn nested plots)).Perm (idsIn (openIn plots) ++ idsIn nested) := by
  have hperm := idsIn_swapIn_perm
    (fun _ => rfl : ∀ id, (Plot.tree id (.anchor Template.childAnchor) nested).root = id) plots
  rwa [h, Option.toList_some, List.flatMap_singleton] at hperm

/-- Plots with other ones nested in them: in their first place, or behind them when they have none. -/
def nest (plots nested : List Plot) : List Plot :=
  if (placeIn? plots).isSome then plantIn nested plots else plots ++ nested

theorem shapes_nest (plots nested : List Plot) :
    shapes (nest plots nested) = Shape.nest (shapes plots) (shapes nested) := by
  rw [nest, Shape.nest, isSome_placeIn? plots]
  split
  · exact shapes_plantIn nested plots
  · exact shapes_append plots nested

theorem AreWhole.nest {plots nested : List Plot} (h : AreWhole plots) (hnested : AreWhole nested) :
    AreWhole (nest plots nested) := by
  rw [Plot.nest]
  split
  · have hput : ∀ id, (Plot.tree id (.anchor Template.childAnchor) nested).IsWhole :=
      fun _ => hnested
    exact AreWhole.swapIn hput h
  · exact h.append hnested

theorem swapIn_of_none (put : NodeId → Plot) : ∀ {plots : List Plot}, placeIn? plots = none →
    swapIn put plots = plots
  | [], _ => rfl
  | plot :: rest, h => by
      rw [placeIn?, Option.or_eq_none_iff] at h
      rw [swapIn, h.1, if_neg (by simp), swapIn_of_none put h.2]

theorem openIn_of_none {plots : List Plot} (h : placeIn? plots = none) : openIn plots = plots :=
  swapIn_of_none hole h

mutual

theorem Stands.opened {markup : Markup} : ∀ {plot : Plot}, Stands markup plot →
    Stands markup (Plot.swap hole plot)
  | .tree root kind children, h => by
      rw [Plot.swap]
      split
      · next hplace => exact ⟨h.1, h.2.1.trans (NodeKind.isPlace_iff.mp hplace)⟩
      · exact ⟨h.1, h.2.1, h.2.2.1.trans (roots_openIn children).symm,
          StandAll.opened h.2.2.2⟩
  | .gap root kind, h => by
      rw [Plot.swap]
      split
      · next hplace => exact ⟨h.1, h.2.trans (NodeKind.isPlace_iff.mp hplace)⟩
      · exact h

theorem StandAll.opened {markup : Markup} : ∀ {plots : List Plot}, StandAll markup plots →
    StandAll markup (openIn plots)
  | [], h => h
  | plot :: rest, h => by
      rw [openIn, swapIn]
      split
      · exact ⟨Stands.opened h.1, h.2⟩
      · exact ⟨h.1, StandAll.opened h.2⟩

end

mutual

theorem ids_opened_sublist : ∀ plot : Plot, (swap hole plot).ids.Sublist plot.ids
  | .tree root kind children => by
      rw [swap, ids]
      split
      · exact (List.nil_sublist _).cons_cons root
      · exact (idsIn_openIn_sublist children).cons_cons root
  | .gap root kind => by
      rw [swap]
      split
      · exact List.Sublist.refl _
      · exact List.Sublist.refl _

theorem idsIn_openIn_sublist : ∀ plots : List Plot, (idsIn (openIn plots)).Sublist (idsIn plots)
  | [] => List.Sublist.refl _
  | plot :: rest => by
      rw [openIn, swapIn]
      split
      · exact (ids_opened_sublist plot).append (List.Sublist.refl _)
      · exact (List.Sublist.refl _).append (idsIn_openIn_sublist rest)

end

end Plot

namespace Covers

/-- What is nested in plots can be left out of account. -/
theorem openIn (plots : List Plot) : Covers plots (Plot.openIn plots) := by
  intro markup rest h
  obtain ⟨hplots, hrest⟩ := standAll_append.mp h.stands
  refine ⟨standAll_append.mpr ⟨hplots.opened, hrest⟩, h.apart.sublist ?_⟩
  rw [idsIn_append, idsIn_append]
  exact (idsIn_openIn_sublist plots).append (List.Sublist.refl _)

/-- Plots and what is nested in them stand as well on their own. -/
theorem nest (plots nested : List Plot) :
    Covers (Plot.nest plots nested) (Plot.openIn plots ++ nested) := by
  rw [Plot.nest]
  cases hplace : placeIn? plots with
  | none =>
      rw [if_neg (by simp), openIn_of_none hplace]
      exact Covers.refl _
  | some place =>
      rw [Option.isSome_some, if_pos rfl]
      intro markup rest h
      obtain ⟨hall, hrest⟩ := standAll_append.mp h.stands
      obtain ⟨hopen, hput⟩ := (standAll_planted_iff nested plots).mp hall
      refine ⟨?_, ?_⟩
      · exact standAll_append.mpr ⟨standAll_append.mpr ⟨hopen, (hput place hplace).2.2.2⟩, hrest⟩
      · have hids := h.apart
        rw [idsIn_append] at hids ⊢
        refine (List.Perm.nodup_iff ?_).mp hids
        rw [idsIn_append]
        exact (idsIn_planted_perm hplace).append_right _

end Covers

/-! ## Finding the place -/

namespace Plot

mutual

/-- Going through a plot that leaves nothing untold before its first place finds that place. -/
theorem find?_nodesTo {markup : Markup} : ∀ (plot : Plot) {depth : Nat}, Stands markup plot →
    plot.IsPlaced → plot.height < depth →
    (markup.nodesTo depth plot.root).find? (fun node => (markup.kind node).isPlace) = plot.place?
  | _, 0, _, _, hdepth => absurd hdepth (Nat.not_lt_zero _)
  | .tree id kind children, depth + 1, h, hplaced, hdepth => by
      obtain ⟨-, hkind, hchildren, hall⟩ := h
      rw [root, Markup.nodesTo, place?, List.find?_cons, hkind]
      cases hplace : kind.isPlace with
      | true => rfl
      | false =>
          rw [hchildren, if_neg Bool.false_ne_true]
          exact find?_flatMap_nodesTo children hall hplaced (Nat.le_of_lt_succ hdepth)
  | .gap id kind, depth + 1, h, hplaced, _ => by
      have hplace : kind.isPlace = true := hplaced
      rw [root, Markup.nodesTo, place?, List.find?_cons, h.2, hplace]
      rfl

theorem find?_flatMap_nodesTo {markup : Markup} : ∀ (plots : List Plot) {depth : Nat},
    StandAll markup plots → ArePlaced plots → heightIn plots ≤ depth →
    ((plots.map root).flatMap (markup.nodesTo depth)).find?
      (fun node => (markup.kind node).isPlace) = placeIn? plots
  | [], _, _, _, _ => rfl
  | plot :: rest, depth, h, hplaced, hdepth => by
      rw [heightIn] at hdepth
      rw [List.map_cons, List.flatMap_cons, List.find?_append, placeIn?,
        find?_nodesTo plot h.1 hplaced.1 (by omega),
        find?_flatMap_nodesTo rest h.2 hplaced.2 (by omega)]

end

end Plot

namespace Garden

variable {markup : Markup} {plots nested rest : List Plot}

theorem childAnchor? (h : Garden markup plots) (hplaced : ArePlaced plots) :
    markup.childAnchor? (plots.map root) = placeIn? plots := by
  induction plots with
  | nil => rfl
  | cons plot more ih =>
      have hplot : markup.findAnchor? plot.root Template.childAnchor = plot.place? :=
        find?_nodesTo plot h.stands.1 hplaced.1 (h.height_lt_size List.mem_cons_self)
      have hmore := ih h.tail hplaced.2
      rw [Markup.childAnchor?] at hmore ⊢
      rw [List.map_cons, List.findSome?_cons, hplot, hmore, placeIn?]
      cases plot.place? <;> rfl

/-- The first place of some plots is told as a place, and its children are not told. -/
theorem place_facts {place : NodeId} (h : Garden markup (openIn plots ++ rest))
    (hplace : placeIn? plots = some place) :
    Stands markup (hole place) ∧ place ∉ toldIn (openIn plots ++ rest) := by
  have hself := (standAll_swapIn_iff (fun _ => rfl) (fun _ hstand => hstand) plots).mp
    h.left.stands
  refine ⟨hself.2 place hplace, ?_⟩
  have hapart := h.apart
  rw [idsIn_append, List.nodup_append] at hapart
  rw [toldIn_eq_flatMap, List.flatMap_append, ← toldIn_eq_flatMap, ← toldIn_eq_flatMap,
    List.mem_append]
  rintro (hin | hin)
  · exact place_not_mem_toldIn plots hplace hapart.1 hin
  · exact hapart.2.2 place (place_mem_idsIn (fun _ => rfl) plots hplace) place
      (toldIn_subset_idsIn _ hin) rfl

/-- Trees come to stand in the first place of opened plots. -/
theorem plant {place : NodeId} (hplace : placeIn? plots = some place)
    (h : Garden markup (openIn plots ++ (nested ++ rest))) :
    Garden (markup.replaceChildren place (nested.map root)) (plantIn nested plots ++ rest) := by
  obtain ⟨⟨hlt, hkind⟩, hnot⟩ := h.place_facts hplace
  have hsame : Garden (markup.replaceChildren place (nested.map root))
      (openIn plots ++ (nested ++ rest)) := by
    refine h.frame (Nat.le_of_eq (Markup.size_replaceChildren place _).symm)
      (fun other _ => Markup.kind_replaceChildren place other _) (fun other hother => ?_)
    refine Markup.children_replaceChildren_of_ne (fun heq => hnot (heq ▸ hother)) ?_
    intro node hnode
    obtain ⟨plot, hplot, rfl⟩ := List.mem_map.mp hnode
    exact h.root_not_mem_children (by simp [hplot]) other hother
  obtain ⟨hopen, hbehind⟩ := standAll_append.mp hsame.stands
  obtain ⟨hnested, hrest⟩ := standAll_append.mp hbehind
  refine ⟨standAll_append.mpr ⟨(standAll_planted_iff nested plots).mpr ⟨hopen, ?_⟩, hrest⟩, ?_⟩
  · intro id hid
    obtain rfl : place = id := Option.some.inj (hplace.symm.trans hid)
    refine ⟨?_, ?_, ?_, hnested⟩
    · rw [Markup.size_replaceChildren]
      exact hlt
    · rw [Markup.kind_replaceChildren, hkind]
    · exact Markup.children_replaceChildren_self hlt h.right.left.roots_nodup
  · have hapart := h.apart
    rw [idsIn_append, idsIn_append, ← List.append_assoc] at hapart
    rw [idsIn_append]
    exact ((idsIn_planted_perm hplace).append_right _).nodup_iff.mpr hapart

/-- Nesting trees in opened plots. -/
theorem nest (hwhole : AreWhole plots) (h : Garden markup (openIn plots ++ (nested ++ rest))) :
    (markup.nest (plots.map root) (nested.map root)).2 = (Plot.nest plots nested).map root ∧
      Garden (markup.nest (plots.map root) (nested.map root)).1
        (Plot.nest plots nested ++ rest) := by
  have hfound : markup.childAnchor? (plots.map root) = placeIn? plots := by
    have hopen := h.left.childAnchor? hwhole.arePlaced_openIn
    rwa [roots_openIn, placeIn?_openIn] at hopen
  rw [Markup.nest, hfound, Plot.nest]
  cases hplace : placeIn? plots with
  | none =>
      rw [if_neg (by simp), List.map_append]
      rw [openIn_of_none hplace] at h
      exact ⟨rfl, by rw [List.append_assoc]; exact h⟩
  | some place =>
      rw [Option.isSome_some, if_pos rfl, roots_plantIn]
      exact ⟨rfl, h.plant hplace⟩

end Garden

end ReactiveMarkup
