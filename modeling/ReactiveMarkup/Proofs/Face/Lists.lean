import ReactiveMarkup.Proofs.Face.Underway

/-!
# Lists

A list goes over the rows of its source once. `Laid` says what comes of it without a pass: which rows are
left out, which face each of the others has, and where a divider stands. The three hang together, since a
row that is left out does not count for those behind it.

The nodes are told by plots. `Picked` nodes are the tops of some of the plots that a part of a pass gives,
so they stay what they are while the pass goes on. Copies of a template consist of nodes that were not
there when the pass began, because nothing in a list touches a node that was.
-/

namespace ReactiveMarkup

open Plot Pot

/-! ## What is laid out -/

/-- A row of a list, with the divider before it if there is one. -/
structure ListedRow where
  index : Nat
  face : ResolvedFace
  rendering : Rendering
  divider : Option (List NodeId)

/-- The nodes that a row of a list comes to. -/
def ListedRow.output (row : ListedRow) : List NodeId := row.divider.getD [] ++ row.rendering.nodes

/-- Rows laid out one after another, a number of rows having been shown before. A row that no face fits
is left out. A divider stands before a row when full groups of rows, one or more, stand before it. -/
inductive Laid (faces : List ResolvedFace) (levels : List String) (rowCount : Nat) :
    Nat → List Nat → List ListedRow → Prop
  | done {shown : Nat} : Laid faces levels rowCount shown [] []
  | skipped {shown index : Nat} {indexes : List Nat} {rows : List ListedRow}
      (unfit : firstFit faces levels shown index = none)
      (rest : Laid faces levels rowCount shown indexes rows) :
      Laid faces levels rowCount shown (index :: indexes) rows
  | listed {shown : Nat} {indexes : List Nat} {rows : List ListedRow} (row : ListedRow)
      (chosen : firstFit faces levels shown row.index = some row.face)
      (divided : row.divider.isSome = true ↔ 0 < rowCount ∧ 0 < shown ∧ rowCount ∣ shown)
      (rest : Laid faces levels rowCount (shown + 1) indexes rows) :
      Laid faces levels rowCount shown (row.index :: indexes) (row :: rows)

namespace Laid

variable {faces : List ResolvedFace} {levels : List String} {rowCount shown : Nat}
  {indexes : List Nat} {rows : List ListedRow}

/-- The rows are in the order of their source, none of them twice. -/
theorem sublist (h : Laid faces levels rowCount shown indexes rows) :
    (rows.map ListedRow.index).Sublist indexes := by
  induction h with
  | done => exact List.Sublist.slnil
  | skipped _ _ ih => exact ih.trans (List.sublist_cons_self _ _)
  | listed _ _ _ _ ih => exact ih.cons_cons _

/-- What is said of a row by its place among those that are shown. -/
theorem at_place (h : Laid faces levels rowCount shown indexes rows) {place : Nat} {row : ListedRow}
    (hrow : rows[place]? = some row) :
    firstFit faces levels (shown + place) row.index = some row.face ∧
      (row.divider.isSome = true ↔
        0 < rowCount ∧ 0 < shown + place ∧ rowCount ∣ shown + place) := by
  induction h generalizing place with
  | done => cases hrow
  | skipped _ _ ih => exact ih hrow
  | listed row chosen divided _ ih =>
      cases place with
      | zero =>
          obtain rfl := Option.some.inj hrow
          exact ⟨chosen, divided⟩
      | succ place =>
          have hrest := ih hrow
          rwa [Nat.add_assoc, Nat.add_comm 1] at hrest

/-- A row that is not there fits no face at the place it would have. -/
theorem left_out (h : Laid faces levels rowCount shown indexes rows)
    (hsorted : indexes.Pairwise (· < ·)) {index : Nat} (hindex : index ∈ indexes)
    (hnot : index ∉ rows.map ListedRow.index) :
    firstFit faces levels (shown + rows.countP (·.index < index)) index = none := by
  induction h with
  | done => cases hindex
  | @skipped shown other indexes rows unfit rest ih =>
      obtain ⟨hless, hsorted⟩ := List.pairwise_cons.mp hsorted
      rcases List.mem_cons.mp hindex with rfl | hin
      · have hnone : rows.countP (·.index < index) = 0 := by
          refine List.countP_eq_zero.mpr fun row hrow hlt => ?_
          have hbehind := hless _ (rest.sublist.subset (List.mem_map_of_mem hrow))
          exact Nat.lt_asymm hbehind (of_decide_eq_true hlt)
        rwa [hnone]
      · exact ih hsorted hin hnot
  | @listed shown indexes rows row chosen divided rest ih =>
      obtain ⟨hless, hsorted⟩ := List.pairwise_cons.mp hsorted
      rw [List.map_cons, List.mem_cons, not_or] at hnot
      have hin := (List.mem_cons.mp hindex).resolve_left hnot.1
      have hrest := ih hsorted hin hnot.2
      rw [List.countP_cons_of_pos (by exact decide_eq_true (hless _ hin))]
      rwa [Nat.add_assoc, Nat.add_comm 1] at hrest

end Laid

/-! ## The nodes of a part of a list -/

/-- Nodes that are the tops of some plots, in their order, of the shapes that are given. All that is in
these plots has a number from `first` on. -/
def Picked (outs : List Plot) (first : NodeId) (nodes : List NodeId) (shapes : List Shape) : Prop :=
  ∃ plots, plots.Sublist outs ∧ plots.map root = nodes ∧ Plot.shapes plots = shapes ∧
    ∀ id ∈ idsIn plots, first ≤ id

variable {outs more : List Plot} {first : NodeId} {nodes : List NodeId} {shapes : List Shape}
  {markup : Markup}

theorem Picked.mono (h : Picked outs first nodes shapes) (hsub : outs.Sublist more) :
    Picked more first nodes shapes := by
  obtain ⟨plots, hplots, hfacts⟩ := h
  exact ⟨plots, hplots.trans hsub, hfacts⟩

/-- Nodes that are new in a forest, of the shapes that nodes of an earlier one have. -/
structure FreshCopies (before after : Markup) (template copies : List NodeId) : Prop where
  shapes : copies.map after.shape = template.map before.shape
  fresh : ∀ id ∈ copies.flatMap after.nodes, before.size ≤ id

/-- What nodes were picked for is seen in any forest where the plots stand. -/
theorem Picked.stands (h : Picked outs first nodes shapes) (hwhole : AreWhole outs)
    (hgarden : Garden markup outs) :
    nodes.map markup.shape = shapes ∧ ∀ id ∈ nodes.flatMap markup.nodes, first ≤ id := by
  obtain ⟨plots, hsub, rfl, rfl, hfirst⟩ := h
  have hplots : AreWhole plots := areWhole_iff.mpr fun plot hplot =>
    areWhole_iff.mp hwhole plot (hsub.subset hplot)
  have hstands := hgarden.sublist hsub
  rw [hstands.shapes_eq hplots, hstands.nodes_eq hplots]
  exact ⟨rfl, hfirst⟩

namespace Pass

/-- What the nodes of a row are made from. The divider before it is a copy. -/
structure Lists (sketch : Sketch) (stored : List (SlotName × Rendering)) (first : NodeId)
    (divider : List NodeId) (outs : List Plot) (row : ListedRow) : Prop where
  made : ∃ shapes, MadeFrom sketch.source sketch.pattern sketch.form stored row.index row.face.face
    row.rendering shapes ∧ Picked outs 0 row.rendering.nodes shapes
  divided : ∀ copies ∈ row.divider, Picked outs first copies (divider.map sketch.form)

variable {sketch : Sketch} {nesting : String → Bool} {stored : List (SlotName × Rendering)}
  {start : Markup} {levels : List String} {divider template : List NodeId}
  {grown waiting : List Pot} {rest : List Plot} {pass : Pass}

theorem Lists.mono {row : ListedRow} (h : Lists sketch stored first divider outs row)
    (hsub : outs.Sublist more) : Lists sketch stored first divider more row := by
  obtain ⟨⟨shapes, hmade, hnodes⟩, hdivided⟩ := h
  exact ⟨⟨shapes, hmade, hnodes.mono hsub⟩,
    fun copies hcopies => (hdivided copies hcopies).mono hsub⟩

/-- Copies of a template are new. -/
theorem Underway.copyAll (h : Underway sketch nesting grown waiting rest pass)
    (hroots : Rooted sketch.form rest template)
    (hsame : Markup.Untouched first start pass.markup) :
    ∃ outs, Grows sketch nesting grown waiting rest (pass.copyAll template).1
        (pass.copyAll template).2 [] waiting outs ∧
      Markup.Untouched first start (pass.copyAll template).1.markup ∧
      Picked outs first (pass.copyAll template).2 (template.map sketch.form) := by
  obtain ⟨outs, hyield⟩ := Yield.copyAll h.tended hroots h.garden
  obtain ⟨hafter, hnew⟩ := hsame.copyAll template
  have hnodes : (pass.copyAll template).2 = (pass.markup.copyAll template).2 := rfl
  refine ⟨outs, ⟨?_, List.forall_mem_nil _⟩, hafter, outs, List.Sublist.refl _, hyield.nodes.symm,
    hyield.shapes, ?_⟩
  · rw [hyield.shapes]
    exact hyield
  · rw [← hnodes, hyield.nodes] at hnew
    exact StandAll.le_ids hafter.below hyield.garden.left.stands hnew

/-- A divider is copied when it is due. -/
theorem Underway.divide (h : Underway sketch nesting grown waiting rest pass)
    (hroots : Rooted sketch.form rest divider) (hsame : Markup.Untouched first start pass.markup)
    (due : Bool) :
    ∃ copies outs after, (if due then pass.copyAll divider else (pass, [])) =
        (after, Option.getD copies []) ∧ copies.isSome = due ∧
      Grows sketch nesting grown waiting rest after (copies.getD []) [] waiting outs ∧
      Markup.Untouched first start after.markup ∧ after.previous = pass.previous ∧
      ∀ nodes ∈ copies, Picked outs first nodes (divider.map sketch.form) := by
  cases due with
  | false => exact ⟨none, [], pass, rfl, rfl, h.grows_nothing, hsame, rfl, fun _ hnone => by cases hnone⟩
  | true =>
      obtain ⟨outs, hgrows, hafter, hpicked⟩ := h.copyAll hroots hsame
      refine ⟨some (pass.copyAll divider).2, outs, _, rfl, rfl, hgrows, hafter, rfl, ?_⟩
      intro nodes hnodes
      rwa [← Option.some.inj hnodes]

/-- What rows of a list come to. -/
theorem Underway.listRows (hnesting : nesting "" = false) (rowCount : Nat) (indexes : List Nat)
    {grown waiting : List Pot} {rest : List Plot} {pass : Pass}
    (h : Underway sketch nesting grown waiting rest pass) (hroots : Rooted sketch.form rest divider)
    (hsame : Markup.Untouched first start pass.markup) (hstored : pass.previous ⊆ stored)
    (hindexes : ∀ index ∈ indexes, index < sketch.source.size) :
    ∃ rows new left outs after,
      Pass.listRows levels divider rowCount sketch.source pass grown.length indexes =
        (after, grown.length + rows.length, rows.flatMap ListedRow.output) ∧
      Laid sketch.faces levels rowCount grown.length indexes rows ∧
      Grows sketch nesting grown waiting rest after (rows.flatMap ListedRow.output) new left outs ∧
      Markup.Untouched first start after.markup ∧
      ∀ row ∈ rows, Lists sketch stored first divider outs row := by
  induction indexes generalizing grown waiting rest pass with
  | nil => exact ⟨[], [], waiting, [], pass, rfl, .done, h.grows_nothing, hsame, List.forall_mem_nil _⟩
  | cons index behind ih =>
      obtain ⟨hindex, hbehind⟩ := List.forall_mem_cons.mp hindexes
      rw [Pass.listRows]
      rcases hstep : pass.renderRow "" sketch.source index levels with ⟨asked, result⟩
      have hasked := untouched_renderRow hsame hstep
      have hkept := List.Subset.trans (previous_renderRow_subset hstep) hstored
      rcases h.renderRow hstep with ⟨rfl, hunfit, hnext, -⟩ | ⟨rendering, resolved, pot, left, rfl, hplaced⟩
      · obtain ⟨rows, new, left, outs, after, hpass, hlaid, hfacts⟩ :=
          ih hnext hroots hasked hkept hbehind
        refine ⟨rows, new, left, outs, after, hpass, .skipped (hunfit.resolve_left ?_) hlaid, hfacts⟩
        exact fun hmissing => Nat.not_le.mpr hindex (List.getElem?_eq_none_iff.mp hmissing)
      · have hrow := hplaced.grows hnesting
        obtain ⟨copies, plots, mid, hcopy, hdue, hdivided, hmid, hprevious, hcopies⟩ :=
          (h.go_on hrow).divide (hroots.mono (List.subset_append_right _ _)) hasked
            (0 < rowCount && 0 < grown.length && grown.length % rowCount == 0)
        have hboth := hrow.prepend hdivided
        obtain ⟨rows, new, remaining, outs, after, hpass, hlaid, hgrows, hafter, hrows⟩ :=
          ih (h.go_on hboth) (hroots.mono (List.subset_append_right _ _)) hmid
            (by rw [hprevious]; exact hkept) hbehind
        have hlength : ([] ++ [pot] ++ grown).length = grown.length + 1 := List.length_cons
        rw [hlength] at hpass hlaid
        refine ⟨⟨index, resolved, rendering, copies⟩ :: rows, _, _, _, after, ?_, ?_,
          hboth.append hgrows, hafter, List.forall_mem_cons.mpr ⟨⟨?_, ?_⟩, fun row hmem => ?_⟩⟩
        · dsimp only
          rw [hcopy]
          dsimp only
          rw [hpass, List.length_cons, List.flatMap_cons, ListedRow.output, Nat.add_assoc,
            Nat.add_comm 1]
        · refine .listed ⟨index, resolved, rendering, copies⟩ hplaced.chosen ?_ hlaid
          rw [hdue, Bool.and_eq_true, Bool.and_eq_true, decide_eq_true_eq, decide_eq_true_eq,
            beq_iff_eq, Nat.dvd_iff_mod_eq_zero, and_assoc]
        · refine ⟨Plot.shapes pot.plots, hplaced.made.mono rfl hstored, pot.plots, ?_,
            hplaced.shows.nodes.symm, rfl, fun id _ => Nat.zero_le id⟩
          exact (List.sublist_append_right _ _).trans (List.sublist_append_left _ _)
        · exact fun nodes hnodes => (hcopies nodes hnodes).mono
            ((List.sublist_append_left _ _).trans (List.sublist_append_left _ _))
        · exact (hrows row hmem).mono (List.sublist_append_right _ _)

/-- Copies of a template one after another. -/
theorem Underway.copies (count : Nat) {rest : List Plot} {pass : Pass}
    (h : Underway sketch nesting grown waiting rest pass)
    (hroots : Rooted sketch.form rest template)
    (hsame : Markup.Untouched first start pass.markup) :
    ∃ (padding : List (List NodeId)) (outs : List Plot) (after : Pass),
      pass.copies template count = (after, padding.flatten) ∧
      padding.length = count ∧
      Grows sketch nesting grown waiting rest after padding.flatten [] waiting outs ∧
      ∀ nodes ∈ padding, Picked outs first nodes (template.map sketch.form) := by
  induction count generalizing rest pass with
  | zero => exact ⟨[], [], pass, rfl, rfl, h.grows_nothing, List.forall_mem_nil _⟩
  | succ count ih =>
      obtain ⟨plots, hfirst, hsame, hpicked⟩ := h.copyAll hroots hsame
      obtain ⟨padding, outs, after, hpass, hlength, hgrows, hcopies⟩ :=
        ih (h.go_on hfirst) (hroots.mono (List.subset_append_right _ _)) hsame
      refine ⟨(pass.copyAll template).2 :: padding, plots ++ outs, after, ?_, ?_,
        hfirst.append hgrows, List.forall_mem_cons.mpr ⟨?_, fun nodes hnodes => ?_⟩⟩
      · rw [Pass.copies]
        dsimp only
        rw [hpass]
        rfl
      · rw [List.length_cons, hlength]
      · exact hpicked.mono (List.sublist_append_left _ _)
      · exact (hcopies nodes hnodes).mono (List.sublist_append_right _ _)

/-- What a list comes to: its rows, and behind them what is missing in the last group. -/
theorem Underway.arrangeList {incomplete : List NodeId}
    (h : Underway sketch nesting [] waiting rest pass) (hnesting : nesting "" = false) (rowCount : Nat)
    (hdivider : Rooted sketch.form rest divider) (hincomplete : Rooted sketch.form rest incomplete)
    (hsame : Markup.Untouched first start pass.markup) (hstored : pass.previous ⊆ stored) :
    ∃ (rows : List ListedRow) (padding : List (List NodeId)) (new left : List Pot)
      (outs : List Plot) (after : Pass),
      pass.arrangeList levels divider incomplete rowCount sketch.source =
        (after, rows.flatMap ListedRow.output ++ padding.flatten) ∧
      Laid sketch.faces levels rowCount 0 (List.range sketch.source.size) rows ∧
      padding.length = missing rowCount rows.length ∧
      Grows sketch nesting [] waiting rest after
        (rows.flatMap ListedRow.output ++ padding.flatten) new left outs ∧
      (∀ row ∈ rows, Lists sketch stored first divider outs row) ∧
      ∀ nodes ∈ padding, Picked outs first nodes (incomplete.map sketch.form) := by
  obtain ⟨rows, new, left, outs, after, hpass, hlaid, hgrows, hafter, hrows⟩ :=
    h.listRows hnesting rowCount (List.range sketch.source.size) hdivider hsame hstored
      fun index hindex => List.mem_range.mp hindex
  rw [Pass.arrangeList]
  rw [List.length_nil, Nat.zero_add] at hpass
  rw [List.length_nil] at hlaid
  rw [hpass]
  cases incomplete with
  | nil =>
      -- Nothing is copied for an empty template, as often as it may be missing.
      have hnone : (List.replicate (missing rowCount rows.length) ([] : List NodeId)).flatten = [] :=
        List.flatten_replicate_nil
      refine ⟨rows, List.replicate (missing rowCount rows.length) [], new, left, outs, after, ?_, hlaid,
        List.length_replicate, ?_, hrows, fun nodes hnodes => ?_⟩
      · rw [hnone, List.append_nil]
        rfl
      · rwa [hnone, List.append_nil]
      · rw [List.eq_of_mem_replicate hnodes]
        exact ⟨[], List.nil_sublist _, rfl, rfl, List.forall_mem_nil _⟩
  | cons node nodes =>
      obtain ⟨padding, plots, last, hcopies, hlength, hpadding, hpicked⟩ :=
        (h.go_on hgrows).copies (missing rowCount rows.length)
          (hincomplete.mono (List.subset_append_right _ _)) hafter
      refine ⟨rows, padding, _, _, _, last, ?_, hlaid, hlength, hgrows.append hpadding,
        fun row hrow => (hrows row hrow).mono (List.sublist_append_left _ _),
        fun nodes hnodes => (hpicked nodes hnodes).mono (List.sublist_append_right _ _)⟩
      dsimp only [List.isEmpty_cons]
      rw [hcopies]
      rfl

end Pass

end ReactiveMarkup
