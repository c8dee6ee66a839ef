import ReactiveMarkup.Proofs.Face.Branches
import ReactiveMarkup.Proofs.Face.Underway

/-!
# Trees

A tree walks over its rows down to a depth that is one more than there are rows. Each step down meets a
row that was not met before, so the bound is never reached: the fuel of a call and the rows met so far are
together more than all rows (`Room`).

What a walk gives is told twice. `Bears` tells it by plots, without a forest, so that it does not change
while the walk goes on. Where these plots stand, it is told by nodes: in the first place of every row
hang the nodes of the rows below it and no others. That place is found again at the end of the walk,
because nested content comes behind it in document order.
-/

namespace ReactiveMarkup

open Plot Pot

/-! ## The nodes of branches -/

namespace Branches

/-- The nodes that branches come to: those of every row, and behind them those of the rows below it when
it has no place for them. -/
def output (markup : Markup) : Branches → List NodeId
  | .none => []
  | .row _ Option.none _ beside => beside.output markup
  | .row _ (some rendering) below beside =>
    (if (markup.childAnchor? rendering.nodes).isSome then rendering.nodes
      else rendering.nodes ++ below.output markup) ++ beside.output markup

/-- Whether every row that is shown is what it was made from, with the nodes of the rows below it, and
nothing else, in its first place. -/
def Nested (made : Nat → Rendering → List Shape → Prop) (markup : Markup) : Branches → Prop
  | .none => True
  | .row index result below beside =>
    (∀ rendering ∈ result,
      (∃ shapes, made index rendering shapes ∧ rendering.nodes.map markup.shape =
        Shape.plantIn ((below.output markup).map markup.shape) shapes) ∧
      ∀ place ∈ markup.childAnchor? rendering.nodes,
        markup.children place = below.output markup) ∧
    below.Nested made markup ∧ beside.Nested made markup

theorem Nested.mono {made other : Nat → Rendering → List Shape → Prop} {markup : Markup}
    {branches : Branches} (h : branches.Nested made markup)
    (hmade : ∀ index rendering shapes, made index rendering shapes → other index rendering shapes) :
    branches.Nested other markup := by
  induction branches with
  | none => exact trivial
  | row index result below beside ihBelow ihBeside =>
      obtain ⟨hrow, hbelow, hbeside⟩ := h
      refine ⟨fun rendering hresult => ?_, ihBelow hbelow, ihBeside hbeside⟩
      obtain ⟨⟨shapes, hshapes, hnodes⟩, hplace⟩ := hrow rendering hresult
      exact ⟨⟨shapes, hmade index rendering shapes hshapes, hnodes⟩, hplace⟩

end Branches

/-- Plots that branches come to. -/
inductive Bears (made : Nat → Rendering → List Shape → Prop) : Branches → List Plot → Prop
  | none : Bears made .none []
  | refused {index : Nat} {beside : Branches} {outs : List Plot} (rest : Bears made beside outs) :
      Bears made (.row index Option.none .none beside) outs
  | shown {index : Nat} {rendering : Rendering} {below beside : Branches}
      {plots inner outs : List Plot} (origin : made index rendering (Plot.shapes plots))
      (nodes : rendering.nodes = plots.map root) (whole : AreWhole plots)
      (inside : Bears made below inner) (rest : Bears made beside outs) :
      Bears made (.row index (some rendering) below beside) (Plot.nest plots inner ++ outs)

section

variable {made : Nat → Rendering → List Shape → Prop} {markup : Markup} {branches : Branches}
  {plots inner outs rest : List Plot}

theorem Bears.whole (h : Bears made branches outs) : AreWhole outs := by
  induction h with
  | none => exact trivial
  | refused _ ih => exact ih
  | shown _ _ whole _ _ ihInside ihRest => exact (AreWhole.nest whole ihInside).append ihRest

/-- The first place of opened plots is found in whatever forest they stand. -/
theorem Garden.childAnchor?_opened (h : Garden markup (openIn plots ++ rest))
    (hwhole : AreWhole plots) : markup.childAnchor? (plots.map root) = placeIn? plots := by
  have hopen := h.left.childAnchor? hwhole.arePlaced_openIn
  rwa [roots_openIn, placeIn?_openIn] at hopen

/-- Plots in which others are nested have the shapes of these in their first place. -/
theorem Garden.shapes_nested (h : Garden markup (Plot.nest plots inner ++ rest))
    (hwhole : AreWhole plots) (hinner : AreWhole inner) :
    (plots.map root).map markup.shape =
      Shape.plantIn ((inner.map root).map markup.shape) (shapes plots) := by
  have hput : ∀ id, (Plot.tree id (.anchor Template.childAnchor) inner).IsWhole := fun _ => hinner
  have hplanted : Garden markup (plantIn inner plots) := by
    rw [Plot.nest] at h
    cases hplace : placeIn? plots with
    | none =>
        rw [hplace, if_neg (by simp)] at h
        rw [plantIn, swapIn_of_none _ hplace]
        exact h.left.left
    | some place =>
        rw [hplace, Option.isSome_some, if_pos rfl] at h
        exact h.left
  have hnested := (Covers.nest plots inner _ _ h).left.right
  rw [← roots_plantIn inner, hplanted.shapes_eq (AreWhole.swapIn hput hwhole), shapes_plantIn,
    hnested.shapes_eq hinner]

/-- Where the plots of branches stand, the nodes are the output, each row with the rows below it. -/
theorem Bears.stands (h : Bears made branches outs) (hgarden : Garden markup (outs ++ rest)) :
    branches.output markup = outs.map root ∧ branches.Nested made markup := by
  induction h generalizing rest with
  | none => exact ⟨rfl, trivial⟩
  | refused _ ih =>
      obtain ⟨houtput, hnested⟩ := ih hgarden
      refine ⟨houtput, ?_, trivial, hnested⟩
      intro rendering hnone
      cases hnone
  | @shown index rendering below beside plots inner outs origin nodes whole inside _ ihInside ihRest =>
      rw [List.append_assoc] at hgarden
      have hopen := Covers.nest plots inner _ _ hgarden
      rw [List.append_assoc] at hopen
      obtain ⟨hbelow, hbelowNested⟩ := ihInside hopen.right
      obtain ⟨hbeside, hbesideNested⟩ := ihRest hgarden.right
      have hshapes := hgarden.shapes_nested whole inside.whole
      have hfound := hopen.childAnchor?_opened whole
      rw [← nodes] at hshapes hfound
      have hplaces : ∀ place ∈ markup.childAnchor? rendering.nodes,
          markup.children place = below.output markup := by
        intro place hin
        rw [hfound] at hin
        rw [Plot.nest, hin, Option.isSome_some, if_pos rfl] at hgarden
        have hplanted := (standAll_planted_iff inner plots).mp hgarden.left.stands
        rw [hbelow]
        exact (hplanted.2 place hin).2.2.1
      refine ⟨?_, fun other hother => ?_, hbelowNested, hbesideNested⟩
      · rw [Branches.output, hfound, hbelow, hbeside, List.map_append, Plot.nest, nodes]
        split
        · rw [roots_plantIn]
        · rw [List.map_append]
      · obtain rfl := Option.some.inj hother
        rw [hbelow]
        exact ⟨⟨_, origin, hshapes⟩, hbelow ▸ hplaces⟩

end

namespace Pass

/-! ## Calls -/

/-- What a pass comes to that was asked for rows and whose nodes may have been changed since. -/
def Called (begun : Pass) (calls : List RowCall) (pass : Pass) : Prop :=
  ∃ markup, begun.Asked calls { pass with markup }

variable {begun pass after : Pass} {calls : List RowCall}

theorem called_start (begun : Pass) : begun.Called [] begun := ⟨begun.markup, .start⟩

theorem Called.setMarkup (h : begun.Called calls pass) (markup : Markup) :
    begun.Called calls { pass with markup } := h

theorem Called.call {group : String} {source : Source} {index : Nat} {levels : List String}
    {result : Option Rendering} (h : begun.Called calls pass)
    (hstep : pass.renderRow group source index levels = (after, result)) :
    begun.Called (⟨group, source, index, levels, result⟩ :: calls) after := by
  obtain ⟨markup, hasked⟩ := h
  exact ⟨after.markup, .call hasked pass.markup group source index levels hstep⟩

/-- A row that is there is given something exactly if a face fits it, and is counted if it is. -/
theorem renderRow_matched {group : String} {source : Source} {index : Nat} {levels : List String}
    {result : Option Rendering}
    (hstep : pass.renderRow group source index levels = (after, result)) :
    after.faces = pass.faces ∧ after.shown = pass.shown + (if result.isSome then 1 else 0) ∧
      (source.entries[index]?.isSome = true →
        result.isSome = (firstFit pass.faces levels pass.shown index).isSome) := by
  rcases renderRow_cases hstep with ⟨hmissing, rfl, rfl⟩ | ⟨entry, -, hcases⟩
  · refine ⟨rfl, rfl, fun hthere => ?_⟩
    rw [hmissing] at hthere
    cases hthere
  rcases hcases with ⟨hnone, rfl, rfl⟩ | ⟨resolved, name, hchosen, -, rfl, rfl⟩
  · exact ⟨rfl, rfl, fun _ => by rw [firstFit, hnone]; rfl⟩
  · have henters := pass.enters_place name entry resolved.face
    exact ⟨henters.faces, henters.shown, fun _ => by rw [firstFit, hchosen]; rfl⟩

/-- A call for a row that is there is given something exactly if a face fits the row after the calls
before that were given something. -/
theorem Asked.matched (h : begun.Asked calls pass) (hshown : begun.shown = 0) :
    pass.faces = begun.faces ∧ pass.shown = calls.countP (·.result.isSome) ∧
      ∀ call earlier, call :: earlier <:+ calls → call.inRange = true →
        call.result.isSome = (call.face? begun.faces earlier).isSome := by
  induction h with
  | start =>
      refine ⟨rfl, hshown, fun call earlier hsuffix => ?_⟩
      cases List.suffix_nil.mp hsuffix
  | call _ markup group source index levels step ih =>
      obtain ⟨hfaces, hcount, hearlier⟩ := ih
      obtain ⟨hkept, hlast, hresult⟩ := renderRow_matched step
      refine ⟨hkept.trans hfaces, ?_, fun call earlier hsuffix => ?_⟩
      · rw [hlast, List.countP_cons, ← hcount]
      · rcases List.suffix_cons_iff.mp hsuffix with heq | hbefore
        · cases heq
          rw [RowCall.face?, ← hcount, ← hfaces]
          exact hresult
        · exact hearlier call earlier hbefore

/-! ## Walking -/

/-- The depth that a walk may still go down, and the rows met, are together more than all rows. -/
structure Room (size depth : Nat) (met : List Nat) : Prop where
  nodup : met.Nodup
  below : ∀ index ∈ met, index < size
  enough : size < depth + met.length

namespace Room

variable {size depth index : Nat} {met rows : List Nat}

theorem ne_zero (h : Room size depth met) : depth ≠ 0 := by
  rintro rfl
  have hlength := (List.subperm_of_subset h.nodup
    fun index hindex => List.mem_range.mpr (h.below index hindex)).length_le
  have henough := h.enough
  rw [List.length_range] at hlength
  omega

theorem go_down (h : Room size (depth + 1) met) (hindex : index < size) (hmet : index ∉ met) :
    Room size depth (index :: met) where
  nodup := List.nodup_cons.mpr ⟨hmet, h.nodup⟩
  below := List.forall_mem_cons.mpr ⟨hindex, h.below⟩
  enough := by
    have henough := h.enough
    rw [List.length_cons]
    omega

theorem go_on (h : Room size depth met) (hrows : rows.Nodup) (hmet : ∀ index ∈ rows, index ∉ met)
    (hbelow : ∀ index ∈ rows, index < size) : Room size depth (rows.reverse ++ met) where
  nodup := by
    refine List.nodup_append.mpr ⟨List.nodup_reverse.mpr hrows, h.nodup, ?_⟩
    exact fun index hindex other hother heq => hmet index (List.mem_reverse.mp hindex) (heq ▸ hother)
  below := List.forall_mem_append.mpr
    ⟨fun index hindex => hbelow index (List.mem_reverse.mp hindex), h.below⟩
  enough := by
    have henough := h.enough
    rw [List.length_append]
    omega

end Room

section Steps

variable {shape : TreeShape} {source : Source} {fuel depth index : Nat} {pass asked inside after : Pass}
  {met others last indexes : List Nat} {inner more : List NodeId}

theorem treeRows_met (h : index ∈ met) :
    treeRows shape source (fuel + 1) pass met depth (index :: indexes) =
      treeRows shape source (fuel + 1) pass met depth indexes := by
  rw [treeRows, treeRow, if_pos (List.contains_iff_mem.mpr h)]
  rfl

theorem treeRows_refused (h : index ∉ met)
    (hstep : pass.renderRow "" source index (shape.levelsAt depth index) = (asked, none)) :
    treeRows shape source (fuel + 1) pass met depth (index :: indexes) =
      treeRows shape source (fuel + 1) asked (index :: met) depth indexes := by
  rw [TreeShape.levelsAt] at hstep
  rw [treeRows, treeRow, if_neg fun hin => h (List.contains_iff_mem.mp hin)]
  dsimp only
  rw [hstep]
  rfl

theorem treeRows_shown {rendering : Rendering} (h : index ∉ met)
    (hstep : pass.renderRow "" source index (shape.levelsAt depth index) = (asked, some rendering))
    (hinner : treeRows shape source fuel asked (index :: met) (depth + 1) (shape.childrenOf index) =
      (inside, others, inner))
    (hmore : treeRows shape source (fuel + 1) (inside.nest rendering inner).1 others depth indexes =
      (after, last, more)) :
    treeRows shape source (fuel + 1) pass met depth (index :: indexes) =
      (after, last, (inside.nest rendering inner).2 ++ more) := by
  rw [TreeShape.levelsAt] at hstep
  rw [treeRows, treeRow, if_neg fun hin => h (List.contains_iff_mem.mp hin)]
  dsimp only
  rw [hstep]
  dsimp only
  rw [hinner]
  dsimp only
  rw [hmore]

end Steps

variable {sketch : Sketch} {nesting : String → Bool} {grown waiting : List Pot} {rest : List Plot}

/-- What a row is shown with: it was made with one of the faces. -/
def MadeFromFaces (sketch : Sketch) (stored : List (SlotName × Rendering)) (index : Nat)
    (rendering : Rendering) (shapes : List Shape) : Prop :=
  ∃ resolved ∈ sketch.faces, MadeFrom sketch.source sketch.pattern sketch.form stored index
    resolved.face rendering shapes

/-- What rows of a tree come to, walked over one after another. -/
theorem Underway.treeRows (hnesting : nesting "" = true) {shape : TreeShape}
    {stored : List (SlotName × Rendering)}
    (hshape : ∀ index, ∀ other ∈ shape.childrenOf index, other < sketch.source.size) (fuel : Nat)
    (indexes : List Nat) {grown waiting : List Pot} {rest : List Plot} {pass : Pass}
    {met : List Nat} {calls : List RowCall} (depth : Nat)
    (h : Underway sketch nesting grown waiting rest pass) (hcalled : begun.Called calls pass)
    (hroom : Room sketch.source.size fuel met) (hstored : pass.previous ⊆ stored)
    (hindexes : ∀ index ∈ indexes, index < sketch.source.size) :
    ∃ branches nodes new left outs after,
      Pass.treeRows shape sketch.source fuel pass met depth indexes =
        (after, branches.rows.reverse ++ met, nodes) ∧
      Walks shape met indexes branches ∧
      begun.Called ((branches.calls shape sketch.source depth).reverse ++ calls) after ∧
      Grows sketch nesting grown waiting rest after nodes new left outs ∧
      Bears (MadeFromFaces sketch stored) branches outs ∧ after.previous ⊆ stored := by
  induction fuel generalizing indexes grown waiting rest pass met calls depth with
  | zero => exact (hroom.ne_zero rfl).elim
  | succ fuel ihBelow =>
      induction indexes generalizing grown waiting rest pass met calls with
      | nil =>
          exact ⟨.none, [], [], waiting, [], pass, by rw [Pass.treeRows]; rfl, .done, hcalled,
            h.grows_nothing, .none, hstored⟩
      | cons index behind ihBeside =>
          obtain ⟨hindex, hbehind⟩ := List.forall_mem_cons.mp hindexes
          by_cases hmet : index ∈ met
          · obtain ⟨branches, nodes, new, left, outs, after, hpass, hwalks, hfacts⟩ :=
              ihBeside h hcalled hroom hstored hbehind
            exact ⟨branches, nodes, new, left, outs, after, (treeRows_met hmet).trans hpass,
              .again hmet hwalks, hfacts⟩
          have hdown := hroom.go_down hindex hmet
          have hmore : Room sketch.source.size (fuel + 1) (index :: met) :=
            ⟨hdown.nodup, hdown.below, Nat.lt_of_lt_of_le hdown.enough (by omega)⟩
          rcases hstep : pass.renderRow "" sketch.source index (shape.levelsAt depth index) with
            ⟨asked, result⟩
          have hasked := hcalled.call hstep
          have hkept := List.Subset.trans (previous_renderRow_subset hstep) hstored
          rcases h.renderRow hstep with
            ⟨rfl, -, hnext, -⟩ | ⟨rendering, resolved, pot, left, rfl, hplaced⟩
          · obtain ⟨beside, nodes, new, left, outs, after, hpass, hwalks, hcalls, hgrows, hbears, hlast⟩ :=
              ihBeside hnext hasked hmore hkept hbehind
            refine ⟨.row index none .none beside, nodes, new, left, outs, after,
              (treeRows_refused hmet hstep).trans ?_, .refused hmet hwalks, ?_, hgrows,
              .refused hbears, hlast⟩
            · rw [hpass, Branches.reverse_rows_row]
              rfl
            · rw [Branches.reverse_calls_row]
              exact hcalls
          · obtain ⟨below, inner, new, left, outs, inside, hpass, hwalks, hcalls, hgrows, hbears,
              hinside⟩ := ihBelow (shape.childrenOf index) (depth + 1) (h.go_below hplaced) hasked
                hdown hkept (hshape index)
            have hrow := hplaced.nest hnesting hgrows
            obtain ⟨hnodup, hnew⟩ := hwalks.nodup
            have hrest := hmore.go_on hnodup hnew
              (hwalks.closed (hshape index) fun other _ _ => hshape other)
            obtain ⟨beside, more, next, remaining, afters, after, hpassBeside, hwalksBeside,
              hcallsBeside, hgrowsBeside, hbearsBeside, hlast⟩ :=
              ihBeside (h.go_on hrow) (hcalls.setMarkup _) hrest hinside hbehind
            refine ⟨.row index (some rendering) below beside, _, _, _, _, after,
              (treeRows_shown hmet hstep hpass hpassBeside).trans ?_,
              .shown hmet hwalks hwalksBeside, ?_, hrow.append hgrowsBeside,
              .shown ⟨resolved, List.mem_of_find?_eq_some hplaced.chosen, hplaced.made.mono rfl hstored⟩
                hplaced.shows.nodes hplaced.shows.whole hbears hbearsBeside, hlast⟩
            · rw [Branches.reverse_rows_row]
            · rw [Branches.reverse_calls_row]
              exact hcallsBeside

/-- What a tree comes to. -/
theorem Underway.arrangeTree {pass : Pass} (h : Underway sketch nesting [] waiting rest pass)
    (hnesting : nesting "" = true) (parentField keyField : String) :
    ∃ branches nodes new left outs after,
      pass.arrangeTree parentField keyField sketch.source = (after, nodes) ∧
      Walks (.ofSource parentField keyField sketch.source) []
        (TreeShape.ofSource parentField keyField sketch.source).roots branches ∧
      pass.Called (branches.calls (.ofSource parentField keyField sketch.source) sketch.source
        1).reverse after ∧
      Grows sketch nesting [] waiting rest after nodes new left outs ∧
      Bears (MadeFromFaces sketch pass.previous) branches outs := by
  have hroom : Room sketch.source.size (sketch.source.size + 1) [] :=
    ⟨List.nodup_nil, List.forall_mem_nil _, Nat.lt_succ_self _⟩
  obtain ⟨branches, nodes, new, left, outs, after, hpass, hwalks, hcalled, hgrows, hbears, -⟩ :=
    h.treeRows hnesting (fun _ _ => TreeShape.lt_size_of_mem_childrenOf) (sketch.source.size + 1)
      (TreeShape.ofSource parentField keyField sketch.source).roots 1 (called_start pass) hroom
      (List.Subset.refl _) fun _ => TreeShape.lt_size_of_mem_roots
  rw [List.append_nil] at hcalled
  refine ⟨branches, nodes, new, left, outs, after, ?_, hwalks, hcalled, hgrows, hbears⟩
  rw [Pass.arrangeTree]
  dsimp only
  rw [hpass]

end Pass

end ReactiveMarkup
