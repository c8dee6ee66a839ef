import ReactiveMarkup.Proofs.Face.Tending

/-!
# Passes show their sketches

`Stretch` is what a part of a pass comes to, whatever was taken over in it: nodes that are the tops of
plots, which cover the pots of all rows shown. `Yield` is a stretch of whole plots of the shapes that the
sketch says. Parts of a pass that follow each other, and a row with the rows nested in it, are put
together here once; each arrangement is then an induction over its rows that only says which parts it
consists of.
-/

namespace ReactiveMarkup

open Plot Pot

/-- What a part of a pass comes to. `new` are the pots of the rows it shows, and `outs` the plots it
gives; beside them stand the pots that still wait and the plots the pass has nothing to do with. -/
structure Stretch (sketch : Sketch) (grown waiting : List Pot) (rest : List Plot) (pass : Pass)
    (nodes : List NodeId) (new left : List Pot) (outs : List Plot) : Prop where
  tended : Tended sketch (new ++ grown) left pass
  remaining : left.Sublist waiting
  nodes : nodes = outs.map root
  garden : Garden pass.markup (outs ++ (keptIn left ++ rest))
  covers : Covers outs (keptIn new)

/-- A part of a pass that shows what its sketch says. -/
structure Yield (sketch : Sketch) (grown waiting : List Pot) (rest : List Plot) (pass : Pass)
    (done : List Showing) (nodes : List NodeId) (shapes : List Shape)
    (new left : List Pot) (outs : List Plot) : Prop where
  tended : Tended sketch (new ++ grown) left pass
  remaining : left.Sublist waiting
  done : done = (new ++ grown).map Pot.showing
  nodes : nodes = outs.map root
  shapes : Plot.shapes outs = shapes
  whole : AreWhole outs
  garden : Garden pass.markup (outs ++ (keptIn left ++ rest))
  covers : Covers outs (keptIn new)

/-- What a part of a pass comes to, whichever pots and plots these are. -/
def Yields (sketch : Sketch) (grown waiting : List Pot) (rest : List Plot) (pass : Pass)
    (done : List Showing) (nodes : List NodeId) (shapes : List Shape) : Prop :=
  ∃ new left outs, Yield sketch grown waiting rest pass done nodes shapes new left outs

variable {sketch : Sketch} {grown waiting new left : List Pot} {rest outs : List Plot} {pass : Pass}
  {done : List Showing} {nodes : List NodeId} {shapes : List Shape}

theorem Yield.stretch (h : Yield sketch grown waiting rest pass done nodes shapes new left outs) :
    Stretch sketch grown waiting rest pass nodes new left outs :=
  ⟨h.tended, h.remaining, h.nodes, h.garden, h.covers⟩

/-! ## Putting stretches together -/

theorem Stretch.nothing (h : Tended sketch grown waiting pass)
    (hgarden : Garden pass.markup (keptIn waiting ++ rest)) :
    Stretch sketch grown waiting rest pass [] [] waiting [] where
  tended := h
  remaining := List.Sublist.refl _
  nodes := rfl
  garden := hgarden
  covers := Covers.refl _

/-- A row of which no more is told than its slot keeps. -/
theorem Shows.stretch {showing : Showing} {pot : Pot}
    (h : Shows sketch grown waiting rest pass showing nodes pot left) :
    Stretch sketch grown waiting rest pass nodes [pot] left pot.kept where
  tended := h.tended
  remaining := h.remaining
  nodes := by rw [roots_kept, h.nodes]
  garden := h.garden
  covers := by
    rw [keptIn_cons]
    exact Covers.of_perm (by simp [keptIn])

/-- Two parts of a pass, in whichever order their plots are put. -/
theorem Stretch.join {after : Pass} {more : List NodeId} {next remaining : List Pot}
    {afters all : List Plot} (h : Stretch sketch grown waiting rest pass nodes new left outs)
    (hnext : Stretch sketch (new ++ grown) left (outs ++ rest) after more next remaining afters)
    (hall : (outs ++ afters).Perm all) :
    Stretch sketch grown waiting rest after (all.map root) (next ++ new) remaining all where
  tended := by
    rw [List.append_assoc]
    exact hnext.tended
  remaining := hnext.remaining.trans h.remaining
  nodes := rfl
  garden := by
    have hgarden : Garden after.markup (afters ++ keptIn remaining ++ (outs ++ rest)) := by
      rw [List.append_assoc]
      exact hnext.garden
    refine hgarden.swap.perm ?_
    rw [List.append_assoc, ← List.append_assoc outs]
    exact hall.append_right _
  covers := by
    rw [keptIn_append]
    exact ((Covers.of_perm hall.symm).trans (h.covers.append hnext.covers)).trans
      (Covers.of_perm List.perm_append_comm)

/-- A part of a pass and the part behind it. -/
theorem Stretch.append {after : Pass} {more : List NodeId} {next remaining : List Pot}
    {afters : List Plot} (h : Stretch sketch grown waiting rest pass nodes new left outs)
    (hnext : Stretch sketch (new ++ grown) left (outs ++ rest) after more next remaining afters) :
    Stretch sketch grown waiting rest after (nodes ++ more) (next ++ new) remaining
      (outs ++ afters) := by
  have hjoin := h.join hnext (List.Perm.refl _)
  rwa [List.map_append, ← h.nodes, ← hnext.nodes] at hjoin

/-- A row with a part of the pass nested in it. -/
theorem Shows.surround {showing : Showing} {pot : Pot} {rendering : Rendering} {after : Pass}
    {next remaining : List Pot} {inner : List NodeId}
    (h : Shows sketch grown waiting rest pass showing rendering.nodes pot left)
    (hnests : showing.nests = true)
    (hinner : Stretch sketch (pot :: grown) left (pot.kept ++ rest) after inner next remaining
      outs) :
    Stretch sketch grown waiting rest (after.nest rendering inner).1 (after.nest rendering inner).2
      (next ++ [pot]) remaining (Plot.nest pot.plots outs) := by
  have hkept : pot.kept = openIn pot.plots := by rw [kept, h.is, hnests, if_pos rfl]
  have hgarden : Garden after.markup (openIn pot.plots ++ (outs ++ (keptIn remaining ++ rest))) := by
    have hall : Garden after.markup ((outs ++ keptIn remaining) ++ (pot.kept ++ rest)) := by
      rw [List.append_assoc]
      exact hinner.garden
    rw [← hkept, ← List.append_assoc outs]
    exact hall.swap
  obtain ⟨hnodes, hplanted⟩ := hgarden.nest h.whole
  rw [← h.nodes, ← hinner.nodes] at hnodes hplanted
  exact {
    tended := by
      rw [List.append_assoc]
      exact hinner.tended.congr rfl rfl rfl rfl rfl rfl
    remaining := hinner.remaining.trans h.remaining
    nodes := hnodes
    garden := hplanted
    covers := by
      rw [keptIn_append, keptIn_cons, hkept]
      refine (Covers.nest pot.plots outs).trans ?_
      refine ((Covers.refl _).append hinner.covers).trans (Covers.of_perm ?_)
      rw [show keptIn [] = [] from rfl, List.append_nil]
      exact List.perm_append_comm }

/-! ## Putting parts together -/

theorem Yield.nothing (h : Tended sketch grown waiting pass)
    (hgarden : Garden pass.markup (keptIn waiting ++ rest)) :
    Yield sketch grown waiting rest pass (grown.map Pot.showing) [] [] [] waiting [] where
  tended := h
  remaining := List.Sublist.refl _
  done := rfl
  nodes := rfl
  shapes := rfl
  whole := trivial
  garden := hgarden
  covers := Covers.refl _

/-- A row that nothing is nested in. -/
theorem Shows.yield {showing : Showing} {pot : Pot}
    (h : Shows sketch grown waiting rest pass showing nodes pot left)
    (hnests : showing.nests = false) :
    Yield sketch grown waiting rest pass (showing :: grown.map Pot.showing) nodes
      (sketch.shapes showing) [pot] left pot.plots := by
  have hstretch := h.stretch
  rw [show pot.kept = pot.plots by rw [kept, h.is, hnests, if_neg Bool.false_ne_true]] at hstretch
  exact {
    tended := hstretch.tended
    remaining := hstretch.remaining
    done := by rw [List.singleton_append, List.map_cons, h.is]
    nodes := hstretch.nodes
    shapes := h.shapes
    whole := h.whole
    garden := hstretch.garden
    covers := hstretch.covers }

/-- Two parts of a pass, in whichever order their plots are put. -/
theorem Yield.join {after : Pass} {later : List Showing} {more : List NodeId}
    {moreShapes : List Shape} {next remaining : List Pot} {afters all : List Plot}
    (h : Yield sketch grown waiting rest pass done nodes shapes new left outs)
    (hnext : Yield sketch (new ++ grown) left (outs ++ rest) after later more moreShapes next
      remaining afters)
    (hall : (outs ++ afters).Perm all) :
    Yield sketch grown waiting rest after later (all.map root) (Plot.shapes all) (next ++ new)
      remaining all := by
  have hjoin := h.stretch.join hnext.stretch hall
  exact {
    tended := hjoin.tended
    remaining := hjoin.remaining
    done := by rw [hnext.done, List.append_assoc]
    nodes := rfl
    shapes := rfl
    whole := by
      refine areWhole_iff.mpr fun plot hplot => ?_
      rcases List.mem_append.mp (hall.mem_iff.mpr hplot) with hin | hin
      · exact areWhole_iff.mp h.whole plot hin
      · exact areWhole_iff.mp hnext.whole plot hin
    garden := hjoin.garden
    covers := hjoin.covers }

section Join

variable {after : Pass} {later : List Showing} {more : List NodeId} {moreShapes : List Shape}
  {next remaining : List Pot} {afters : List Plot}

/-- A part of a pass and the part behind it. -/
theorem Yield.append
    (h : Yield sketch grown waiting rest pass done nodes shapes new left outs)
    (hnext : Yield sketch (new ++ grown) left (outs ++ rest) after later more moreShapes next
      remaining afters) :
    Yield sketch grown waiting rest after later (nodes ++ more) (shapes ++ moreShapes) (next ++ new)
      remaining (outs ++ afters) := by
  have hjoin := h.join hnext (List.Perm.refl _)
  rwa [List.map_append, shapes_append, ← h.nodes, ← hnext.nodes, h.shapes, hnext.shapes] at hjoin

/-- A part of a pass and a later part that is put before it. -/
theorem Yield.prepend
    (h : Yield sketch grown waiting rest pass done nodes shapes new left outs)
    (hnext : Yield sketch (new ++ grown) left (outs ++ rest) after later more moreShapes next
      remaining afters) :
    Yield sketch grown waiting rest after later (more ++ nodes) (moreShapes ++ shapes) (next ++ new)
      remaining (afters ++ outs) := by
  have hjoin := h.join hnext List.perm_append_comm
  rwa [List.map_append, shapes_append, ← h.nodes, ← hnext.nodes, h.shapes, hnext.shapes] at hjoin

end Join

/-- A row with the rows nested in it. -/
theorem Shows.nest {showing : Showing} {pot : Pot} {rendering : Rendering} {after : Pass}
    {next remaining : List Pot} {inner : List NodeId} {innerShapes : List Shape}
    (h : Shows sketch grown waiting rest pass showing rendering.nodes pot left)
    (hnests : showing.nests = true)
    (hinner : Yield sketch (pot :: grown) left (pot.kept ++ rest) after done inner innerShapes next
      remaining outs) :
    Yield sketch grown waiting rest (after.nest rendering inner).1 done
      (after.nest rendering inner).2 (Shape.nest (sketch.shapes showing) innerShapes)
      (next ++ [pot]) remaining (Plot.nest pot.plots outs) := by
  have hnest := h.surround hnests hinner.stretch
  exact {
    tended := hnest.tended
    remaining := hnest.remaining
    done := by rw [hinner.done, List.append_assoc, List.singleton_append]
    nodes := hnest.nodes
    shapes := by rw [shapes_nest, h.shapes, hinner.shapes]
    whole := AreWhole.nest h.whole hinner.whole
    garden := hnest.garden
    covers := hnest.covers }

/-- Copies of a template belong to no row. -/
theorem Yield.copyAll {template : List NodeId} (h : Tended sketch grown waiting pass)
    (hroots : Rooted sketch.form rest template)
    (hgarden : Garden pass.markup (keptIn waiting ++ rest)) :
    ∃ outs, Yield sketch grown waiting rest (pass.copyAll template).1 (grown.map Pot.showing)
      (pass.copyAll template).2 (template.map sketch.form) [] waiting outs := by
  obtain ⟨copies, hnodes, hshapes, hwhole, hmade⟩ :=
    hgarden.copyAll (hroots.mono (List.subset_append_right _ _))
  refine ⟨copies, ?_⟩
  exact {
    tended := h.congr rfl rfl rfl rfl rfl rfl
    remaining := List.Sublist.refl _
    done := rfl
    nodes := hnodes.symm
    shapes := hshapes
    whole := hwhole
    garden := hmade
    covers := Covers.of_sublist (List.nil_sublist _) }

end ReactiveMarkup
