import ReactiveMarkup.Proofs.Face.Bookkeeping
import ReactiveMarkup.Proofs.Face.Faithful
import ReactiveMarkup.Proofs.Markup.Substitution

/-!
# Passes over any cache

What a slot holds may have been made from another row than the one it is taken over for, so a pass does
not always show its sketch. But it was made by the same command: from a face with the number that is
asked for now, with content nested in it or not as in this pass. That is enough for the pots of a pass
to stand. A row that is taken over keeps the pot of its slot, with all that the pot was made from, and
what is put together from pots does not ask whether these are the rows of today.

So the parts of any pass are put together like those of a steady one. `Ready` is what holds between two
rows, and `Drawn` is what one row comes to: nothing is asked there of what content is nested in. Where
the group of a row decides that, as in lists and trees, they are `Underway` and `Placed`, and `Grows` is
what a part of a pass comes to.
-/

namespace ReactiveMarkup

open Plot Pot

/-- A row as a command shows rows: with one of its faces, and with content nested in it if content is
nested in the rows of its group. -/
structure Showing.Native (faces : List Face) (nesting : String → Bool) (showing : Showing) : Prop where
  face : showing.face ∈ faces
  nests : showing.nests = nesting showing.name.group

/-- The faces of a sketch as they were read. -/
def Sketch.plainFaces (sketch : Sketch) : List Face := sketch.faces.map ResolvedFace.face

/-- The first face that fits a row after a number of rows shown. -/
def firstFit (faces : List ResolvedFace) (levels : List String) (shown index : Nat) :
    Option ResolvedFace :=
  faces.find? fun face => face.fits index (RowType.after shown) levels

/-- What a row is shown with: it was made with a face from this version of the row. What is filled in is
the row itself, unless it was taken over from one of the slots that were stored. -/
def MadeFrom (source : Source) (pattern : Pattern) (form : NodeId → Shape)
    (stored : List (SlotName × Rendering)) (index : Nat) (face : Face) (rendering : Rendering)
    (shapes : List Shape) : Prop :=
  ∃ entry origin, source.entries[index]? = some entry ∧ rendering.Current entry face ∧
    (origin = entry.row ∨ ∃ name, (name, rendering) ∈ stored) ∧
    shapes = Shape.fillAll pattern origin (face.template.map form)

/-- Pots of rows that a command shows. -/
def NativeAll (sketch : Sketch) (nesting : String → Bool) (pots : List Pot) : Prop :=
  ∀ pot ∈ pots, pot.showing.Native sketch.plainFaces nesting

/-- Where templates have the same shapes, and of a larger store, a row is made the same way. -/
theorem MadeFrom.mono {source : Source} {pattern : Pattern} {form other : NodeId → Shape}
    {stored more : List (SlotName × Rendering)} {index : Nat} {face : Face} {rendering : Rendering}
    {shapes : List Shape} (h : MadeFrom source pattern form stored index face rendering shapes)
    (hform : face.template.map form = face.template.map other) (hstored : stored ⊆ more) :
    MadeFrom source pattern other more index face rendering shapes := by
  obtain ⟨entry, origin, hentry, hcurrent, horigin, hshapes⟩ := h
  refine ⟨entry, origin, hentry, hcurrent, ?_, hform ▸ hshapes⟩
  exact horigin.imp_right (Exists.imp fun _ hin => hstored hin)

namespace Pass

variable {sketch : Sketch} {nesting : String → Bool} {grown waiting new left : List Pot}
  {rest outs : List Plot} {pass after : Pass} {group : String} {index : Nat} {levels : List String}
  {result : Option Rendering}

/-- What holds of a pass between two rows, whatever is in its cache and was nested in it. -/
structure Ready (sketch : Sketch) (grown waiting : List Pot) (rest : List Plot) (pass : Pass) :
    Prop where
  tended : Tended sketch grown waiting pass
  rooted : FacesRooted sketch rest
  numbered : (sketch.plainFaces.map Face.index).Nodup
  known : ∀ pot ∈ waiting, pot.showing.face ∈ sketch.plainFaces
  garden : Garden pass.markup (keptIn waiting ++ rest)

/-- What a row comes to that a pass shows. Its face is the first one that fits now. Its first place is
open if that is `wanted`, or if it was open in what is taken over. -/
structure Drawn (sketch : Sketch) (grown waiting : List Pot) (rest : List Plot) (pass : Pass)
    (wanted : Bool) (group : String) (index : Nat) (levels : List String) (after : Pass)
    (rendering : Rendering) (resolved : ResolvedFace) (pot : Pot) (left : List Pot) : Prop where
  made : MadeFrom sketch.source sketch.pattern sketch.form pass.previous index resolved.face rendering
    (Plot.shapes pot.plots)
  chosen : firstFit sketch.faces levels grown.length index = some resolved
  shows : Shows sketch grown waiting rest after pot.showing rendering.nodes pot left
  face : pot.showing.face = resolved.face
  group : pot.showing.name.group = group
  nested : wanted = true → pot.showing.nests = true
  opened : pot.showing.nests = true → wanted = true ∨
    ∃ old ∈ waiting, old.showing.name = pot.showing.name ∧ old.showing.nests = true

/-- What holds of a pass between two rows, whatever is in its cache. -/
structure Underway (sketch : Sketch) (nesting : String → Bool) (grown waiting : List Pot)
    (rest : List Plot) (pass : Pass) : Prop where
  tended : Tended sketch grown waiting pass
  rooted : FacesRooted sketch rest
  numbered : (sketch.plainFaces.map Face.index).Nodup
  native : NativeAll sketch nesting waiting
  garden : Garden pass.markup (keptIn waiting ++ rest)

/-- What a row comes to that a pass shows. Its face is the first one that fits now. -/
structure Placed (sketch : Sketch) (nesting : String → Bool) (grown waiting : List Pot)
    (rest : List Plot) (pass : Pass) (group : String) (index : Nat) (levels : List String)
    (after : Pass) (rendering : Rendering) (resolved : ResolvedFace) (pot : Pot) (left : List Pot) :
    Prop where
  made : MadeFrom sketch.source sketch.pattern sketch.form pass.previous index resolved.face rendering
    (Plot.shapes pot.plots)
  chosen : firstFit sketch.faces levels grown.length index = some resolved
  shows : Shows sketch grown waiting rest after pot.showing rendering.nodes pot left
  native : pot.showing.Native sketch.plainFaces nesting
  face : pot.showing.face = resolved.face
  group : pot.showing.name.group = group

/-! ## One row -/

/-- A row that a pass places has a pot, whatever its slot held. -/
theorem Ready.place (h : Ready sketch grown waiting rest pass) (wanted : Bool) (name : SlotName)
    (entry : Entry) {resolved : ResolvedFace} (hresolved : resolved ∈ sketch.faces) :
    ∃ pot left, Shows sketch grown waiting rest (pass.place name entry resolved.face).1 pot.showing
        (pass.place name entry resolved.face).2.nodes pot left ∧
      (pass.place name entry resolved.face).2.Current entry resolved.face ∧
      pot.showing.face = resolved.face ∧ pot.showing.name = name ∧
      (pot.showing.row = entry.row ∨
        (name, (pass.place name entry resolved.face).2) ∈ pass.previous) ∧
      (wanted = true → pot.showing.nests = true) ∧
      (pot.showing.nests = true → wanted = true ∨
        ∃ old ∈ waiting, old.showing.name = name ∧ old.showing.nests = true) := by
  rcases pass.place_cases name entry resolved.face with ⟨old, hstored, hcurrent, hplace⟩ | ⟨-, hplace⟩
  · rw [hplace]
    obtain ⟨pot, hpot, hholds, hcovers⟩ := holds_of_lookup h.tended.previous hstored
    have hface : pot.showing.face = resolved.face :=
      List.inj_on_of_nodup_map h.numbered (h.known pot hpot) (List.mem_map_of_mem hresolved)
        (hholds.face.symm.trans hcurrent.2)
    -- The row keeps what its slot was shown with, and stays open if it was.
    let showing : Showing := { pot.showing with nests := pot.showing.nests || wanted }
    have hkept : Holds sketch.pattern sketch.form (name, old) ⟨showing, pot.plots⟩ :=
      ⟨hholds.name, hholds.version, hholds.face, hholds.nodes, hholds.whole, hholds.shapes⟩
    have hshows := takeOver_shows_of h.tended hcovers hkept
      (fun hbefore hnow => by simp [showing, hbefore] at hnow) h.garden
    refine ⟨⟨showing, pot.plots⟩, _, hshows, hcurrent, hface, hholds.name.symm,
      .inr (mem_of_lookup hstored), fun hwanted => by simp [showing, hwanted], fun hnests => ?_⟩
    rcases Bool.or_eq_true_iff.mp hnests with hbefore | hwanted
    · exact .inr ⟨pot, hpot, hholds.name.symm, hbefore⟩
    · exact .inl hwanted
  · rw [hplace]
    obtain ⟨pot, left, hshows⟩ := makeNew_shows h.tended name entry wanted
      (h.rooted resolved hresolved) h.garden
    have his := hshows.is
    rw [← his] at hshows
    exact ⟨pot, left, hshows, ⟨rfl, rfl⟩, by rw [his], by rw [his], .inl (by rw [his]),
      fun hwanted => by rw [his, hwanted], fun hnests => .inl (by rwa [his] at hnests)⟩

/-- What a pass comes to when it is asked for a row: nothing changes, or the row is drawn. -/
theorem Ready.renderRow (h : Ready sketch grown waiting rest pass) (wanted : Bool)
    (hstep : pass.renderRow group sketch.source index levels = (after, result)) :
    (result = none ∧
      (sketch.source.entries[index]? = none ∨ firstFit sketch.faces levels grown.length index = none) ∧
      Ready sketch grown waiting rest after ∧ after.markup = pass.markup) ∨
    ∃ rendering resolved pot left, result = some rendering ∧
      Drawn sketch grown waiting rest pass wanted group index levels after rendering resolved pot
        left := by
  rcases renderRow_cases hstep with ⟨hmissing, rfl, rfl⟩ | ⟨entry, hentry, hcases⟩
  · exact .inl ⟨rfl, .inl hmissing, h, rfl⟩
  rcases hcases with ⟨hnone, rfl, rfl⟩ | ⟨resolved, name, hchosen, hname, rfl, rfl⟩
  · rw [h.tended.faces, h.tended.shown] at hnone
    exact .inl ⟨rfl, .inr hnone, { h with tended := h.tended.congr rfl rfl rfl rfl rfl rfl }, rfl⟩
  · rw [h.tended.faces, h.tended.shown] at hchosen
    obtain ⟨pot, left, hshows, hcurrent, hface, hpot, horigin, hwanted, hopened⟩ :=
      h.place wanted name entry (List.mem_of_find?_eq_some hchosen)
    have hshapes : Plot.shapes pot.plots =
        Shape.fillAll sketch.pattern pot.showing.row (resolved.face.template.map sketch.form) := by
      rw [hshows.shapes, Sketch.shapes, Showing.shapes, hface]
    refine .inr ⟨_, resolved, pot, left, rfl, ?_, hchosen, hshows, hface, ?_, hwanted, ?_⟩
    · exact ⟨entry, pot.showing.row, hentry, hcurrent, horigin.imp_right fun hin => ⟨name, hin⟩, hshapes⟩
    · rw [hpot, hname]
    · rwa [hpot]

theorem Underway.ready (h : Underway sketch nesting grown waiting rest pass) :
    Ready sketch grown waiting rest pass :=
  ⟨h.tended, h.rooted, h.numbered, fun pot hpot => (h.native pot hpot).face, h.garden⟩

/-- Where the group of a row decides on nesting, a row is drawn as its group says. -/
theorem Drawn.placed {rendering : Rendering} {resolved : ResolvedFace} {pot : Pot}
    (h : Drawn sketch grown waiting rest pass (nesting group) group index levels after rendering
      resolved pot left)
    (hnative : NativeAll sketch nesting waiting) :
    Placed sketch nesting grown waiting rest pass group index levels after rendering resolved pot
      left where
  made := h.made
  chosen := h.chosen
  shows := h.shows
  native := by
    refine ⟨h.face ▸ List.mem_map_of_mem (List.mem_of_find?_eq_some h.chosen), ?_⟩
    rw [h.group]
    refine Bool.eq_iff_iff.mpr ⟨fun hnests => ?_, h.nested⟩
    rcases h.opened hnests with hgroup | ⟨old, hold, hname, hbefore⟩
    · exact hgroup
    · rwa [(hnative old hold).nests, hname, h.group] at hbefore
  face := h.face
  group := h.group

/-- What a pass comes to when it is asked for a row: nothing changes, or the row is placed. -/
theorem Underway.renderRow (h : Underway sketch nesting grown waiting rest pass)
    (hstep : pass.renderRow group sketch.source index levels = (after, result)) :
    (result = none ∧
      (sketch.source.entries[index]? = none ∨ firstFit sketch.faces levels grown.length index = none) ∧
      Underway sketch nesting grown waiting rest after ∧ after.markup = pass.markup) ∨
    ∃ rendering resolved pot left, result = some rendering ∧
      Placed sketch nesting grown waiting rest pass group index levels after rendering resolved pot
        left := by
  rcases h.ready.renderRow (nesting group) hstep with
    ⟨rfl, hunfit, hnext, hsame⟩ | ⟨rendering, resolved, pot, left, rfl, hdrawn⟩
  · exact .inl ⟨rfl, hunfit, ⟨hnext.tended, h.rooted, h.numbered, h.native, hnext.garden⟩, hsame⟩
  · exact .inr ⟨rendering, resolved, pot, left, rfl, hdrawn.placed h.native⟩

/-- Asking for a row changes none of the nodes that were there. -/
theorem untouched_renderRow {source : Source} {first : NodeId} {markup : Markup}
    (h : Markup.Untouched first markup pass.markup)
    (hstep : pass.renderRow group source index levels = (after, result)) :
    Markup.Untouched first markup after.markup := by
  rcases renderRow_cases hstep with ⟨-, rfl, -⟩ | ⟨entry, -, hcases⟩
  · exact h
  rcases hcases with ⟨-, rfl, -⟩ | ⟨resolved, name, -, -, rfl, -⟩
  · exact h
  · rcases pass.place_cases name entry resolved.face with ⟨old, -, -, hplace⟩ | ⟨-, hplace⟩
    · rw [hplace]
      exact h
    · rw [hplace]
      exact (h.substitute _ _ _).1

/-- Asking for a row puts nothing into the slots of the pass before. -/
theorem previous_renderRow_subset {source : Source}
    (hstep : pass.renderRow group source index levels = (after, result)) :
    after.previous ⊆ pass.previous := by
  rcases renderRow_cases hstep with ⟨-, rfl, -⟩ | ⟨entry, -, hcases⟩
  · exact List.Subset.refl _
  rcases hcases with ⟨-, rfl, -⟩ | ⟨resolved, name, -, -, rfl, -⟩
  · exact List.Subset.refl _
  · rw [(pass.enters_place name entry resolved.face).previous]
    exact List.filter_subset_self _

/-! ## Parts of a pass -/

/-- What a part of any pass comes to: it yields what its pots hold, and these are of the command. -/
structure Grows (sketch : Sketch) (nesting : String → Bool) (grown waiting : List Pot)
    (rest : List Plot) (pass : Pass) (nodes : List NodeId) (new left : List Pot) (outs : List Plot) :
    Prop where
  yield : Yield sketch grown waiting rest pass ((new ++ grown).map Pot.showing) nodes
    (Plot.shapes outs) new left outs
  native : NativeAll sketch nesting new

/-- After a part of it, a pass goes on as before, with the plots of the part beside it. -/
theorem Underway.go_on {nodes : List NodeId}
    (h : Underway sketch nesting grown waiting rest pass)
    (hgrows : Grows sketch nesting grown waiting rest after nodes new left outs) :
    Underway sketch nesting (new ++ grown) left (outs ++ rest) after where
  tended := hgrows.yield.tended
  rooted := h.rooted.append outs
  numbered := h.numbered
  native pot hpot := h.native pot (hgrows.yield.remaining.subset hpot)
  garden := hgrows.yield.garden.swap

/-- Below a row, a pass goes on with what is kept of the row beside it. -/
theorem Underway.go_below {rendering : Rendering} {resolved : ResolvedFace} {pot : Pot}
    (h : Underway sketch nesting grown waiting rest pass)
    (hplaced : Placed sketch nesting grown waiting rest pass group index levels after rendering resolved
      pot left) :
    Underway sketch nesting (pot :: grown) left (pot.kept ++ rest) after where
  tended := hplaced.shows.tended
  rooted := h.rooted.append pot.kept
  numbered := h.numbered
  native other hother := h.native other (hplaced.shows.remaining.subset hother)
  garden := hplaced.shows.garden.swap

theorem Underway.grows_nothing (h : Underway sketch nesting grown waiting rest pass) :
    Grows sketch nesting grown waiting rest pass [] [] waiting [] :=
  ⟨Yield.nothing h.tended h.garden, List.forall_mem_nil _⟩

/-- A row that nothing is nested in. -/
theorem Placed.grows {rendering : Rendering} {resolved : ResolvedFace} {pot : Pot}
    (h : Placed sketch nesting grown waiting rest pass group index levels after rendering resolved pot
      left)
    (hnests : nesting group = false) :
    Grows sketch nesting grown waiting rest after rendering.nodes [pot] left pot.plots := by
  have hpot : pot.showing.nests = false := by rw [h.native.nests, h.group, hnests]
  have hyield := h.shows.yield hpot
  rw [← h.shows.shapes] at hyield
  exact ⟨hyield, List.forall_mem_singleton.mpr h.native⟩

theorem Grows.append {next remaining : List Pot} {afters : List Plot} {nodes more : List NodeId}
    {last : Pass} (h : Grows sketch nesting grown waiting rest after nodes new left outs)
    (hnext : Grows sketch nesting (new ++ grown) left (outs ++ rest) last more next remaining afters) :
    Grows sketch nesting grown waiting rest last (nodes ++ more) (next ++ new) remaining
      (outs ++ afters) := by
  have hyield := h.yield.append hnext.yield
  rw [← shapes_append, ← List.append_assoc] at hyield
  exact ⟨hyield, List.forall_mem_append.mpr ⟨hnext.native, h.native⟩⟩

theorem Grows.prepend {next remaining : List Pot} {afters : List Plot} {nodes more : List NodeId}
    {last : Pass} (h : Grows sketch nesting grown waiting rest after nodes new left outs)
    (hnext : Grows sketch nesting (new ++ grown) left (outs ++ rest) last more next remaining afters) :
    Grows sketch nesting grown waiting rest last (more ++ nodes) (next ++ new) remaining
      (afters ++ outs) := by
  have hyield := h.yield.prepend hnext.yield
  rw [← shapes_append, ← List.append_assoc] at hyield
  exact ⟨hyield, List.forall_mem_append.mpr ⟨hnext.native, h.native⟩⟩

/-- A row with the rows nested in it. -/
theorem Placed.nest {rendering : Rendering} {resolved : ResolvedFace} {pot : Pot}
    {last : Pass} {next remaining : List Pot} {inner : List NodeId}
    (h : Placed sketch nesting grown waiting rest pass group index levels after rendering resolved pot
      left)
    (hnests : nesting group = true)
    (hinner : Grows sketch nesting (pot :: grown) left (pot.kept ++ rest) last inner next remaining
      outs) :
    Grows sketch nesting grown waiting rest (last.nest rendering inner).1
      (last.nest rendering inner).2 (next ++ [pot]) remaining (Plot.nest pot.plots outs) := by
  have hpot : pot.showing.nests = true := by rw [h.native.nests, h.group, hnests]
  have hyield := h.shows.nest hpot hinner.yield
  rw [← h.shows.shapes, ← shapes_nest, List.append_cons] at hyield
  exact ⟨hyield, List.forall_mem_append.mpr
    ⟨hinner.native, List.forall_mem_singleton.mpr h.native⟩⟩

end Pass

end ReactiveMarkup
