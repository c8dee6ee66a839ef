import ReactiveMarkup.Proofs.Face.Sketch
import ReactiveMarkup.Proofs.Markup.Nest
import ReactiveMarkup.Proofs.Markup.Shown

/-!
# What the slots of a pass keep

What a slot keeps is a pot: the plots that a row was made from, whole, or open at their first place
when content is nested in them. Between two passes the pots stand side by side with the templates,
and that is all that is ever known about the nodes: where they hang, and what else hangs below an
open place, may be anything, because a pass never looks there. During a pass every pot is in one of
three states. It waits among those of the pass before, it has been taken over or made by this pass, or
it is gone.

`Tended` is what holds of a pass between two rows, and `Shows` is what one row comes to. A row that is
taken over has the right shape when what its slot was shown with is `Steady`: with the same slot,
version and face comes the same filled in template, and a slot that had content nested in it is used
for nesting again.
-/

namespace ReactiveMarkup

open Plot

/-- What a row was shown with stays right for another row of the same slot, version and face. -/
def Steady (pattern : Pattern) (form : NodeId → Shape) (before now : Showing) : Prop :=
  before.name = now.name → before.version = now.version → before.face.index = now.face.index →
    before.shapes pattern form = now.shapes pattern form ∧
      (before.nests = true → now.nests = false →
        Shape.havePlace (now.shapes pattern form) = false)

/-- The plots that show a row. -/
structure Pot where
  showing : Showing
  plots : List Plot

namespace Pot

/-- What is known of the plots after content may have been nested in them. -/
def kept (pot : Pot) : List Plot := if pot.showing.nests then openIn pot.plots else pot.plots

/-- What is known of the plots of some pots. -/
def keptIn (pots : List Pot) : List Plot := pots.flatMap kept

/-- A slot and the pot it stands for. -/
structure Holds (pattern : Pattern) (form : NodeId → Shape) (slot : SlotName × Rendering)
    (pot : Pot) : Prop where
  name : slot.1 = pot.showing.name
  version : slot.2.version = pot.showing.version
  face : slot.2.face = pot.showing.face.index
  nodes : slot.2.nodes = pot.plots.map root
  whole : AreWhole pot.plots
  shapes : Plot.shapes pot.plots = pot.showing.shapes pattern form

@[simp] theorem keptIn_cons (pot : Pot) (pots : List Pot) :
    keptIn (pot :: pots) = pot.kept ++ keptIn pots := List.flatMap_cons

@[simp] theorem keptIn_append (pots more : List Pot) :
    keptIn (pots ++ more) = keptIn pots ++ keptIn more := List.flatMap_append

theorem keptIn_sublist {pots others : List Pot} (h : pots.Sublist others) :
    (keptIn pots).Sublist (keptIn others) := by
  induction h with
  | slnil => exact List.Sublist.refl _
  | cons pot _ ih => exact ih.trans (List.sublist_append_right _ _)
  | cons_cons pot _ ih => exact (List.Sublist.refl _).append ih

theorem covers_kept (pot : Pot) : Covers pot.plots pot.kept := by
  rw [kept]
  split
  · exact Covers.openIn pot.plots
  · exact Covers.refl _

/-- The tops of what a pot keeps are the tops of its plots. -/
theorem roots_kept (pot : Pot) : pot.kept.map root = pot.plots.map root := by
  rw [kept]
  split
  · exact roots_openIn pot.plots
  · rfl

end Pot

open Pot

variable {pattern : Pattern} {form : NodeId → Shape}

theorem slot_of_pot {slots : List (SlotName × Rendering)} {pots : List Pot}
    (h : List.Forall₂ (Holds pattern form) slots pots) {pot : Pot} (hpot : pot ∈ pots) :
    ∃ slot ∈ slots, Holds pattern form slot pot := by
  induction h with
  | nil => cases hpot
  | cons hslot _ ih =>
      rcases List.mem_cons.mp hpot with rfl | hin
      · exact ⟨_, List.mem_cons_self, hslot⟩
      · obtain ⟨slot, hmem, hholds⟩ := ih hin
        exact ⟨slot, List.mem_cons_of_mem _ hmem, hholds⟩

theorem pot_of_slot {slots : List (SlotName × Rendering)} {pots : List Pot}
    (h : List.Forall₂ (Holds pattern form) slots pots) {slot : SlotName × Rendering}
    (hslot : slot ∈ slots) : ∃ pot ∈ pots, Holds pattern form slot pot := by
  induction h with
  | nil => cases hslot
  | cons hpot _ ih =>
      rcases List.mem_cons.mp hslot with rfl | hin
      · exact ⟨_, List.mem_cons_self, hpot⟩
      · obtain ⟨pot, hmem, hholds⟩ := ih hin
        exact ⟨pot, List.mem_cons_of_mem _ hmem, hholds⟩

/-- The pot of a slot that is found. -/
theorem holds_of_lookup {slots : List (SlotName × Rendering)} {pots : List Pot} {name : SlotName}
    {rendering : Rendering} (h : List.Forall₂ (Holds pattern form) slots pots)
    (hfound : slots.lookup name = some rendering) :
    ∃ pot ∈ pots, Holds pattern form (name, rendering) pot ∧
      Covers (keptIn pots)
        (pot.kept ++ keptIn (pots.filter fun other => other.showing.name != name)) := by
  induction h with
  | nil => cases hfound
  | @cons slot pot slots pots hslot hrest ih =>
      obtain ⟨slotName, kept⟩ := slot
      rw [List.lookup_cons] at hfound
      cases hname : name == slotName with
      | true =>
          rw [hname] at hfound
          obtain rfl : kept = rendering := Option.some.inj hfound
          obtain rfl : name = slotName := eq_of_beq hname
          refine ⟨pot, List.mem_cons_self, hslot, ?_⟩
          have hsame : pot.showing.name = name := hslot.name.symm
          rw [List.filter_cons_of_neg (by simp [hsame]), keptIn_cons]
          exact Covers.of_sublist
            ((List.Sublist.refl _).append (keptIn_sublist List.filter_sublist))
      | false =>
          rw [hname] at hfound
          obtain ⟨found, hmem, hholds, hcovers⟩ := ih hfound
          refine ⟨found, List.mem_cons_of_mem _ hmem, hholds, ?_⟩
          have hother : (pot.showing.name != name) = true := by
            refine bne_iff_ne.mpr fun heq => ?_
            rw [← heq, ← hslot.name, beq_self_eq_true] at hname
            cases hname
          rw [List.filter_cons_of_pos (by exact hother), keptIn_cons, keptIn_cons]
          refine ((Covers.refl pot.kept).append hcovers).trans (Covers.of_perm ?_)
          rw [← List.append_assoc, ← List.append_assoc]
          exact List.perm_append_comm.append_right _

theorem holds_filter {slots : List (SlotName × Rendering)} {pots : List Pot} (name : SlotName)
    (h : List.Forall₂ (Holds pattern form) slots pots) :
    List.Forall₂ (Holds pattern form) (slots.filter fun slot => slot.1 != name)
      (pots.filter fun pot => pot.showing.name != name) := by
  induction h with
  | nil => exact .nil
  | @cons slot pot slots pots hslot hrest ih =>
      rw [List.filter_cons, List.filter_cons, hslot.name]
      split
      · exact .cons hslot ih
      · exact ih

/-- What holds of a pass between two rows: its slots have pots, `grown` those of this pass and
`waiting` those of the pass before. -/
structure Tended (sketch : Sketch) (grown waiting : List Pot) (pass : Pass) : Prop where
  faces : pass.faces = sketch.faces
  pattern : pass.pattern = sketch.pattern
  seen : pass.seen = grown.map fun pot => (pot.showing.name.group, pot.showing.name.key)
  shown : pass.shown = grown.length
  next : List.Forall₂ (Holds sketch.pattern sketch.form) pass.next grown
  previous : List.Forall₂ (Holds sketch.pattern sketch.form) pass.previous waiting

/-- Changes of the markup and of the counts are no concern of the slots. -/
theorem Tended.congr {sketch : Sketch} {grown waiting : List Pot} {pass changed : Pass}
    (h : Tended sketch grown waiting pass) (hfaces : changed.faces = pass.faces)
    (hpattern : changed.pattern = pass.pattern) (hseen : changed.seen = pass.seen)
    (hshown : changed.shown = pass.shown) (hnext : changed.next = pass.next)
    (hprevious : changed.previous = pass.previous) : Tended sketch grown waiting changed :=
  ⟨hfaces.trans h.faces, hpattern.trans h.pattern, hseen.trans h.seen, hshown.trans h.shown,
    hnext ▸ h.next, hprevious ▸ h.previous⟩

/-- What a row comes to before content is nested in it: a pot of its own. -/
structure Shows (sketch : Sketch) (grown waiting : List Pot) (rest : List Plot) (pass : Pass)
    (showing : Showing) (nodes : List NodeId) (pot : Pot) (left : List Pot) : Prop where
  tended : Tended sketch (pot :: grown) left pass
  remaining : left.Sublist waiting
  is : pot.showing = showing
  nodes : nodes = pot.plots.map root
  shapes : Plot.shapes pot.plots = sketch.shapes showing
  whole : AreWhole pot.plots
  garden : Garden pass.markup (pot.kept ++ (keptIn left ++ rest))

namespace Pass

variable {sketch : Sketch} {grown waiting : List Pot} {rest : List Plot} {pass : Pass}

/-! ## One row -/

/-- Taking a pot over: what is known of its plots is enough for the row that is shown now. -/
theorem covers_taken {pot : Pot} {showing : Showing}
    (hplots : Plot.shapes pot.plots = showing.shapes pattern form)
    (hnests : pot.showing.nests = true → showing.nests = false →
      Shape.havePlace (showing.shapes pattern form) = false) :
    Covers pot.kept (Pot.kept ⟨showing, pot.plots⟩) := by
  rw [kept, kept]
  cases hbefore : pot.showing.nests with
  | false =>
      rw [if_neg Bool.false_ne_true]
      exact covers_kept ⟨showing, pot.plots⟩
  | true =>
      cases hnow : showing.nests with
      | true => exact Covers.refl _
      | false =>
          have hnone : placeIn? pot.plots = none := by
            rw [← Option.isNone_iff_eq_none, ← Option.not_isSome, isSome_placeIn?, hplots,
              hnests hbefore hnow]
            rfl
          rw [if_pos rfl, if_neg Bool.false_ne_true, openIn_of_none hnone]
          exact Covers.refl _

/-- A pass with a slot gone and a row of its name shown. -/
def passed (pass : Pass) (name : SlotName) : Pass :=
  { pass with
    previous := pass.previous.filter fun slot => slot.1 != name
    seen := (name.group, name.key) :: pass.seen
    shown := pass.shown + 1 }

/-- The content of a slot taken over. -/
def takeOver (pass : Pass) (name : SlotName) (rendering : Rendering) : Pass × Rendering :=
  ({ pass.passed name with
      next := (name, rendering) :: pass.next
      counts := { pass.counts with reused := pass.counts.reused + 1 } },
    rendering)

/-- New content made for a slot. -/
def makeNew (pass : Pass) (name : SlotName) (entry : Entry) (face : Face) : Pass × Rendering :=
  let (markup, nodes) := pass.markup.substitute face.template pass.pattern entry.row
  let rendering := ⟨pass.serial, name.key, entry.version, face.index, nodes⟩
  ({ pass.passed name with
      markup
      serial := pass.serial + 1
      next := (name, rendering) :: pass.next
      counts := { pass.counts with rendered := pass.counts.rendered + 1 } },
    rendering)

theorem place_eq (name : SlotName) (entry : Entry) (face : Face) :
    pass.place name entry face =
      match pass.previous.lookup name with
      | some rendering =>
        if rendering.version = entry.version && rendering.face = face.index then
          pass.takeOver name rendering
        else pass.makeNew name entry face
      | none => pass.makeNew name entry face := rfl

theorem tended_passed (h : Tended sketch grown waiting pass) {name : SlotName} {pot : Pot}
    {rendering : Rendering} (hholds : Holds sketch.pattern sketch.form (name, rendering) pot) :
    Tended sketch (pot :: grown) (waiting.filter fun pot => pot.showing.name != name)
      { pass.passed name with next := (name, rendering) :: pass.next } where
  faces := h.faces
  pattern := h.pattern
  seen := by
    rw [passed, h.seen, List.map_cons, ← hholds.name]
  shown := by
    rw [passed, h.shown, List.length_cons]
  next := .cons hholds h.next
  previous := holds_filter name h.previous

/-- A row that is made anew has a pot. -/
theorem makeNew_shows (h : Tended sketch grown waiting pass) (name : SlotName) (entry : Entry)
    {face : Face} (nests : Bool) (hroots : Rooted sketch.form rest face.template)
    (hgarden : Garden pass.markup (keptIn waiting ++ rest)) :
    ∃ pot left, Shows sketch grown waiting rest (pass.makeNew name entry face).1
      ⟨name, entry.version, face, entry.row, nests⟩ (pass.makeNew name entry face).2.nodes
      pot left := by
  obtain ⟨copies, hnodes, hshapes, hwhole, hmade⟩ :=
    hgarden.substitute pass.pattern entry.row (hroots.mono (List.subset_append_right _ _))
  rw [h.pattern] at hshapes
  let pot : Pot := ⟨⟨name, entry.version, face, entry.row, nests⟩, copies⟩
  have hholds : Holds sketch.pattern sketch.form (name, (pass.makeNew name entry face).2) pot :=
    ⟨rfl, rfl, rfl, hnodes.symm, hwhole, hshapes⟩
  refine ⟨pot, waiting.filter fun pot => pot.showing.name != name, ?_⟩
  exact {
    tended := (tended_passed h hholds).congr rfl rfl rfl rfl rfl rfl
    remaining := List.filter_sublist
    is := rfl
    nodes := hnodes.symm
    shapes := hshapes
    whole := hwhole
    garden := covers_kept pot _ _
      (hmade.sublist ((List.Sublist.refl _).append
        ((keptIn_sublist List.filter_sublist).append (List.Sublist.refl _)))) }

/-- The pot of a slot that is taken over can stand for any row that it holds the shapes of. -/
theorem takeOver_shows_of (h : Tended sketch grown waiting pass) {name : SlotName} {old : Pot}
    {showing : Showing} {rendering : Rendering}
    (hcovers : Covers (keptIn waiting)
      (old.kept ++ keptIn (waiting.filter fun pot => pot.showing.name != name)))
    (hholds : Holds sketch.pattern sketch.form (name, rendering) ⟨showing, old.plots⟩)
    (hnests : old.showing.nests = true → showing.nests = false →
      Shape.havePlace (showing.shapes sketch.pattern sketch.form) = false)
    (hgarden : Garden pass.markup (keptIn waiting ++ rest)) :
    Shows sketch grown waiting rest (pass.takeOver name rendering).1 showing rendering.nodes
      ⟨showing, old.plots⟩ (waiting.filter fun pot => pot.showing.name != name) where
  tended := (tended_passed h hholds).congr rfl rfl rfl rfl rfl rfl
  remaining := List.filter_sublist
  is := rfl
  nodes := hholds.nodes
  shapes := hholds.shapes
  whole := hholds.whole
  garden := by
    have hkept := hcovers _ _ hgarden
    rw [List.append_assoc] at hkept
    have hshapes : Plot.shapes old.plots = showing.shapes sketch.pattern sketch.form := hholds.shapes
    exact covers_taken hshapes hnests _ _ hkept

/-- A row that is taken over has a pot: the one its slot had. -/
theorem takeOver_shows (h : Tended sketch grown waiting pass) {name : SlotName} {entry : Entry}
    {face : Face} {nests : Bool} {rendering : Rendering}
    (hfound : pass.previous.lookup name = some rendering)
    (hversion : rendering.version = entry.version) (hface : rendering.face = face.index)
    (hsteady : ∀ pot ∈ waiting, Steady sketch.pattern sketch.form pot.showing
      ⟨name, entry.version, face, entry.row, nests⟩)
    (hgarden : Garden pass.markup (keptIn waiting ++ rest)) :
    ∃ pot left, Shows sketch grown waiting rest (pass.takeOver name rendering).1
      ⟨name, entry.version, face, entry.row, nests⟩ rendering.nodes pot left := by
  obtain ⟨old, hmem, hold, hcovers⟩ := holds_of_lookup h.previous hfound
  obtain ⟨hsame, hnests⟩ := hsteady old hmem hold.name.symm (hold.version.symm.trans hversion)
    (hold.face.symm.trans hface)
  exact ⟨_, _, takeOver_shows_of h hcovers
    ⟨rfl, hversion, hface, hold.nodes, hold.whole, hold.shapes.trans hsame⟩ hnests hgarden⟩

/-- A row that is placed has a pot. -/
theorem place_shows (h : Tended sketch grown waiting pass) {name : SlotName} {entry : Entry}
    {face : Face} {nests : Bool} (hroots : Rooted sketch.form rest face.template)
    (hsteady : ∀ pot ∈ waiting, Steady sketch.pattern sketch.form pot.showing
      ⟨name, entry.version, face, entry.row, nests⟩)
    (hgarden : Garden pass.markup (keptIn waiting ++ rest)) :
    ∃ pot left, Shows sketch grown waiting rest (pass.place name entry face).1
      ⟨name, entry.version, face, entry.row, nests⟩ (pass.place name entry face).2.nodes
      pot left := by
  rw [place_eq]
  cases hfound : pass.previous.lookup name with
  | none => exact makeNew_shows h name entry nests hroots hgarden
  | some rendering =>
      dsimp only
      split
      · next hsame =>
          rw [Bool.and_eq_true, decide_eq_true_eq, decide_eq_true_eq] at hsame
          exact takeOver_shows h hfound hsame.1 hsame.2 hsteady hgarden
      · exact makeNew_shows h name entry nests hroots hgarden

theorem chosen_eq (h : Tended sketch grown waiting pass) (index : Nat) (levels : List String) :
    ((pass.select index levels).bind fun position => pass.faces[position]?) =
      (sketch.faces.findIdx? fun face =>
          face.fits index (RowType.after (grown.map Pot.showing).length) levels).bind
        fun position => sketch.faces[position]? := by
  rw [select, h.faces, h.shown, List.length_map]

/-- A row that the sketch leaves out is left out. -/
theorem renderRow_none (h : Tended sketch grown waiting pass) {group : String} {nests : Bool}
    {index : Nat} {levels : List String}
    (hnone : sketch.showRow group nests (grown.map Pot.showing) index levels = none) :
    ∃ after, pass.renderRow group sketch.source index levels = (after, none) ∧
      Tended sketch grown waiting after ∧ after.markup = pass.markup := by
  rw [Sketch.showRow] at hnone
  rw [renderRow]
  cases hentry : sketch.source.entries[index]? with
  | none => exact ⟨pass, rfl, h, rfl⟩
  | some entry =>
      rw [hentry] at hnone
      dsimp only at hnone ⊢
      rw [chosen_eq h]
      generalize (sketch.faces.findIdx? _).bind _ = chosen at hnone ⊢
      cases chosen with
      | none => exact ⟨_, rfl, h.congr rfl rfl rfl rfl rfl rfl, rfl⟩
      | some resolved => cases hnone

/-- A row that the sketch shows is shown, and has a pot. -/
theorem renderRow_some (h : Tended sketch grown waiting pass) {group : String} {nests : Bool}
    {index : Nat} {levels : List String} {showing : Showing}
    (hsome : sketch.showRow group nests (grown.map Pot.showing) index levels = some showing)
    (hroots : ∀ resolved ∈ sketch.faces, Rooted sketch.form rest resolved.face.template)
    (hgarden : Garden pass.markup (keptIn waiting ++ rest))
    (hsteady : ∀ pot ∈ waiting, Steady sketch.pattern sketch.form pot.showing showing) :
    showing.nests = nests ∧ ∃ after rendering pot left,
      pass.renderRow group sketch.source index levels = (after, some rendering) ∧
        Shows sketch grown waiting rest after showing rendering.nodes pot left := by
  have hseen : pass.seen = (grown.map Pot.showing).map fun showing =>
      (showing.name.group, showing.name.key) := by
    rw [h.seen, List.map_map]
    rfl
  rw [Sketch.showRow] at hsome
  rw [renderRow]
  cases hentry : sketch.source.entries[index]? with
  | none =>
      rw [hentry] at hsome
      cases hsome
  | some entry =>
      rw [hentry] at hsome
      dsimp only at hsome ⊢
      rw [chosen_eq h]
      generalize hface : (sketch.faces.findIdx? _).bind _ = chosen at hsome ⊢
      cases chosen with
      | none => cases hsome
      | some resolved =>
          obtain rfl := Option.some.inj hsome
          obtain ⟨position, -, hat⟩ := Option.bind_eq_some_iff.mp hface
          dsimp only
          rw [hseen]
          obtain ⟨pot, left, hshows⟩ := place_shows h
            (hroots resolved (List.mem_of_getElem? hat)) hsteady hgarden
          exact ⟨rfl, _, _, pot, left, rfl, hshows⟩

end Pass

end ReactiveMarkup
