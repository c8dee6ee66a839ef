import Mathlib.Logic.Relation
import ReactiveMarkup.Component.Registry
import ReactiveMarkup.Proofs.Markup.Links
import ReactiveMarkup.Proofs.Markup.Thinning

/-!
# Parts that commands take out

A command takes its parts out of its element: the members of a load, the faces, layouts and sections of a
command that shows rows. The parts themselves are emptied, and marks in them become anchors. Nothing else
changes: a node that is not in a part keeps its children in their order, but for the parts.

What happens inside a part stays there, because a part is closed under going to children: a set of nodes that
is closed in this way, with all nodes that are not made yet, cannot be left by making anchors for marks.
-/

namespace ReactiveMarkup

/-- Whether a node is a part that a command takes out. -/
def Command.takes : Command → NodeKind → Bool
  | .load, kind => kind.tag?.any (Unicode.sameName · "member")
  | .faces command, kind => kind.tag?.any fun tag =>
    Unicode.sameName tag "face" || Unicode.lower tag == "layout" || Unicode.lower tag == "else-layout"
      || command == .list && (Unicode.sameName tag "divider" || Unicode.sameName tag "incomplete")
  | .wrapper, _ => false
  | .host _, _ => false

namespace Markup

open Relation

variable {markup before middle after : Markup} {id child other command part : NodeId}

/-! ## Closed sets of nodes -/

/-- A set of nodes that no child leaves, with all nodes that are still to come. -/
structure Encloses (inside : NodeId → Prop) (markup : Markup) : Prop where
  inner : ∀ id, inside id → ∀ child ∈ markup.children id, inside child
  new : ∀ id, markup.size ≤ id → inside id

variable {inside : NodeId → Prop}

theorem Encloses.thins (h : Encloses inside before) (hthins : Thins before after) :
    Encloses inside after where
  inner id hid child hchild := (hthins.children id child hchild).elim (h.inner id hid child)
    fun hfresh => h.new child hfresh.1
  new id hle := h.new id (Nat.le_trans hthins.size hle)

/-- Markup was taken apart inside of a closed set. -/
structure Confined (inside : NodeId → Prop) (before after : Markup) : Prop extends
    Thins before after where
  outside : ∀ id, ¬inside id → after.children id = before.children id
  linked : before.Linked → after.Linked

theorem Confined.refl (inside : NodeId → Prop) (markup : Markup) : Confined inside markup markup :=
  { Thins.refl markup with outside := fun _ _ => rfl, linked := id }

theorem Confined.trans (h : Confined inside before middle) (h' : Confined inside middle after) :
    Confined inside before after :=
  { h.toThins.trans h'.toThins with
    outside := fun id hid => (h'.outside id hid).trans (h.outside id hid)
    linked := fun hlinked => h'.linked (h.linked hlinked) }

theorem confined_createAnchor (inside : NodeId → Prop) (markup : Markup) (name : String) :
    Confined inside markup (markup.create (.anchor name)).1 :=
  { thins_createAnchor markup name with
    outside := fun id _ => children_create _ id
    linked := fun hlinked => hlinked.create _ }

theorem confined_takeChildren (hid : inside id) : Confined inside markup (markup.takeChildren id).1 :=
  { thins_takeChildren markup id with
    outside := fun other hother => by
      have hne : other ≠ id := fun hsame => hother (hsame ▸ hid)
      rw [children_takeChildren, if_neg hne]
    linked := fun hlinked => hlinked.takeChildren id }

theorem confined_putAnchor (hid : inside id) (hlt : id < markup.size) (child : NodeId) (index : Nat)
    (name : String) :
    Confined inside markup (((markup.remove id child).1.create (.anchor name)).1.insert id index
      ((markup.remove id child).1.create (.anchor name)).2) where
  toThins := thins_putAnchor markup id child index name
  outside other hother := by
    have hne : other ≠ id := fun hsame => hother (hsame ▸ hid)
    rw [create_snd, insert, detach_of_no_parent (parent?_create_self _), children_setChildren_of_ne hne,
      children_setParent, children_create, children_remove, if_neg hne]
  linked hlinked := by
    refine ((hlinked.remove id child).create _).insert ?_ ?_ index
    · rw [size_create, size_remove]
      exact Nat.lt_succ_of_lt hlt
    · rw [create_snd, size_create]
      exact Nat.lt_succ_self _

theorem confined_markAnchorsTo (depth : Nat) (h : Encloses inside markup) (hid : inside id) :
    Confined inside markup (markup.markAnchorsTo depth id) := by
  induction depth generalizing markup id with
  | zero => exact .refl inside markup
  | succ depth ih =>
      rw [markAnchorsTo_succ]
      refine List.foldlRecOn (motive := fun state : Markup × Nat => Confined inside markup state.1)
        _ _ (.refl inside markup) fun state hstate child hchild => hstate.trans ?_
      rw [markChild]
      split
      · exact confined_putAnchor hid
          (Nat.lt_of_lt_of_le (lt_size_of_mem_children hchild) hstate.size) child state.2 _
      · exact ih (h.thins hstate.toThins) (h.inner id hid child hchild)

theorem confined_replaceMarks (inside : NodeId → Prop) (markup : Markup) (ids : List NodeId) :
    Confined inside markup (mapAccum replaceMark markup ids).1 := by
  induction ids generalizing markup with
  | nil => exact .refl inside markup
  | cons id rest ih =>
      have hfirst : Confined inside markup (markup.replaceMark id).1 := by
        rw [replaceMark]
        split
        · exact confined_createAnchor inside markup _
        · exact .refl inside markup
      exact hfirst.trans (ih _)

/-- The content of a node of a closed set is taken as a template. -/
theorem confined_detachTemplate (h : Encloses inside markup) (hid : inside id) :
    Confined inside markup (markup.detachTemplate id).1 := by
  rw [detachTemplate_eq]
  refine Confined.trans ?_ (confined_replaceMarks inside _ _)
  refine List.foldlRecOn (motive := Confined inside markup) _ _ (confined_takeChildren hid)
    fun state hstate child hchild => hstate.trans ?_
  exact confined_markAnchorsTo state.size (h.thins hstate.toThins) (h.inner id hid child hchild)

/-! ## Parts -/

/-- A node that is a part of a command or below one. -/
def InPart (markup : Markup) (parts : NodeId → NodeId → Prop) (id : NodeId) : Prop :=
  ∃ command part, parts command part ∧
    ReflTransGen (fun above below => below ∈ markup.children above) part id

/-- Whoever is in no part keeps its children in their order, apart from its own parts. -/
structure Saves (parts : NodeId → NodeId → Prop) (before after : Markup) : Prop where
  thins : Thins before after
  linked : after.Linked
  order : ∀ id < before.size, ¬before.InPart parts id →
    (after.children id).Sublist (before.children id)
  lost : ∀ id < before.size, ¬before.InPart parts id → ∀ child ∈ before.children id,
    child ∉ after.children id → parts id child
  untouched : (∀ command part, ¬parts command part) → after = before

variable {parts : NodeId → NodeId → Prop}

theorem Saves.refl (h : markup.Linked) : Saves parts markup markup :=
  ⟨.refl markup, h, fun _ _ _ => List.Sublist.refl _, fun _ _ _ _ hin hout => absurd hin hout,
    fun _ => rfl⟩

theorem Saves.encloses (h : Saves parts before after) :
    Encloses (fun id => before.InPart parts id ∨ before.size ≤ id) after where
  inner id hid child hchild := by
    rcases h.thins.children id child hchild with hold | ⟨hle, -⟩
    · rcases hid with ⟨command, part, hpart, hbelow⟩ | hle
      · exact .inl ⟨command, part, hpart, hbelow.tail hold⟩
      · rw [children_of_le hle] at hold
        cases hold
    · exact .inr hle
  new id hle := .inr (Nat.le_trans h.thins.size hle)

/-- A part is emptied. -/
theorem Saves.detachTemplate (h : Saves parts before after) (hpart : parts command part) :
    Saves parts before (after.detachTemplate part).1 := by
  have hconfined := confined_detachTemplate h.encloses (.inl ⟨command, part, hpart, .refl⟩)
  have hsame : ∀ id < before.size, ¬before.InPart parts id →
      (after.detachTemplate part).1.children id = after.children id :=
    fun id hlt hnot => hconfined.outside id fun hin => hin.elim hnot (Nat.not_le.mpr hlt)
  refine ⟨h.thins.trans hconfined.toThins, hconfined.linked h.linked, fun id hlt hnot => ?_,
    fun id hlt hnot child hin hout => ?_, fun hnone => absurd hpart (hnone command part)⟩
  · rw [hsame id hlt hnot]
    exact h.order id hlt hnot
  · rw [hsame id hlt hnot] at hout
    exact h.lost id hlt hnot child hin hout

/-- A part is taken out of its command. -/
theorem Saves.detach (h : Saves parts before after) (hbefore : before.Linked)
    (hpart : parts command part) (hin : part ∈ before.children command) :
    Saves parts before (after.detach part) where
  thins := h.thins.trans (thins_detach after part)
  linked := h.linked.detach part
  order id hlt hnot := (children_detach_sublist part id).trans (h.order id hlt hnot)
  lost id hlt hnot child hchild hout := by
    by_cases hthere : child ∈ after.children id
    · have hsame : child = part := by
        by_contra hne
        rw [children_detach] at hout
        split at hout
        · exact hout ((List.mem_erase_of_ne hne).mpr hthere)
        · exact hout hthere
      subst hsame
      exact hbefore.parent_unique hin hchild ▸ hpart
    · exact h.lost id hlt hnot child hchild hthere
  untouched hnone := absurd hpart (hnone command part)

/-- Nodes that were made meanwhile have no tag. -/
theorem Saves.tag?_of_le (h : Saves parts before after) (hle : before.size ≤ id) :
    (after.kind id).tag? = none := by
  rcases Nat.lt_or_ge id after.size with hlt | hge
  · obtain ⟨name, hname⟩ := h.thins.fresh id hle hlt
    rw [hname]
    rfl
  · rw [kind, get?_eq_none_of_le hge]
    rfl

end Markup

/-! ## Commands that are read -/

open Markup

theorem Command.takes_of_no_tag {kind : NodeKind} (h : kind.tag? = none) (command : Command) :
    command.takes kind = false := by
  cases command <;> simp [takes, h]

/-- A reading keeps something that holds of the markup, also when it fails. -/
def Reading.Upholds {α : Type} (holds : Markup → Prop) (reading : Reading α) : Prop :=
  ∀ markup, holds markup → holds (reading.run markup).2

namespace Reading

variable {α β : Type} {holds : Markup → Prop}

theorem Upholds.pure (result : α) : Upholds holds (Pure.pure result) := fun _ h => h

theorem Upholds.throw (error : Error) : Upholds holds (throw error : Reading α) := fun _ h => h

theorem Upholds.bind {reading : Reading α} {next : α → Reading β} (h : Upholds holds reading)
    (hnext : ∀ result, Upholds holds (next result)) : Upholds holds (reading >>= next) := by
  intro markup hmarkup
  have hfirst := h markup hmarkup
  rw [run_bind]
  generalize reading.run markup = reached at hfirst ⊢
  obtain ⟨result | result, changed⟩ := reached
  · exact hfirst
  · exact hnext result changed hfirst

theorem Upholds.read {next : Markup → Reading α} (h : ∀ markup, holds markup → Upholds holds (next markup)) :
    Upholds holds (MonadState.get >>= next) := fun markup hmarkup => by
  have hget : (MonadState.get : Reading Markup).run markup = (.ok markup, markup) := rfl
  rw [run_bind, hget]
  exact h markup hmarkup markup hmarkup

theorem Upholds.modify {f : Markup → Markup} (h : ∀ markup, holds markup → holds (f markup)) :
    Upholds holds (modify f) := h

theorem Upholds.change {f : Markup → Markup × α} (h : ∀ markup, holds markup → holds (f markup).1) :
    Upholds holds (change f) := h

theorem Upholds.ofExcept (made : Except Error α) : Upholds holds (ofExcept made) := by
  cases made with
  | ok result => exact .pure result
  | error error => exact .throw error

theorem Upholds.attempt {f : Markup → Except Error (Markup × α)}
    (h : ∀ markup changed result, holds markup → f markup = .ok (changed, result) → holds changed) :
    Upholds holds (attempt f) := by
  refine .read fun read hread => ?_
  cases hmade : f read with
  | ok made => exact fun _ _ => h read made.1 made.2 hread hmade
  | error error => exact .throw error

end Reading

open Reading (Upholds)

section

variable {parts : NodeId → NodeId → Prop} {before markup : Markup} {id child : NodeId}
  {command : Command}

/-- What a command takes among the children of its element is a part. -/
def Owns (parts : NodeId → NodeId → Prop) (before : Markup) (id : NodeId) (command : Command) : Prop :=
  ∀ child ∈ before.children id, command.takes (before.kind child) = true → parts id child

/-- A child of an element that is a part of it. -/
def Loose (parts : NodeId → NodeId → Prop) (before : Markup) (child : NodeId) : Prop :=
  ∃ id, parts id child ∧ child ∈ before.children id

theorem Markup.Saves.part (h : Saves parts before markup) (hbefore : before.Linked)
    (howns : Owns parts before id command)
    (hchild : child ∈ before.children id ∨ before.size ≤ child)
    (htakes : command.takes (markup.kind child) = true) :
    Loose parts before child := by
  rcases hchild with hin | hle
  · rw [h.thins.kind child (hbefore.lt_size hin)] at htakes
    exact ⟨id, howns child hin htakes, hin⟩
  · rw [Command.takes_of_no_tag (h.tag?_of_le hle)] at htakes
    cases htakes

/-- The children of the element, also those that are there meanwhile. -/
theorem Markup.Saves.among (h : Saves parts before markup) (hin : child ∈ markup.children id) :
    child ∈ before.children id ∨ before.size ≤ child :=
  (h.thins.children id child hin).imp_right And.left

theorem upholds_readMembers (hbefore : before.Linked) (ids : List NodeId)
    (hids : ∀ child ∈ ids, Loose parts before child) :
    Upholds (Saves parts before) (LoadCommand.readMembers ids) := by
  induction ids with
  | nil => exact .pure _
  | cons first rest ih =>
      obtain ⟨command, hpart, hin⟩ := hids first List.mem_cons_self
      rw [LoadCommand.readMembers]
      refine .read fun markup _ => ?_
      refine (Upholds.modify fun markup hsaves => hsaves.detach hbefore hpart hin).bind fun _ => ?_
      exact (Upholds.ofExcept _).bind fun _ =>
        (ih fun child hchild => hids child (List.mem_cons_of_mem _ hchild)).bind fun _ => .pure _

theorem upholds_readLoad (hbefore : before.Linked) (howns : Owns parts before id .load) (options : Options)
    (patterns : BindingPatterns) (providers : Providers) :
    Upholds (Saves parts before) (LoadCommand.read options patterns providers id) := by
  rw [LoadCommand.read]
  refine .read fun markup _ => ?_
  dsimp only
  split
  · exact .throw _
  · refine (Upholds.ofExcept _).bind fun _ => (Upholds.ofExcept _).bind fun _ => ?_
    refine .read fun markup hsaves => ?_
    refine (upholds_readMembers hbefore _ fun child hchild => ?_).bind fun _ =>
      (Upholds.ofExcept _).bind fun _ => .pure _
    obtain ⟨hin, htag⟩ := List.mem_filter.mp hchild
    exact hsaves.part hbefore howns (hsaves.among hin) htag

theorem upholds_readFaces (hbefore : before.Linked) (patterns : BindingPatterns) (index : Nat)
    (ids : List NodeId) (hids : ∀ child ∈ ids, Loose parts before child) :
    Upholds (Saves parts before) (ShowCommand.readFaces patterns index ids) := by
  induction ids generalizing index with
  | nil => exact .pure _
  | cons first rest ih =>
      obtain ⟨command, hpart, hin⟩ := hids first List.mem_cons_self
      rw [ShowCommand.readFaces]
      refine (Upholds.modify fun markup hsaves => hsaves.detach hbefore hpart hin).bind fun _ => ?_
      refine (Upholds.attempt fun markup changed face hsaves hread => ?_).bind fun _ =>
        (ih (index + 1) fun child hchild => hids child (List.mem_cons_of_mem _ hchild)).bind fun _ => .pure _
      obtain ⟨rfl, -, -⟩ := Face.read_ok hread
      exact hsaves.detachTemplate hpart

theorem saves_detachSection (hbefore : before.Linked) (hsaves : Saves parts before markup) {tag : String}
    (htag : ∀ kind : NodeKind, kind.tag?.any (Unicode.sameName · tag) = true → command.takes kind = true)
    (howns : Owns parts before id command) : Saves parts before (markup.detachSection id tag).1 := by
  rw [detachSection]
  split
  · next found hfound =>
      have hhas : markup.hasTag tag found = true := List.find?_some hfound
      obtain ⟨_, hpart, hin⟩ := hsaves.part hbefore howns
        (hsaves.among (List.mem_of_find?_eq_some hfound)) (htag _ hhas)
      exact (hsaves.detach hbefore hpart hin).detachTemplate hpart
  · exact hsaves

theorem saves_detachLayout (hbefore : before.Linked) (hsaves : Saves parts before markup) {kind : ShowKind}
    (howns : Owns parts before id (.faces kind)) : Saves parts before (markup.detachLayout id).1 := by
  rw [detachLayout_eq]
  refine List.foldlRecOn (motive := fun state : Markup × Layout => Saves parts before state.1) _ _ hsaves
    fun state hstate child hchild => ?_
  have hsection : (Command.faces kind).takes (state.1.kind child) = true →
      Saves parts before (state.1.detachSectionNode child).1 := fun htakes => by
    obtain ⟨_, hpart, hin⟩ := hstate.part hbefore howns (hsaves.among hchild) htakes
    exact (hstate.detachTemplate hpart).detach hbefore hpart hin
  rw [takeLayout]
  split
  · next lowered hlowered =>
      obtain ⟨tag, htag, rfl⟩ := Option.map_eq_some_iff.mp hlowered
      split
      · next hlayout => exact hsection (by simp [Command.takes, htag, hlayout])
      · split
        · next helse => exact hsection (by simp [Command.takes, htag, helse])
        · exact hstate
  · exact hstate

theorem upholds_readArrangement (hbefore : before.Linked) {kind : ShowKind}
    (howns : Owns parts before id (.faces kind)) (of : NodeKind) :
    Upholds (Saves parts before) (ShowCommand.readArrangement kind id of) := by
  cases kind with
  | list =>
      rw [ShowCommand.readArrangement]
      refine (Upholds.change fun markup hsaves => ?_).bind fun _ =>
        (Upholds.change fun markup hsaves => ?_).bind fun _ => .pure _
      · refine saves_detachSection hbefore hsaves (fun kind hdivider => ?_) howns
        obtain ⟨tag, htag, hsame⟩ := (Option.any_eq_true _ _).mp hdivider
        simp [Command.takes, htag, hsame]
      · refine saves_detachSection hbefore hsaves (fun kind hincomplete => ?_) howns
        obtain ⟨tag, htag, hsame⟩ := (Option.any_eq_true _ _).mp hincomplete
        simp [Command.takes, htag, hsame]
  | tree =>
      rw [ShowCommand.readArrangement]
      exact .pure _
  | view =>
      rw [ShowCommand.readArrangement]
      split
      · exact .pure _
      · exact .throw _

theorem upholds_readShow (hbefore : before.Linked) {kind : ShowKind}
    (howns : Owns parts before id (.faces kind)) (patterns : BindingPatterns) :
    Upholds (Saves parts before) (ShowCommand.read patterns kind id) := by
  rw [ShowCommand.read]
  refine .read fun markup _ => ?_
  dsimp only
  split
  · exact .throw _
  · refine (Upholds.ofExcept _).bind fun _ => (upholds_readArrangement hbefore howns _).bind fun _ => ?_
    refine (Upholds.change fun markup hsaves => saves_detachLayout hbefore hsaves howns).bind fun _ => ?_
    refine .read fun markup hsaves => ?_
    refine (upholds_readFaces hbefore _ _ _ fun child hchild => ?_).bind fun _ => .pure _
    obtain ⟨hin, htag⟩ := List.mem_filter.mp hchild
    refine hsaves.part hbefore howns (hsaves.among hin) ?_
    obtain ⟨tag, htag, hsame⟩ := (Option.any_eq_true _ _).mp htag
    simp [Command.takes, htag, hsame]

end

end ReactiveMarkup
