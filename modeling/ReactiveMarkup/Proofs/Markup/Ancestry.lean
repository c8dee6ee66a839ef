import Mathlib.Logic.Relation
import Mathlib.Order.RelClasses
import ReactiveMarkup.Proofs.Markup.Edits

/-!
# Ancestors

Nothing keeps a host from putting a node below itself, and then it is its own ancestor and has no top
above it. It comes about in one way only: a node is put into its own list, or into the list of a node
that is below it. As long as no edit does that, going up comes to an end wherever it begins.

A node that is put somewhere gets another parent, and all other nodes keep theirs. So a way up that does
not come by the node is the same before and after, and one that does goes on from where it was put.
Several nodes are put into a list one after another. None of them is moved off the way up from the list
if none is on it at the beginning; and once there is a circle through the owner of the list, whatever
else is put there leaves a circle.
-/

namespace ReactiveMarkup

namespace Markup

variable {markup before after : Markup} {id other child : NodeId} {nodes : List NodeId}

/-- A node is somewhere below another one. -/
def Under (markup : Markup) : NodeId → NodeId → Prop :=
  Relation.TransGen fun child id => markup.parent? child = some id

/-- A node is another one or below it. -/
def Within (markup : Markup) : NodeId → NodeId → Prop :=
  Relation.ReflTransGen fun child id => markup.parent? child = some id

/-- Going up comes to an end, wherever it begins. -/
def Grounded (markup : Markup) : Prop := WellFounded fun id child => markup.parent? child = some id

theorem not_within_of_parent?_none (h : markup.parent? id = none) (hne : other ≠ id) :
    ¬ markup.Within id other := fun hway => by
  rcases Relation.ReflTransGen.cases_head hway with hsame | ⟨next, hup, -⟩
  · exact hne hsame.symm
  · rw [h] at hup
    cases hup

theorem not_within_of_parent? {parent : NodeId} (h : markup.parent? id = some parent)
    (hne : other ≠ id) (hnot : ¬ markup.Within parent other) : ¬ markup.Within id other := fun hway => by
  rcases Relation.ReflTransGen.cases_head hway with hsame | ⟨next, hup, hrest⟩
  · exact hne hsame.symm
  · rw [h] at hup
    exact hnot (Option.some.inj hup ▸ hrest)

/-- Where going up comes to an end no node is its own ancestor. -/
theorem Grounded.not_under (h : Grounded markup) (id : NodeId) : ¬ markup.Under id id := fun hbelow =>
  have hup := Relation.transGen_swap.mp hbelow
  h.transGen.asymmetric id id hup hup

/-- Nodes may lose their parents. -/
theorem Grounded.mono (h : Grounded before)
    (hparent : ∀ child id, after.parent? child = some id → before.parent? child = some id) :
    Grounded after :=
  Subrelation.wf (fun hup => hparent _ _ hup) h

theorem Within.mono (h : before.Within id other)
    (hparent : ∀ child id, before.parent? child = some id → after.parent? child = some id) :
    after.Within id other :=
  Relation.ReflTransGen.mono hparent _ _ h

theorem Grounded.empty : Grounded Arena.empty :=
  ⟨fun child => ⟨child, fun id hup => by
    rw [parent?_of_le (Nat.zero_le child)] at hup
    cases hup⟩⟩

/-! ## Putting a node somewhere -/

/-- A node gets a parent, and the others keep theirs. -/
def Puts (before after : Markup) (id child : NodeId) : Prop :=
  ∀ other, after.parent? other = if other = child then some id else before.parent? other

namespace Puts

theorem self (h : Puts before after id child) : after.parent? child = some id := by
  rw [h child, if_pos rfl]

theorem of_ne (h : Puts before after id child) (hne : other ≠ child) :
    after.parent? other = before.parent? other := by
  rw [h other, if_neg hne]

/-- A way up goes on as it did, or comes by the node that was put elsewhere. -/
theorem within (h : Puts before after id child) {low high : NodeId} (hway : before.Within low high) :
    after.Within low high ∨ after.Within low child := by
  induction hway with
  | refl => exact .inl .refl
  | @tail middle high _ hup ih =>
      rcases ih with hlow | hchild
      · by_cases hmiddle : middle = child
        · exact .inr (hmiddle ▸ hlow)
        · exact .inl (hlow.tail ((h.of_ne hmiddle).trans hup))
      · exact .inr hchild

/-- A way up that did not come by the node does not come by it now. -/
theorem within_back (h : Puts before after id child) {low high : NodeId}
    (hnot : ¬ before.Within low child) (hway : after.Within low high) : before.Within low high := by
  induction hway with
  | refl => exact .refl
  | @tail middle high _ hup ih =>
      have hmiddle : middle ≠ child := fun hsame => hnot (hsame ▸ ih)
      exact ih.tail ((h.of_ne hmiddle).symm.trans hup)

/-- Whoever gets a node that is above becomes its own ancestor. -/
theorem under_self (h : Puts before after id child) (hway : before.Within id child) :
    after.Under id id :=
  have hchild : after.Within id child := (h.within hway).elim (fun hway => hway) fun hway => hway
  .tail' hchild h.self

/-- Whoever was its own ancestor still is when it gets a node. -/
theorem under_again (h : Puts before after id child) (hbelow : before.Under id id) :
    after.Under id id := by
  by_cases hself : id = child
  · exact .single (hself ▸ h.self)
  · obtain ⟨parent, hup, hway⟩ := Relation.TransGen.head'_iff.mp hbelow
    have hup' : after.parent? id = some parent := (h.of_ne hself).trans hup
    rcases h.within hway with hround | hchild
    · exact .head' hup' hround
    · exact .tail' (.head hup' hchild) h.self

/-- A node may be put anywhere but into itself and below itself. -/
theorem grounded (h : Puts before after id child) (hbefore : Grounded before)
    (hnot : ¬ before.Within id child) : Grounded after := by
  -- First the ways that never came by the node: the one from its new parent is among them.
  have hclear : ∀ low, ¬ before.Within low child →
      Acc (fun id child => after.parent? child = some id) low := fun low hlow => by
    induction low using hbefore.induction with
    | _ low ih =>
      refine ⟨low, fun parent hup => ?_⟩
      have hne : low ≠ child := fun hsame => hlow (hsame ▸ .refl)
      rw [h.of_ne hne] at hup
      exact ih parent hup fun hway => hlow (.head hup hway)
  refine ⟨fun low => ?_⟩
  induction low using hbefore.induction with
  | _ low ih =>
    refine ⟨low, fun parent hup => ?_⟩
    by_cases hsame : low = child
    · rw [hsame, h.self] at hup
      exact Option.some.inj hup ▸ hclear id hnot
    · rw [h.of_ne hsame] at hup
      exact ih parent hup

end Puts

/-! ## Operations -/

theorem parent?_of_takeChildren (hup : (markup.takeChildren id).1.parent? child = some other) :
    markup.parent? child = some other := by
  rw [parent?_takeChildren] at hup
  split at hup
  · cases hup
  · exact hup

namespace Linked

theorem puts_move (h : markup.Linked) (hchild : child < markup.size) (id : NodeId)
    (f : List NodeId → List NodeId) :
    Puts markup (((markup.detach child).setParent child (some id)).setChildren id f) id child := by
  intro other
  rw [parent?_setChildren, parent?_setParent (by rwa [size_detach]), h.parent?_detach]
  split
  · rfl
  · rfl

theorem puts_append (h : markup.Linked) (hchild : child < markup.size) (id : NodeId) :
    Puts markup (markup.append id child) id child := h.puts_move hchild id _

/-- Nodes that are not above the owner of a list may be put into it. -/
theorem grounded_appendAll (h : markup.Linked) (hgrounded : Grounded markup) (hid : id < markup.size)
    (hnodes : ∀ node ∈ nodes, node < markup.size) (hnot : ∀ node ∈ nodes, ¬ markup.Within id node) :
    Grounded (markup.appendAll id nodes) := by
  induction nodes generalizing markup with
  | nil => exact hgrounded
  | cons node rest ih =>
      obtain ⟨hnode, hrest⟩ := List.forall_mem_cons.mp hnodes
      obtain ⟨hclear, hclears⟩ := List.forall_mem_cons.mp hnot
      have hputs := h.puts_append hnode id
      rw [appendAll_cons]
      refine ih (h.append hid hnode) (hputs.grounded hgrounded hclear) ?_ ?_ ?_
      · rwa [size_append]
      · rwa [size_append]
      · exact fun other hother hway => hclears other hother (hputs.within_back hclear hway)

/-- The owner of a list stays its own ancestor. -/
theorem under_appendAll (h : markup.Linked) (hid : id < markup.size)
    (hnodes : ∀ node ∈ nodes, node < markup.size) (hbelow : markup.Under id id) :
    (markup.appendAll id nodes).Under id id := by
  induction nodes generalizing markup with
  | nil => exact hbelow
  | cons node rest ih =>
      obtain ⟨hnode, hrest⟩ := List.forall_mem_cons.mp hnodes
      have hputs := h.puts_append hnode id
      rw [appendAll_cons]
      refine ih (h.append hid hnode) ?_ ?_ (hputs.under_again hbelow)
      · rwa [size_append]
      · rwa [size_append]

/-- If one of the nodes is above the owner of the list, there is a circle in the end. -/
theorem under_appendAll_of_within (h : markup.Linked) (hid : id < markup.size)
    (hnodes : ∀ node ∈ nodes, node < markup.size) (hin : other ∈ nodes)
    (hway : markup.Within id other) : (markup.appendAll id nodes).Under id id := by
  induction nodes generalizing markup with
  | nil => cases hin
  | cons node rest ih =>
      obtain ⟨hnode, hrest⟩ := List.forall_mem_cons.mp hnodes
      have hputs := h.puts_append hnode id
      have hlinked := h.append hid hnode
      have hsize : (markup.append id node).size = markup.size := size_append id node
      rw [← hsize] at hid hrest
      rw [appendAll_cons]
      -- The first of the nodes that is above makes the circle; those before it leave the way alone.
      by_cases hfirst : markup.Within id node
      · exact hlinked.under_appendAll hid hrest (hputs.under_self hfirst)
      · have hlater : other ∈ rest :=
          (List.mem_cons.mp hin).resolve_left fun hsame => hfirst (hsame ▸ hway)
        refine ih hlinked hid hrest hlater ((hputs.within hway).resolve_right fun hround => ?_)
        exact hfirst (hputs.within_back hfirst hround)

/-- The way up from a node does not come by its children. -/
theorem within_takeChildren (h : markup.Linked) (hgrounded : Grounded markup)
    (hway : markup.Within id other) : (markup.takeChildren id).1.Within id other := by
  induction hway with
  | refl => exact .refl
  | @tail middle high hbefore hup ih =>
      refine ih.tail ?_
      rw [parent?_takeChildren, if_neg, hup]
      intro hmem
      rw [h.mem_iff] at hmem
      exact hgrounded.not_under id (.tail' hbefore hmem)

end Linked

namespace Grounded

theorem takeChildren (h : Grounded markup) (id : NodeId) : Grounded (markup.takeChildren id).1 :=
  h.mono fun _ _ => parent?_of_takeChildren

theorem remove (h : Grounded markup) (id child : NodeId) : Grounded (markup.remove id child).1 :=
  h.mono fun other high hup => by
    rw [parent?_remove] at hup
    split at hup
    · cases hup
    · exact hup

theorem detach (h : Grounded markup) (id : NodeId) : Grounded (markup.detach id) := by
  rw [Markup.detach]
  split
  · exact h.remove _ id
  · exact h

end Grounded

/-! ## Copies -/

/-- What is copied stays where it is, and above a copy there are only earlier ones. -/
theorem Linked.parent?_copy (h : markup.Linked) (id : NodeId) :
    (∀ other < markup.size, (markup.copy id).1.parent? other = markup.parent? other) ∧
      ∀ other, markup.size ≤ other → ∀ parent, (markup.copy id).1.parent? other = some parent →
        parent < other := by
  refine (copyTo_keeps
    (P := fun copied => copied.Linked ∧
      (∀ other < markup.size, copied.parent? other = markup.parent? other) ∧
      ∀ other, markup.size ≤ other → ∀ parent, copied.parent? other = some parent → parent < other)
    (fun copied node hcopied => ⟨hcopied.1.create _, by simpa using hcopied.2⟩)
    (fun copied copy inner _ hlt hinner hin ⟨hcopied, hold, hnew⟩ => ?_)
    markup.size id (Nat.le_refl markup.size) ⟨h, fun _ _ => rfl, fun other hother parent hup => ?_⟩).1.2
  · have hputs := hcopied.puts_append hin copy
    refine ⟨hcopied.append (Nat.lt_trans hlt hin) hin, fun other hother => ?_,
      fun other hother parent hup => ?_⟩
    · rw [hputs.of_ne (Nat.ne_of_lt (Nat.lt_of_lt_of_le hother hinner)), hold other hother]
    · by_cases hsame : other = inner
      · rw [hsame, hputs.self] at hup
        rw [hsame]
        exact Option.some.inj hup ▸ hlt
      · rw [hputs.of_ne hsame] at hup
        exact hnew other hother parent hup
  · rw [parent?_of_le hother] at hup
    cases hup

theorem Grounded.copy (h : Grounded markup) (hlinked : markup.Linked) (id : NodeId) :
    Grounded (markup.copy id).1 := by
  obtain ⟨hold, hnew⟩ := hlinked.parent?_copy id
  have hbefore : ∀ low, low < markup.size →
      Acc (fun high low => (markup.copy id).1.parent? low = some high) low := fun low hlow => by
    induction low using h.induction with
    | _ low ih =>
      refine ⟨low, fun parent hup => ?_⟩
      rw [hold low hlow] at hup
      exact ih parent hup (lt_size_of_mem_children ((hlinked.mem_iff parent low).mpr hup))
  refine ⟨fun low => ?_⟩
  induction low using Nat.strongRecOn with
  | _ low ih =>
    rcases Nat.lt_or_ge low markup.size with hlow | hge
    · exact hbefore low hlow
    · exact ⟨low, fun parent hup => ih parent (hnew low hge parent hup)⟩

end Markup

/-! ## Edits -/

namespace Edit

/-- Whether an edit puts no node into its own list or into the list of a node below it. -/
def Apart (markup : Markup) : Edit → Prop
  | .append id child => ¬ markup.Within id child
  | .insert id _ child => ¬ markup.Within id child
  | .replaceChildren id nodes => ∀ node ∈ nodes, ¬ markup.Within id node
  | _ => True

/-- Whether this is so for each of some edits in the forest it is done to. -/
def AllApart (markup : Markup) : List Edit → Prop
  | [] => True
  | edit :: rest => edit.Apart markup ∧ AllApart (edit.apply markup) rest

theorem AllApart.front {markup : Markup} {edits more : List Edit} (h : AllApart markup (edits ++ more)) :
    AllApart markup edits := by
  induction edits generalizing markup with
  | nil => trivial
  | cons edit rest ih => exact ⟨h.1, ih h.2⟩

end Edit

namespace Markup

variable {markup : Markup}

/-- An edit that puts no node where it is above makes no node its own ancestor. -/
theorem Grounded.edit (h : Grounded markup) (hlinked : markup.Linked) {edit : Edit}
    (hnodes : ∀ id ∈ edit.nodes, id < markup.size) (hapart : edit.Apart markup) :
    Grounded (edit.apply markup) := by
  have hsetKind : ∀ id f, Grounded (markup.setKind id f) := fun id f =>
    h.mono fun child high hup => by rwa [parent?_setKind] at hup
  cases edit with
  | create kind bare => exact h.mono fun child high hup => by rwa [Edit.apply, parent?_create] at hup
  | append id child =>
      exact (hlinked.puts_append (hnodes child (by simp [Edit.nodes])) id).grounded h hapart
  | insert id index child =>
      exact (hlinked.puts_move (hnodes child (by simp [Edit.nodes])) id _).grounded h hapart
  | remove id child => exact h.remove id child
  | detach id => exact h.detach id
  | takeChildren id => exact h.takeChildren id
  | replaceChildren id nodes =>
      simp only [Edit.nodes, List.forall_mem_cons] at hnodes
      refine (hlinked.takeChildren id).grounded_appendAll (h.takeChildren id) ?_ ?_ ?_
      · rw [size_takeChildren]
        exact hnodes.1
      · rw [size_takeChildren]
        exact hnodes.2
      · exact fun node hnode hway => hapart node hnode
          (hway.mono fun _ _ => parent?_of_takeChildren)
  | copy id => exact h.copy hlinked id
  | setAttribute id name value => exact hsetKind id _
  | removeAttribute id name => exact hsetKind id _
  | setContent id content => exact hsetKind id _

/-- An edit that puts a node where it is above makes a node its own ancestor. -/
theorem Grounded.under_edit (h : Grounded markup) (hlinked : markup.Linked) {edit : Edit}
    (hnodes : ∀ id ∈ edit.nodes, id < markup.size) (hmixed : ¬ edit.Apart markup) :
    ∃ id, (edit.apply markup).Under id id := by
  cases edit with
  | append id child =>
      have hputs := hlinked.puts_append (hnodes child (by simp [Edit.nodes])) id
      exact ⟨id, hputs.under_self (not_not.mp hmixed)⟩
  | insert id index child =>
      have hputs := hlinked.puts_move (hnodes child (by simp [Edit.nodes])) id (insertIn index child)
      exact ⟨id, hputs.under_self (not_not.mp hmixed)⟩
  | replaceChildren id nodes =>
      simp only [Edit.Apart, not_forall, not_not] at hmixed
      obtain ⟨node, hnode, hway⟩ := hmixed
      simp only [Edit.nodes, List.forall_mem_cons] at hnodes
      rw [← size_takeChildren id] at hnodes
      exact ⟨id, (hlinked.takeChildren id).under_appendAll_of_within hnodes.1 hnodes.2 hnode
        (hlinked.within_takeChildren h hway)⟩
  | _ => exact absurd trivial hmixed

theorem Grounded.editAll {edits : List Edit} (h : Grounded markup) (hlinked : markup.Linked)
    (hthere : Edit.There markup edits) (hapart : Edit.AllApart markup edits) :
    Grounded (Edit.applyAll markup edits) := by
  induction edits generalizing markup with
  | nil => exact h
  | cons edit rest ih =>
      obtain ⟨hnodes, hrest⟩ := hthere
      exact ih (h.edit hlinked hnodes hapart.1) (hlinked.edit hnodes).1 hrest hapart.2

theorem Grounded.under_editAll {edits : List Edit} (h : Grounded markup) (hlinked : markup.Linked)
    (hthere : Edit.There markup edits) (hmixed : ¬ Edit.AllApart markup edits) :
    ∃ front, front <+: edits ∧ ∃ id, (Edit.applyAll markup front).Under id id := by
  induction edits generalizing markup with
  | nil => exact absurd trivial hmixed
  | cons edit rest ih =>
      obtain ⟨hnodes, hrest⟩ := hthere
      by_cases hapart : edit.Apart markup
      · obtain ⟨front, hfront, hbelow⟩ := ih (h.edit hlinked hnodes hapart) (hlinked.edit hnodes).1
          hrest fun hall => hmixed ⟨hapart, hall⟩
        exact ⟨edit :: front, List.cons_prefix_cons.mpr ⟨rfl, hfront⟩, hbelow⟩
      · exact ⟨[edit], ⟨rest, rfl⟩, h.under_edit hlinked hnodes hapart⟩

end Markup

end ReactiveMarkup
