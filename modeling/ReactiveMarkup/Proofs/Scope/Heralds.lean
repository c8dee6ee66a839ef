import ReactiveMarkup.Proofs.Scope.Disposal
import ReactiveMarkup.Proofs.Scope.Enrolment
import ReactiveMarkup.Proofs.Scope.Latest
import ReactiveMarkup.Proofs.Scope.Replays

/-!
# Nothing changes without a call

A component is registered in a scope for an id. Whatever is set, wherever it is set and whatever handlers
of the host do about it: either the component is called, or the scope finds the same source under the id
as before. A source that is set where nothing is between it and the scope comes down to the scope, over
bridges that are there as long as none of the scopes on the way is disposed. One that is set behind a
source of a scope in between is not found.

So two things are kept by everything that does not call the component: what the scope finds, and which
scopes above it stand bare, with nothing of their own below them. That a broadcast over a bare scope calls
the component is shown by induction on how deep broadcasts may nest, which `Suffices` bounds.
-/

namespace ReactiveMarkup.Scopes

open Moment (Spends id_mergedWith)

variable {scopes stored before middle after : Scopes} {scope place above top : ScopeId}
  {id name : String} {component : ComponentId} {source : Source} {depth : Nat}

/-- A component is registered in a scope that lives, and bridges lead to it. -/
structure Expects (scopes : Scopes) (scope : ScopeId) (id : String) (component : ComponentId) :
    Prop where
  ordered : scopes.Ordered
  linked : scopes.Linked
  alive : scopes.isAlive scope = true
  registered : .trigger component ∈ scopes.handlers scope id

/-- Neither a scope nor one above it is disposed. -/
def Intact (scopes : Scopes) (scope : ScopeId) : Prop :=
  ∀ above ∈ scopes.lineage scope, scopes.isDisposed above = false

/-- A component was called. -/
def Calls (scopes : Scopes) (component : ComponentId) : Prop :=
  ∃ source, .triggered component source ∈ scopes.deliveries

/-- No scope on the way from above has a source of its own under an id. -/
def Bare (scopes : Scopes) (scope : ScopeId) (id : String) (top : ScopeId) : Prop :=
  ∀ below ∈ scopes.lineage scope, top < below → scopes.owns below id = false

/-- A scope finds the same under an id, and what was bare stays bare. -/
structure SameView (scope : ScopeId) (id : String) (before after : Scopes) : Prop where
  find : after.find? scope id = before.find? scope id
  bare : ∀ top, before.Bare scope id top → after.Bare scope id top

/-- A change that a component is called for, if it has anything to do with what the component finds. -/
structure Heralds (scope : ScopeId) (id : String) (component : ComponentId) (before after : Scopes) :
    Prop where
  minds : Minds before after
  spends : Spends before after
  deliveries : before.deliveries ⊆ after.deliveries
  heard : before.Expects scope id component → after.Intact scope →
    after.Calls component ∨ SameView scope id before after

theorem SameSources.sameView (h : SameSources before after) (htree : SameTree before after)
    (scope : ScopeId) (id : String) : SameView scope id before after where
  find := by
    rw [find?, find?, htree.lineage]
    simp only [local?, h.stored?_eq]
  bare top hbare below hbelow htop := by
    rw [owns, h.stored?_eq, isInherited, h.inherited]
    exact hbare below (htree.lineage scope ▸ hbelow) htop

theorem Intact.of_later (h : Minds before after) (hintact : after.Intact scope) :
    before.Intact scope := by
  intro above habove
  rw [← h.toSameTree.lineage] at habove
  exact isDisposed_of_later (h.disposed above) (hintact above habove)

/-- A component that expects something goes on to do so. -/
theorem Expects.later (h : before.Expects scope id component) (hminds : Minds before after)
    (hintact : after.Intact scope) : after.Expects scope id component where
  ordered := hminds.toSameTree.ordered h.ordered
  linked := hminds.linked h.ordered h.linked
  alive := (hminds.toSameTree.isAlive scope).trans h.alive
  registered := by
    have hsame := hminds.enrolled scope id component (hintact scope (mem_lineage_self after scope))
    refine List.count_pos_iff.mp (Nat.lt_of_lt_of_eq ?_ hsame.symm)
    exact List.count_pos_iff.mpr h.registered

theorem Calls.later (h : before.Calls component) (hkept : before.deliveries ⊆ after.deliveries) :
    after.Calls component := h.imp fun _ hin => hkept hin

namespace Heralds

theorem refl (scope : ScopeId) (id : String) (component : ComponentId) (scopes : Scopes) :
    Heralds scope id component scopes scopes :=
  ⟨.refl scopes, .refl scopes, fun _ h => h, fun _ _ => .inr ⟨rfl, fun _ h => h⟩⟩

theorem trans (h : Heralds scope id component before middle)
    (h' : Heralds scope id component middle after) : Heralds scope id component before after where
  minds := h.minds.trans h'.minds
  spends := h.spends.trans h'.spends
  deliveries := fun _ hin => h'.deliveries (h.deliveries hin)
  heard hexpects hintact := by
    have hbetween := hintact.of_later h'.minds
    rcases h.heard hexpects hbetween with hcalls | hfirst
    · exact .inl (hcalls.later h'.deliveries)
    · rcases h'.heard (hexpects.later h.minds hbetween) hintact with hcalls | hlast
      · exact .inl hcalls
      · exact .inr ⟨hlast.find.trans hfirst.find, fun top hbare => hlast.bare top (hfirst.bare top hbare)⟩

theorem foldl {α : Type} {step : Scopes → α → Scopes} (items : List α)
    (hstep : ∀ scopes, Heralds scope id component before scopes → ∀ item ∈ items,
      Heralds scope id component scopes (step scopes item))
    (h : Heralds scope id component before scopes) :
    Heralds scope id component before (items.foldl step scopes) := by
  induction items generalizing scopes with
  | nil => exact h
  | cons item rest ih =>
      exact ih (fun scopes hscopes other hother =>
        hstep scopes hscopes other (List.mem_cons_of_mem _ hother))
        (h.trans (hstep scopes h item List.mem_cons_self))

/-- A change that leaves what is stored as it is. -/
theorem of_sources (hminds : Minds before after) (hspends : Spends before after)
    (hdeliveries : before.deliveries ⊆ after.deliveries) (hsources : SameSources before after) :
    Heralds scope id component before after :=
  ⟨hminds, hspends, hdeliveries, fun _ _ => .inr (hsources.sameView hminds.toSameTree scope id)⟩

end Heralds

/-! ## Storing -/

/-- One scope stores a source under one id, which may become its own. -/
structure Stores (place : ScopeId) (name : String) (before after : Scopes) : Prop where
  minds : Minds before after
  spends : Spends before after
  deliveries : after.deliveries = before.deliveries
  stored : ∀ scope id, ¬(place = scope ∧ name = id) → after.stored? scope id = before.stored? scope id
  owns : ∀ scope id, ¬(place = scope ∧ name = id) → after.owns scope id = before.owns scope id

/-- A component that expects something is called when something is told in a scope above it that is bare. -/
def Reaches (scope : ScopeId) (id : String) (component : ComponentId) (place : ScopeId) (name : String)
    (before after : Scopes) : Prop :=
  place ∈ before.lineage scope → name = id → before.Bare scope id place →
    before.Expects scope id component → after.Intact scope → after.Calls component

theorem Ordered.pairwise_lineage (h : scopes.Ordered) (scope : ScopeId) :
    (scopes.lineage scope).Pairwise (· > ·) := by
  induction scope using Nat.strongRecOn with
  | ind scope ih =>
      rw [h.lineage_eq]
      refine List.pairwise_cons.mpr ⟨fun above habove => ?_, ?_⟩
      · cases hparent : scopes.parent? scope with
        | none =>
            rw [hparent] at habove
            cases habove
        | some parent =>
            rw [hparent] at habove
            exact Nat.lt_of_le_of_lt (h.le_of_mem_lineage habove) (h scope parent hparent)
      · cases hparent : scopes.parent? scope with
        | none => exact .nil
        | some parent => exact ih parent (h scope parent hparent)

/-- What comes behind something that is found is of no importance. -/
theorem findSome?_eq_of_before {α : Type} {f g : ScopeId → Option α} {places : List ScopeId}
    (hfalling : places.Pairwise (· > ·)) (hsame : ∀ other, place ≠ other → f other = g other)
    {nearer : ScopeId} (hnearer : nearer ∈ places) (hlt : place < nearer)
    (hfound : (g nearer).isSome = true) : places.findSome? f = places.findSome? g := by
  induction places with
  | nil => cases hnearer
  | cons first rest ih =>
      obtain ⟨hfirst, hrest⟩ := List.pairwise_cons.mp hfalling
      have hle : nearer ≤ first := by
        rcases List.mem_cons.mp hnearer with rfl | hin
        · exact Nat.le_refl _
        · exact Nat.le_of_lt (hfirst nearer hin)
      rw [List.findSome?_cons, List.findSome?_cons, hsame first (Nat.ne_of_lt (Nat.lt_of_lt_of_le hlt hle))]
      cases hthis : g first with
      | some found => rfl
      | none =>
          rcases List.mem_cons.mp hnearer with rfl | hin
          · rw [hthis] at hfound
            cases hfound
          · exact ih hrest hin

/-- What is stored behind a source that stands in the way is not seen. -/
theorem Stores.sameView (h : Stores place name before after) (hordered : before.Ordered)
    (hid : Unicode.lower id = id)
    (hhidden : ¬(place ∈ before.lineage scope ∧ name = id ∧ before.Bare scope id place)) :
    SameView scope id before after := by
  have hlineage := h.minds.toSameTree.lineage scope
  by_cases hplace : place ∈ before.lineage scope ∧ name = id
  · obtain ⟨hin, rfl⟩ := hplace
    have hstands : ∃ nearer ∈ before.lineage scope, place < nearer ∧ before.owns nearer name = true := by
      by_contra hnone
      refine hhidden ⟨hin, rfl, fun below hbelow hlt => Bool.eq_false_iff.mpr fun howns => ?_⟩
      exact hnone ⟨below, hbelow, hlt, howns⟩
    obtain ⟨nearer, hnearer, hlt, howns⟩ := hstands
    refine ⟨?_, fun top hbare below hbelow htop => ?_⟩
    · rw [find?, find?, hlineage]
      refine findSome?_eq_of_before (hordered.pairwise_lineage scope) (fun other hne => ?_) hnearer hlt ?_
      · rw [local?, local?, hid]
        exact h.stored other name fun hsame => hne hsame.1
      · rw [local?, hid]
        exact (Bool.and_eq_true_iff.mp howns).1
    · rw [hlineage] at hbelow
      by_cases hsame : place = below
      · have hclosed := hbare nearer hnearer (Nat.lt_trans htop (hsame ▸ hlt))
        rw [howns] at hclosed
        cases hclosed
      · rw [h.owns below name fun hthis => hsame hthis.1]
        exact hbare below hbelow htop
  · have hfar : ∀ other ∈ before.lineage scope, ¬(place = other ∧ name = id) := by
      rintro other hother ⟨rfl, hname⟩
      exact hplace ⟨hother, hname⟩
    refine ⟨?_, fun top hbare below hbelow htop => ?_⟩
    · rw [find?, find?, hlineage, ← List.head?_filterMap, ← List.head?_filterMap]
      refine congrArg List.head? (List.filterMap_congr fun other hother => ?_)
      rw [local?, local?, hid]
      exact h.stored other id (hfar other hother)
    · rw [hlineage] at hbelow
      rw [h.owns below id (hfar below hbelow)]
      exact hbare below hbelow htop

/-- Storing a source and telling everybody. -/
theorem Stores.tell (h : Stores place name before stored) (hid : Unicode.lower id = id)
    (hheralds : Heralds scope id component stored after)
    (hreaches : Reaches scope id component place name stored after) :
    Heralds scope id component before after ∧
      Reaches scope id component place name before after := by
  have hcalls : Reaches scope id component place name before after := by
    intro hplace hname hbare hexpects hintact
    refine hreaches (h.minds.toSameTree.lineage scope ▸ hplace) hname (fun below hbelow hlt => ?_)
      (hexpects.later h.minds (hintact.of_later hheralds.minds)) hintact
    rw [h.owns below id fun hsame => Nat.ne_of_lt hlt hsame.1]
    exact hbare below (h.minds.toSameTree.lineage scope ▸ hbelow) hlt
  refine ⟨⟨h.minds.trans hheralds.minds, h.spends.trans hheralds.spends,
    h.deliveries ▸ hheralds.deliveries, fun hexpects hintact => ?_⟩, hcalls⟩
  by_cases hseen : place ∈ before.lineage scope ∧ name = id ∧ before.Bare scope id place
  · exact .inl (hcalls hseen.1 hseen.2.1 hseen.2.2 hexpects hintact)
  · have hfirst := h.sameView hexpects.ordered hid hseen
    refine (hheralds.heard (hexpects.later h.minds (hintact.of_later hheralds.minds)) hintact).imp_right
      fun hlast => ?_
    exact ⟨hlast.find.trans hfirst.find, fun top hbare => hlast.bare top (hfirst.bare top hbare)⟩

theorem stores_put (scopes : Scopes) (place : ScopeId) (source : Source) :
    Stores place source.id scopes (scopes.put place source) where
  minds := minds_put scopes place source
  spends := .of_hosts (size_modify _) rfl
  deliveries := rfl
  stored scope id h := stored?_put_of_ne h
  owns scope id h := by rw [owns, owns, stored?_put_of_ne h, isInherited_put]

theorem Stores.trans (h : Stores place name before middle) (h' : Stores place name middle after) :
    Stores place name before after where
  minds := h.minds.trans h'.minds
  spends := h.spends.trans h'.spends
  deliveries := h'.deliveries.trans h.deliveries
  stored scope id hne := (h'.stored scope id hne).trans (h.stored scope id hne)
  owns scope id hne := (h'.owns scope id hne).trans (h.owns scope id hne)

theorem stores_own (scopes : Scopes) (place : ScopeId) (name : String) :
    Stores place name scopes (scopes.own place name) where
  minds := minds_modify scopes place (fun _ => rfl) (fun _ => rfl) (fun _ => rfl) fun _ => rfl
  spends := .of_hosts (size_modify _) rfl
  deliveries := rfl
  stored _ _ _ := stored?_own
  owns scope id h := by rw [owns, owns, stored?_own, isInherited_own_of_ne h]

theorem stores_inherit (scopes : Scopes) (place : ScopeId) (name : String) :
    Stores place name scopes (scopes.inherit place name) where
  minds := by
    rw [inherit]
    split
    · exact .refl scopes
    · exact minds_modify scopes place (fun _ => rfl) (fun _ => rfl) (fun _ => rfl) fun _ => rfl
  spends := by
    rw [inherit]
    split
    · exact .refl scopes
    · exact .of_hosts (size_modify _) rfl
  deliveries := by
    rw [inherit]
    split <;> rfl
  stored _ _ _ := stored?_inherit
  owns scope id h := by rw [owns, owns, stored?_inherit, isInherited_inherit_of_ne h]

/-! ## Who is on the way -/

/-- Somebody listens, so a scope above is left over a bridge. -/
theorem Expects.bridged (h : scopes.Expects scope id component) (hintact : scopes.Intact scope)
    (hplace : place ∈ scopes.lineage scope) (hne : place ≠ scope) :
    ∃ child ∈ scopes.lineage scope, scopes.parent? child = some place ∧
      .bridge child ∈ scopes.handlers place id := by
  suffices hup : ∀ lower ∈ scopes.lineage scope, ((scopes.parent? lower).isSome = true →
      scopes.hasBridge lower id = true) → place ∈ scopes.lineage lower → place ≠ lower →
        ∃ child ∈ scopes.lineage scope, scopes.parent? child = some place ∧
          .bridge child ∈ scopes.handlers place id by
    have hself := mem_lineage_self scopes scope
    exact hup scope hself (h.linked.heard scope id component h.registered (hintact scope hself)) hplace hne
  intro lower
  induction lower using Nat.strongRecOn with
  | ind lower ih =>
      intro hlower hbridge hin hother
      obtain rfl | ⟨parent, hparent, hup⟩ := h.ordered.mem_lineage.mp hin
      · exact absurd rfl hother
      · have hthis := hbridge (by rw [hparent]; rfl)
        have hmem : parent ∈ scopes.lineage scope := h.ordered.mem_lineage_trans
          (h.ordered.mem_lineage.mpr (.inr ⟨parent, hparent, mem_lineage_self scopes parent⟩)) hlower
        have hkept := hintact parent hmem
        by_cases hsame : place = parent
        · obtain rfl := hsame
          exact ⟨lower, hlower, hparent, h.linked.there lower place id hthis hparent hkept⟩
        · exact ih parent (h.ordered lower parent hparent) hmem
            (h.linked.climbs lower parent id hthis hparent hkept) hup hsame

/-! ## Broadcasts -/

theorem deliveries_removeHandlers (ids : List String) (parent : ScopeId) (handler : Handler)
    (scopes : Scopes) :
    (ids.foldl (fun scopes id => (scopes.removeHandler parent id handler).1) scopes).deliveries =
      scopes.deliveries := by
  induction ids generalizing scopes with
  | nil => rfl
  | cons first rest ih =>
      rw [List.foldl_cons, ih, removeHandler]
      split <;> rfl

theorem deliveries_dispose (scopes : Scopes) (scope : ScopeId) :
    (scopes.dispose scope).deliveries = scopes.deliveries := by
  rw [dispose]
  split
  · rfl
  · rw [clear, resolveAll_eq]
    change Scopes.deliveries (removeBridges _ scope) = scopes.deliveries
    rw [removeBridges]
    split
    · exact deliveries_removeHandlers ..
    · rfl

/-- The tree is in order, and a bridge has both ends where nothing is disposed. -/
def Sturdy (scopes : Scopes) : Prop := scopes.Ordered ∧ scopes.Linked

theorem Sturdy.later (h : before.Sturdy) (hminds : Minds before after) : after.Sturdy :=
  ⟨hminds.toSameTree.ordered h.1, hminds.linked h.1 h.2⟩

/-- Broadcasts that may nest so deep call whoever listens. -/
def Carries (scope : ScopeId) (id : String) (component : ComponentId) (depth : Nat) : Prop :=
  ∀ scopes place source, scopes.Sturdy → scopes.Suffices place depth →
    Heralds scope id component scopes (broadcast depth scopes place source) ∧
      Reaches scope id component place source.id scopes (broadcast depth scopes place source)

namespace Carries

theorem receive (h : Carries scope id component depth) (hid : Unicode.lower id = id)
    (hsturdy : scopes.Sturdy) (hsuffices : scopes.Suffices place depth) (source : Source) :
    Heralds scope id component scopes (receiveBy (broadcast depth) scopes place source) ∧
      (scopes.owns place id = false → Reaches scope id component place source.id scopes
        (receiveBy (broadcast depth) scopes place source)) := by
  rw [receiveBy]
  split
  · next howned =>
      refine ⟨.refl scope id component scopes, fun hopen hplace hname => ?_⟩
      rw [local?, hname, hid] at howned
      rw [owns, howned] at hopen
      cases hopen
  · have hstores := (stores_inherit scopes place source.id).trans (stores_put _ place source)
    obtain ⟨hheralds, hreaches⟩ := h _ place source (hsturdy.later hstores.minds)
      (hstores.spends.suffices hsuffices)
    obtain ⟨htells, hcalls⟩ := hstores.tell hid hheralds hreaches
    exact ⟨htells, fun _ => hcalls⟩

theorem set (h : Carries scope id component depth) (hid : Unicode.lower id = id)
    (hsturdy : scopes.Sturdy) (hsuffices : scopes.Suffices place depth) (source : Source) :
    Heralds scope id component scopes (setBy (broadcast depth) scopes place source).1 := by
  have hname := id_mergedWith scopes place source
  have hput := stores_put (scopes.own place source.id) place (scopes.mergedWith place source)
  rw [hname] at hput
  have hstores := (stores_own scopes place source.id).trans hput
  obtain ⟨hheralds, hreaches⟩ := h _ place (scopes.mergedWith place source)
    (hsturdy.later hstores.minds) (hstores.spends.suffices hsuffices)
  rw [hname] at hreaches
  exact (hstores.tell hid hheralds hreaches).1

theorem action (h : Carries scope id component depth) (hid : Unicode.lower id = id)
    (hsturdy : scopes.Sturdy) (hsuffices : scopes.Suffices 0 depth) (act : HandlerAction) :
    Heralds scope id component scopes (actBy (broadcast depth) scopes act) := by
  cases act with
  | set other name value =>
      rw [actBy]
      split
      · exact h.set hid hsturdy (hsuffices.mono (Nat.zero_le other)) _
      · exact .refl scope id component scopes
  | wait other name =>
      rw [actBy]
      split
      · have htells := (tells_wait scopes other name).deliveries
        rw [List.append_nil] at htells
        exact .of_sources (minds_wait scopes other name)
          (.of_hosts (sameTree_wait scopes other name).size (hosts_wait ..))
          (fun _ hin => htells.symm ▸ hin) (sameSources_wait scopes other name)
      · exact .refl scope id component scopes
  | dispose other =>
      rw [actBy]
      split
      · exact .of_sources (minds_dispose scopes other)
          (.of_hosts (minds_dispose scopes other).toSameTree.size (hosts_dispose ..))
          (fun _ hin => (deliveries_dispose scopes other).symm ▸ hin) (sameSources_dispose scopes other)
      · exact .refl scope id component scopes

/-- Whatever a handler of the host does. It acts once, so one broadcast less will do. -/
theorem callHost (h : Carries scope id component depth) (hid : Unicode.lower id = id)
    (hsturdy : scopes.Sturdy) (hsuffices : scopes.Suffices place (depth + 1)) (number : HandlerId)
    (source : Source) :
    Heralds scope id component scopes (callHostBy (broadcast depth) scopes number source) := by
  have hdelivered : Heralds scope id component scopes (scopes.deliver (.handled number source)) :=
    .of_sources (minds_of_scopes rfl rfl) (.of_hosts rfl rfl) (List.subset_append_left _ _)
      (.of_scopes rfl)
  rw [callHostBy]
  split
  · next actions hhost =>
      have hfresh := @fresh_markCalled (scopes.deliver (.handled number source)) number _ hhost rfl
      have hmarked : Heralds scope id component (scopes.deliver (.handled number source))
          ((scopes.deliver (.handled number source)).markCalled number) :=
        .of_sources (minds_of_scopes rfl rfl) ⟨rfl, fresh_markCalled_le _ number⟩ (fun _ hin => hin)
          (.of_scopes rfl)
      have henough : ((scopes.deliver (.handled number source)).markCalled number).Suffices 0 depth :=
        hsuffices.called rfl hfresh
      have hbegun := hdelivered.trans hmarked
      refine hbegun.trans (.foldl actions (fun middle hmiddle act _ => ?_) (.refl scope id component _))
      exact h.action hid (hsturdy.later (hbegun.trans hmiddle).minds)
        (hmiddle.spends.suffices henough) act
  · exact hdelivered

/-- Calling anybody who is registered in a scope. -/
theorem call (h : Carries scope id component depth) (hid : Unicode.lower id = id)
    (hsturdy : scopes.Sturdy) (hsuffices : scopes.Suffices place (depth + 1)) (source : Source)
    (handler : Handler) (hbelow : ∀ child, handler = .bridge child →
      scopes.parent? child = some place) :
    Heralds scope id component scopes (callBy (broadcast depth) source scopes handler) := by
  cases handler with
  | host number => exact h.callHost hid hsturdy hsuffices number source
  | bridge child =>
      have hparent := hbelow child rfl
      have henough := hsuffices.below (hsturdy.1 child place hparent) (lt_size_of_parent? hparent)
      rw [callBy]
      split
      · exact (h.receive hid hsturdy henough source).1
      · exact .refl scope id component scopes
  | trigger other =>
      exact .of_sources (minds_of_scopes rfl rfl) (.of_hosts rfl rfl) (List.subset_append_left _ _)
        (.of_scopes rfl)

/-- Calling everybody on a list. -/
theorem calls (h : Carries scope id component depth) (hid : Unicode.lower id = id)
    (hsturdy : scopes.Sturdy) (hsuffices : scopes.Suffices place (depth + 1)) (source : Source)
    (handlers : List Handler) (hbelow : ∀ child, .bridge child ∈ handlers →
      scopes.parent? child = some place) :
    Heralds scope id component scopes (handlers.foldl (callBy (broadcast depth) source) scopes) := by
  refine .foldl handlers (fun middle hmiddle handler hin => ?_) (.refl scope id component scopes)
  refine h.call hid (hsturdy.later hmiddle.minds) (hmiddle.spends.suffices hsuffices) source handler ?_
  rintro child rfl
  rw [hmiddle.minds.toSameTree.parent]
  exact hbelow child hin

/-- Somebody on the list is the component, or a bridge on the way to it. -/
theorem calls_reach (h : Carries scope id component depth) (hid : Unicode.lower id = id)
    (hsturdy : scopes.Sturdy) (hsuffices : scopes.Suffices place (depth + 1)) (hname : source.id = id)
    (handlers : List Handler) (hbelow : ∀ child, .bridge child ∈ handlers →
      scopes.parent? child = some place) (hbare : scopes.Bare scope id place)
    (hexpects : scopes.Expects scope id component)
    (hway : .trigger component ∈ handlers ∨ ∃ child ∈ scopes.lineage scope, .bridge child ∈ handlers)
    (hintact : (handlers.foldl (callBy (broadcast depth) source) scopes).Intact scope) :
    (handlers.foldl (callBy (broadcast depth) source) scopes).Calls component := by
  -- Whoever comes before leaves everything as it is or calls the component.
  have hsplit : ∃ handler, handler ∈ handlers ∧ (handler = .trigger component ∨
      ∃ child ∈ scopes.lineage scope, handler = .bridge child) := by
    rcases hway with hin | ⟨child, hchild, hin⟩
    · exact ⟨_, hin, .inl rfl⟩
    · exact ⟨_, hin, .inr ⟨child, hchild, rfl⟩⟩
  obtain ⟨handler, hin, hthis⟩ := hsplit
  obtain ⟨earlier, later, rfl⟩ := List.append_of_mem hin
  rw [List.foldl_append, List.foldl_cons] at hintact ⊢
  have hearlier := h.calls hid hsturdy hsuffices source earlier fun child hchild =>
    hbelow child (List.mem_append_left _ hchild)
  generalize earlier.foldl (callBy (broadcast depth) source) scopes = middle at hearlier hintact ⊢
  have hsteady := hsturdy.later hearlier.minds
  have henough := hearlier.spends.suffices hsuffices
  have hcalled := h.call hid hsteady henough source handler (by
    rintro child rfl
    rw [hearlier.minds.toSameTree.parent]
    exact hbelow child hin)
  have hrest := h.calls hid (hsteady.later hcalled.minds) (hcalled.spends.suffices henough) source
    later fun child hchild => by
      rw [(hearlier.trans hcalled).minds.toSameTree.parent]
      exact hbelow child (List.mem_append_right _ (List.mem_cons_of_mem _ hchild))
  have hbetween := hintact.of_later hrest.minds
  refine Calls.later ?_ hrest.deliveries
  rcases hearlier.heard hexpects (hbetween.of_later hcalled.minds) with hcalls | hsame
  · exact hcalls.later hcalled.deliveries
  · have hstill := hexpects.later hearlier.minds (hbetween.of_later hcalled.minds)
    have hopen := hsame.bare place hbare
    rcases hthis with rfl | ⟨child, hchild, rfl⟩
    · exact ⟨source, List.mem_append_right _ List.mem_cons_self⟩
    · have hparent : middle.parent? child = some place := by
        rw [hearlier.minds.toSameTree.parent]
        exact hbelow child hin
      rw [← hearlier.minds.toSameTree.lineage] at hchild
      have hlt := hsteady.1 child place hparent
      have halive := hstill.ordered.isAlive_above hstill.alive hchild
      rw [callBy, if_pos halive] at hbetween ⊢
      refine (h.receive hid hsteady (henough.below hlt (lt_size_of_parent? hparent)) source).2
        (hopen child hchild hlt) hchild hname (fun below hbelow hmore => ?_) hstill hbetween
      exact hopen below hbelow (Nat.lt_trans hlt hmore)

end Carries

theorem heralds_serve (scope : ScopeId) (id : String) (component : ComponentId)
    (state : PromiseState) (promises : List PromiseId) (scopes : Scopes) :
    Heralds scope id component scopes
      (promises.foldl (fun scopes promise => scopes.resolve state promise) scopes) := by
  rw [resolveAll_eq]
  exact .of_sources (minds_of_scopes rfl rfl) (.of_hosts rfl rfl) (fun _ hin => hin) (.of_scopes rfl)

theorem carries_broadcast (scope : ScopeId) (hid : Unicode.lower id = id) (component : ComponentId)
    (depth : Nat) : Carries scope id component depth := by
  induction depth with
  | zero => exact fun scopes place source _ hsuffices => absurd hsuffices (Nat.not_lt_zero _)
  | succ depth ih =>
      intro scopes place source hsturdy hsuffices
      have hsources : SameSources scopes (scopes.takeWaiters place source.id) :=
        sameSources_modify scopes (fun _ => rfl) fun _ => rfl
      have htaken : Heralds scope id component scopes (scopes.takeWaiters place source.id) :=
        .of_sources (minds_modify scopes place (fun _ => rfl) (fun _ => rfl) (fun _ => rfl) fun _ => rfl)
          (.of_hosts (size_modify _) rfl) (fun _ hin => hin) hsources
      have hparent : ∀ child, .bridge child ∈ scopes.handlers place source.id →
          (scopes.takeWaiters place source.id).parent? child = some place := by
        intro child hchild
        rw [htaken.minds.toSameTree.parent]
        exact (hsturdy.2.back place source.id child hchild).1
      have hready := hsturdy.later htaken.minds
      have henough := htaken.spends.suffices hsuffices
      have hcalled := ih.calls hid hready henough source _ hparent
      have hserved := heralds_serve scope id component (.fulfilled source)
        (scopes.waiters place source.id)
        ((scopes.handlers place source.id).foldl (callBy (broadcast depth) source)
          (scopes.takeWaiters place source.id))
      refine ⟨(htaken.trans hcalled).trans hserved, fun hplace hname hbare hexpects hintact => ?_⟩
      have hbetween := hintact.of_later hserved.minds
      have hfirst := hbetween.of_later hcalled.minds
      refine Calls.later (ih.calls_reach hid hready henough hname _ hparent ?_ ?_ ?_ hbetween)
        hserved.deliveries
      · exact (hsources.sameView htaken.minds.toSameTree scope id).bare place hbare
      · exact hexpects.later htaken.minds hfirst
      · obtain rfl := hname
        by_cases hsame : place = scope
        · exact .inl (hsame ▸ hexpects.registered)
        · obtain ⟨child, hchild, -, hbridge⟩ := hexpects.bridged (hfirst.of_later htaken.minds) hplace
            hsame
          rw [htaken.minds.toSameTree.lineage]
          exact .inr ⟨child, hchild, hbridge⟩

/-! ## What is set, received or put -/

theorem castDepth_eq (hsize : after.scopes.size = before.scopes.size) (hhosts : after.hosts = before.hosts) :
    after.castDepth = before.castDepth := by rw [castDepth, castDepth, hsize, hhosts]

theorem hosts_inherit (scopes : Scopes) (scope : ScopeId) (id : String) :
    (scopes.inherit scope id).hosts = scopes.hosts := by
  rw [inherit]
  split <;> rfl

/-- A source that is set anywhere calls the component, or changes nothing for it. -/
theorem heralds_set (scope : ScopeId) (hid : Unicode.lower id = id) (component : ComponentId)
    (hsturdy : scopes.Sturdy) (place : ScopeId) (source : Source) :
    Heralds scope id component scopes (scopes.set place source).1 := by
  have hsame : (scopes.set place source).1 =
      (setBy (broadcast scopes.castDepth) scopes place source).1 := by
    have hdepth : ∀ merged, ((scopes.own place source.id).put place merged).castDepth =
        scopes.castDepth := fun _ => castDepth_eq ((size_modify _).trans (size_modify _)) rfl
    rw [set, setBy, setBy, announce]
    dsimp only
    rw [hdepth]
  rw [hsame]
  exact (carries_broadcast scope hid component _).set hid hsturdy (suffices_castDepth scopes place) source

theorem heralds_receive (scope : ScopeId) (hid : Unicode.lower id = id) (component : ComponentId)
    (hsturdy : scopes.Sturdy) (place : ScopeId) (source : Source) :
    Heralds scope id component scopes (scopes.receive place source) := by
  have hsame : scopes.receive place source =
      receiveBy (broadcast scopes.castDepth) scopes place source := by
    have hstores := (stores_inherit scopes place source.id).trans (stores_put _ place source)
    rw [receive, receiveBy, receiveBy, announce]
    rw [castDepth_eq hstores.minds.toSameTree.size (hosts_inherit scopes place source.id)]
  rw [hsame]
  exact ((carries_broadcast scope hid component _).receive hid hsturdy
    (suffices_castDepth scopes place) source).1

theorem heralds_putAndAnnounce (scope : ScopeId) (hid : Unicode.lower id = id)
    (component : ComponentId) (hsturdy : scopes.Sturdy) (place : ScopeId) (source : Source) :
    Heralds scope id component scopes (scopes.putAndAnnounce place source) := by
  have hstores := stores_put scopes place source
  obtain ⟨hheralds, hreaches⟩ := carries_broadcast scope hid component
    (scopes.put place source).castDepth _ place source (hsturdy.later hstores.minds)
    (suffices_castDepth _ place)
  exact (hstores.tell hid hheralds hreaches).1

end ReactiveMarkup.Scopes
