import ReactiveMarkup.Proofs.Page.Changes
import ReactiveMarkup.Proofs.Unicode.Lower

/-!
# Setting and registering

A source that is set reaches the bindings that read it as jobs in the queue, and a component that
registers for its dependencies is reached by all sources it reads from then on.
-/

namespace ReactiveMarkup.Page

variable {page before middle after : Page} {ledger : Ledger} {component : ComponentId}

/-! ## Setting -/

/-- The components that are registered for an id. -/
def listeners (page : Page) (id : String) : List ComponentId :=
  (page.scopes.handlers rootScope id).filterMap Handler.component?

/-- Debts are paid when the jobs are in the queue. -/
theorem Sound.pay {more : List ComponentId}
    (h : page.Sound { ledger with due := more ++ ledger.due })
    (hpending : ∀ component ∈ ledger.fresh, component ∈ ledger.due)
    (hqueued : ∀ component ∈ more, component ∈ page.queued) : page.Sound ledger :=
  { h with
    pending := hpending
    shown := fun component spot hin hspot hdue => by
      by_cases hmore : component ∈ more
      · exact .inr (hqueued component hmore)
      · refine h.shown component spot hin hspot fun hc => ?_
        rcases List.mem_append.mp hc with hc | hc
        · exact hmore hc
        · exact hdue hc }

theorem Sound.isComponentAlive (h : page.Sound ledger) (hin : page.Collected component) :
    page.isComponentAlive component = true := by
  have halive := h.alive component hin
  exact List.contains_iff_mem.mpr (List.count_pos_iff.mp (by omega))

/-- Attending to calls of components puts their jobs into the queue. -/
theorem Sound.attendTo_all (h : page.Sound ledger) (deliveries : List Delivery)
    (htriggered : ∀ delivery ∈ deliveries, ∃ component cause,
      delivery = .triggered component cause ∧ page.Collected component) :
    Kept page (deliveries.foldl attendTo page) ledger ∧
      (∀ component ∈ page.queued, component ∈ (deliveries.foldl attendTo page).queued) ∧
      ∀ component cause, .triggered component cause ∈ deliveries →
        component ∈ (deliveries.foldl attendTo page).queued := by
  induction deliveries generalizing page with
  | nil => exact ⟨.refl h, fun _ hin => hin, fun _ _ habsurd => absurd habsurd List.not_mem_nil⟩
  | cons delivery rest ih =>
      obtain ⟨component, cause, rfl, hin⟩ := htriggered delivery List.mem_cons_self
      have hstep : attendTo page (.triggered component cause) =
          page.enqueue (.render component cause) := by
        rw [attendTo]
        exact if_pos (h.isComponentAlive hin)
      obtain ⟨hkept, hqueued, -⟩ := h.enqueue hin cause
      rw [List.foldl_cons, hstep]
      obtain ⟨hrest, hstay, hnew⟩ := ih hkept.sound fun other hother => by
        obtain ⟨component, cause, rfl, hcollected⟩ :=
          htriggered other (List.mem_cons_of_mem _ hother)
        exact ⟨component, cause, rfl, hkept.stays.collected_iff.mpr hcollected⟩
      refine ⟨hkept.trans hrest, fun other hother => hstay other ?_, fun other source hother => ?_⟩
      · rw [hqueued]
        exact List.mem_append_left _ hother
      · rcases List.mem_cons.mp hother with hthis | hlater
        · obtain ⟨rfl, -⟩ := Delivery.triggered.inj hthis
          refine hstay other ?_
          rw [hqueued]
          exact List.mem_append_right _ List.mem_cons_self
        · exact hnew other source hlater

/-- After a source was stored the bindings that read it are due. -/
theorem Sound.store (h : page.Sound ledger) {scopes : Scopes}
    (hsame : Scopes.SameWires page.scopes scopes) (hquiet : scopes.deliveries = []) {id : String}
    (hstored : ∀ name, id ≠ name → scopes.stored? 0 name = page.scopes.stored? 0 name) :
    Kept page { page with scopes } { ledger with due := page.listeners id ++ ledger.due } := by
  have htop : scopes.parent? 0 = none := (hsame.parent 0).trans h.rooted.top
  refine ⟨{ h with
    rooted := ⟨hsame.size ▸ h.rooted.there, htop, fun id handler hhandler =>
      h.rooted.triggers id handler (hsame.handlers 0 id ▸ hhandler)⟩
    quiet := hquiet
    held := hsame.held ▸ h.held
    cells := fun other hother => ?_
    told := fun id other hother => h.told id other (hsame.handlers 0 id ▸ hother)
    pending := fun other hother => List.mem_append_right _ (h.pending other hother)
    registered := fun other spot hother hspot hfresh id hid => ?_
    shown := fun other spot hother hspot hdue => ?_ },
    ⟨rfl, rfl, Nat.le_refl _, fun _ => rfl⟩⟩
  · obtain ⟨cell, hcell, hworking⟩ := h.cells other hother
    exact ⟨cell, hcell, { hworking with
      listens := fun name hname => (hsame.handlers 0 name).symm ▸ hworking.listens name hname }⟩
  · exact (hsame.handlers 0 _).symm ▸ h.registered other spot hother hspot hfresh id hid
  · have hold : other ∉ ledger.due := fun hc => hdue (List.mem_append_right _ hc)
    refine (h.shown other spot hother hspot hold).imp (fun hshows => ?_) fun hqueued => hqueued
    -- It reads nothing that was set, or else it would be registered for it, and so be due.
    have htext : spot.token.text (scopes.find? 0) = spot.token.text (page.scopes.find? 0) := by
      refine Token.text_congr spot.token fun name hname => ?_
      rw [Scopes.find?_root htop, Scopes.find?_root h.rooted.top]
      refine hstored _ fun hset => hdue (List.mem_append_left _ ?_)
      have hregistered := h.registered other spot hother hspot
        (fun hc => hold (h.pending other hc)) name hname
      rw [← hset] at hregistered
      exact List.mem_filterMap.mpr ⟨_, hregistered, rfl⟩
    exact hshows.trans (congrArg some htext.symm)

theorem Sound.collected_of_listeners (h : page.Sound ledger) {id : String}
    (hin : component ∈ page.listeners id) : page.Collected component := by
  obtain ⟨handler, hhandler, hcomponent⟩ := List.mem_filterMap.mp hin
  obtain ⟨other, rfl⟩ := h.rooted.triggers id handler hhandler
  obtain rfl := Option.some.inj hcomponent
  exact h.told id other hhandler

/-- Setting a source leaves no binding behind. -/
theorem Sound.setSource (h : page.Sound ledger) (source : Source) :
    Kept page (page.setSource rootScope source).1 ledger := by
  obtain ⟨hsame, hstored, hdeliveries⟩ := h.rooted.set source
  rw [h.quiet, List.nil_append] at hdeliveries
  have hset : (page.setSource rootScope source).1 =
      (page.scopes.set 0 source).1.deliveries.foldl attendTo
        { page with scopes := { (page.scopes.set 0 source).1 with deliveries := [] } } := rfl
  rw [hset, hdeliveries]
  generalize (page.scopes.set 0 source).1 = scopes at hsame hstored ⊢
  generalize (page.scopes.set 0 source).2 = merged
  have hstore := @Sound.store _ _ h { scopes with deliveries := [] }
    (hsame.trans ⟨rfl, fun _ => rfl, fun _ _ => rfl, fun _ _ => rfl, rfl, fun _ host hhost =>
      ⟨host, hhost, rfl⟩⟩) rfl _ hstored
  obtain ⟨hkept, -, hqueued⟩ := hstore.sound.attendTo_all
    ((page.listeners source.id).map (.triggered · merged)) fun delivery hin => by
      obtain ⟨component, hcomponent, rfl⟩ := List.mem_map.mp hin
      exact ⟨component, merged, rfl,
        hstore.stays.collected_iff.mpr (h.collected_of_listeners hcomponent)⟩
  exact ⟨hkept.sound.pay h.pending fun component hin =>
    hqueued component merged (List.mem_map.mpr ⟨component, hin, rfl⟩),
    hstore.stays.trans hkept.stays⟩

/-! ## Registering -/

/-- Registers a component for one more source, unless it is registered for it. -/
def enlist (scope : ScopeId) (component : ComponentId) (state : Scopes × List String)
    (name : String) : Scopes × List String :=
  if state.2.contains (Unicode.lower name) then state
  else
    ((state.1.addHandler scope (Unicode.lower name) (.trigger component)).1,
      state.2 ++ [Unicode.lower name])

theorem enlist_spec {state : Scopes × List String} (hrooted : state.1.Rooted)
    (hlistens : ∀ name ∈ state.2, .trigger component ∈ state.1.handlers 0 name) (id : String) :
    Scopes.Enlists component state.1 (enlist 0 component state id).1 ∧
      (∀ name ∈ (enlist 0 component state id).2,
        .trigger component ∈ (enlist 0 component state id).1.handlers 0 name) ∧
      (∀ name ∈ state.2, name ∈ (enlist 0 component state id).2) ∧
      Unicode.lower id ∈ (enlist 0 component state id).2 := by
  obtain ⟨henlists, hnew⟩ := hrooted.enlists (Unicode.lower id) component
  rw [Unicode.lower_lower] at hnew
  rw [enlist]
  generalize Unicode.lower id = lowered at henlists hnew ⊢
  split
  · next hthere =>
      exact ⟨.refl component state.1, hlistens, fun _ h => h, List.contains_iff_mem.mp hthere⟩
  · refine ⟨henlists, fun name hname => ?_, fun name hname => List.mem_append_left _ hname,
      List.mem_append_right _ List.mem_cons_self⟩
    rcases List.mem_append.mp hname with hold | hthis
    · exact henlists.kept name _ (hlistens name hold)
    · rw [List.mem_singleton.mp hthis]
      exact hnew

/-- What holds while a component registers for one source after another. -/
theorem foldl_enlist (ids : List String) {state : Scopes × List String} (hrooted : state.1.Rooted)
    (hlistens : ∀ name ∈ state.2, .trigger component ∈ state.1.handlers 0 name) :
    Scopes.Enlists component state.1 (ids.foldl (enlist 0 component) state).1 ∧
      (∀ name ∈ (ids.foldl (enlist 0 component) state).2,
        .trigger component ∈ (ids.foldl (enlist 0 component) state).1.handlers 0 name) ∧
      (∀ name ∈ state.2, name ∈ (ids.foldl (enlist 0 component) state).2) ∧
      ∀ id ∈ ids, Unicode.lower id ∈ (ids.foldl (enlist 0 component) state).2 := by
  induction ids generalizing state with
  | nil => exact ⟨.refl component state.1, hlistens, fun _ h => h, fun _ h => absurd h List.not_mem_nil⟩
  | cons id rest ih =>
      obtain ⟨hstep, hnow, hkept, hid⟩ := enlist_spec hrooted hlistens id
      obtain ⟨hrest, hall, hold, hids⟩ := ih (hrooted.of_enlists hstep) hnow
      rw [List.foldl_cons]
      refine ⟨hstep.trans hrest, hall, fun name hname => hold name (hkept name hname),
        fun other hother => ?_⟩
      rcases List.mem_cons.mp hother with hthis | hlater
      · rw [hthis]
        exact hold _ hid
      · exact hids other hlater

/-- A component of a collection that registers for more is no harm to anybody. -/
theorem Sound.enlist (h : page.Sound ledger) (hin : page.Collected component) {scopes : Scopes}
    (henlists : Scopes.Enlists component page.scopes scopes) :
    Kept page { page with scopes } ledger := by
  have hrooted := h.rooted.of_enlists henlists
  have hfind : scopes.find? 0 = page.scopes.find? 0 := by
    funext id
    rw [Scopes.find?_root hrooted.top, Scopes.find?_root h.rooted.top, henlists.stored]
  refine ⟨{ h with
    rooted := hrooted
    quiet := henlists.deliveries.trans h.quiet
    held := henlists.held ▸ h.held
    cells := fun other hother => ?_
    told := fun id other hother => ?_
    registered := fun other spot hother hspot hfresh id hid =>
      henlists.kept _ _ (h.registered other spot hother hspot hfresh id hid)
    shown := fun other spot hother hspot hdue =>
      (h.shown other spot hother hspot hdue).imp (fun hshows => ?_) fun hqueued => hqueued },
    ⟨rfl, rfl, Nat.le_refl _, fun _ => rfl⟩⟩
  · obtain ⟨cell, hcell, hworking⟩ := h.cells other hother
    exact ⟨cell, hcell, { hworking with
      listens := fun name hname => henlists.kept _ _ (hworking.listens name hname) }⟩
  · rcases henlists.new id _ hother with hold | hnew
    · exact h.told id other hold
    · exact Handler.trigger.inj hnew ▸ hin
  · exact hshows.trans (congrArg (fun find => some (spot.token.text find)) hfind.symm)

theorem Sound.isAlive (h : page.Sound ledger) : page.scopes.isAlive rootScope = true :=
  Scopes.isAlive_root h.rooted.top (Nat.lt_of_lt_of_le (by omega) h.held)

/-- Registering for some sources. -/
theorem Sound.subscribe (h : page.Sound ledger) (hin : page.Collected component)
    (ids : List String) :
    Kept page (page.subscribe component ids).1 ledger ∧
      ∀ id ∈ ids, .trigger component ∈
        (page.subscribe component ids).1.scopes.handlers rootScope (Unicode.lower id) := by
  obtain ⟨cell, hcell, hworking⟩ := h.cells component hin
  obtain ⟨henlists, hall, -, hids⟩ := @foldl_enlist component ids
    (page.scopes, cell.triggers) h.rooted hworking.listens
  have hsubscribe : (page.subscribe component ids).1 =
      { page with scopes := (ids.foldl (Page.enlist 0 component) (page.scopes, cell.triggers)).1 }.changeComponent
        component fun cell' => { cell' with
          triggers := (ids.foldl (Page.enlist 0 component) (page.scopes, cell.triggers)).2 } := by
    rw [Page.subscribe, hcell]
    dsimp only
    rw [hworking.kept, hworking.scope, h.isAlive]
    rfl
  rw [hsubscribe]
  generalize ids.foldl (Page.enlist 0 component) (page.scopes, cell.triggers) = reached at *
  have hkept := h.enlist hin henlists
  exact ⟨hkept.trans (hkept.sound.changeComponent (fun _ _ => rfl) fun other _ hother =>
    { hother with listens := hall }), fun id hid => hall _ (hids id hid)⟩

/-- A component that is registered for what it reads is not fresh any more. -/
theorem Sound.ripen (h : page.Sound ledger)
    (hlistens : ∀ spot, page.spot? component = some spot → ∀ id ∈ spot.token.dependencies,
      .trigger component ∈ page.scopes.handlers rootScope (Unicode.lower id)) :
    page.Sound { ledger with fresh := ledger.fresh.filter (· ≠ component) } :=
  { h with
    pending := fun other hother => h.pending other (List.mem_filter.mp hother).1
    registered := fun other spot hother hspot hfresh => by
      by_cases hself : other = component
      · obtain rfl := hself
        exact hlistens spot hspot
      · exact h.registered other spot hother hspot fun hc =>
          hfresh (List.mem_filter.mpr ⟨hc, decide_eq_true hself⟩) }

end ReactiveMarkup.Page
