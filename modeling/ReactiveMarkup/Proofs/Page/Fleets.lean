import Mathlib
import ReactiveMarkup.Page.Drain
import ReactiveMarkup.Proofs.Page.Flights
import ReactiveMarkup.Proofs.Page.Renders

/-!
# What works under way keep

Works have their turns in an order that nobody foresees, so what they owe is added up regardless of
order: the ledger of some works is the same for every permutation of them. A turn takes one work
out of the sum and puts what is left of it back.
-/

namespace ReactiveMarkup

namespace FlightState

/-- The components that a work holds. -/
def owed : FlightState → List ComponentId
  | .assigned (.job job) => job.component?.toList
  | .begun task => task.component.toList
  | _ => []

/-- How often a work holds the root scope. -/
def loads : FlightState → Nat
  | .begun _ => 1
  | _ => 0

/-- The components that a work is going to render. -/
def due : FlightState → List ComponentId
  | .assigned (.job job) => job.component?.toList
  | .assigned (.render component) => [component]
  | _ => []

/-- The components that a work is going to prepare. -/
def fresh : FlightState → List ComponentId
  | .assigned (.prepare component) => [component]
  | _ => []

end FlightState

/-- A ledger with what some works owe. -/
def Ledger.employ (ledger : Ledger) (states : List FlightState) : Ledger where
  owed := states.flatMap FlightState.owed ++ ledger.owed
  loads := (states.map FlightState.loads).sum + ledger.loads
  due := states.flatMap FlightState.due ++ ledger.due
  fresh := states.flatMap FlightState.fresh ++ ledger.fresh

namespace Page

variable {page before middle after : Page} {ledger less more' : Ledger} {component : ComponentId}
  {state : FlightState} {states more : List FlightState} {prepared : Bool}

/-- Whether a work may begin or go on. -/
def Ready (page : Page) : FlightState → Prop
  | .assigned (.job job) => ∃ component cause, job = .render component cause ∧
    page.Collected component
  | .assigned (.prepare component) => page.Collected component
  | .assigned (.render component) => page.Collected component
  | .begun task => page.Errand task

/-- What is true of a page while some works are under way. Nothing is rendered before everything is
`prepared`. -/
structure Underway (page : Page) (prepared : Bool) (ledger : Ledger) (states : List FlightState) :
    Prop where
  sound : page.Sound (ledger.employ states)
  ready : ∀ state ∈ states, page.Ready state
  ripe : prepared = true → (ledger.employ states).fresh = []
  unripe : prepared = false → ∀ state ∈ states, state.due = []

theorem Ready.stays (h : before.Ready state) (hstays : Stays before after) : after.Ready state := by
  cases state with
  | begun task => exact Errand.stays h hstays
  | assigned assignment =>
      cases assignment with
      | job job =>
          obtain ⟨component, cause, hjob, hin⟩ := h
          exact ⟨component, cause, hjob, hstays.collected_iff.mpr hin⟩
      | prepare component => exact hstays.collected_iff.mpr h
      | render component => exact hstays.collected_iff.mpr h

theorem Underway.perm (h : page.Underway prepared ledger states) (hperm : states.Perm more) :
    page.Underway prepared ledger more := by
  have hfresh : (more.flatMap FlightState.fresh ++ ledger.fresh).Perm
      (states.flatMap FlightState.fresh ++ ledger.fresh) :=
    (hperm.symm.flatMap_right _).append_right _
  have hdue : (more.flatMap FlightState.due ++ ledger.due).Perm
      (states.flatMap FlightState.due ++ ledger.due) := (hperm.symm.flatMap_right _).append_right _
  refine ⟨h.sound.within ⟨fun component => ?_, ?_, fun component hin => hdue.mem_iff.mpr hin,
    fun component hin => hfresh.mem_iff.mpr hin, fun component hin => ?_⟩,
    fun state hstate => h.ready state (hperm.mem_iff.mpr hstate), fun hprepared => ?_,
    fun hprepared state hstate => h.unripe hprepared state (hperm.mem_iff.mpr hstate)⟩
  · exact Nat.le_of_eq (((hperm.symm.flatMap_right _).append_right _).count_eq component)
  · exact Nat.add_le_add_right (Nat.le_of_eq (hperm.symm.map _).sum_nat) _
  · exact hdue.mem_iff.mpr (h.sound.pending component (hfresh.mem_iff.mp hin))
  · have hnone : states.flatMap FlightState.fresh ++ ledger.fresh = [] := h.ripe hprepared
    rw [hnone] at hfresh
    exact hfresh.eq_nil

/-- What a turn of a work leads to while others are under way. -/
def Turns (before : Page) (prepared : Bool) (ledger : Ledger) (others : List FlightState) :
    Page × Progress Task → Prop
  | (after, .finished _) => after.Underway prepared ledger others ∧ Stays before after
  | (after, .suspended _ task) =>
    after.Underway prepared ledger (.begun task :: others) ∧ Stays before after

theorem employ_cons (ledger : Ledger) (state : FlightState) (states : List FlightState) :
    ledger.employ (state :: states) =
      { owed := state.owed ++ (ledger.employ states).owed
        loads := state.loads + (ledger.employ states).loads
        due := state.due ++ (ledger.employ states).due
        fresh := state.fresh ++ (ledger.employ states).fresh } := by
  simp [Ledger.employ, Nat.add_assoc]

theorem Ends.within {reached : Page × Progress Task} (h : Ends before more' reached)
    (hwithin : Ledger.Within less more') : Ends before less reached := by
  obtain ⟨after, progress⟩ := reached
  cases progress with
  | finished result => exact ⟨h.sound.within hwithin, h.stays⟩
  | suspended on task =>
      refine ⟨⟨h.1.sound.within ⟨fun component => ?_, Nat.add_le_add_right hwithin.loads 1,
        hwithin.due, hwithin.fresh, hwithin.pending⟩, h.1.stays⟩, h.2⟩
      change (task.component.toList ++ less.owed).count component ≤
        (task.component.toList ++ more'.owed).count component
      rw [List.count_append, List.count_append]
      exact Nat.add_le_add_left (hwithin.owed component) _

/-- What ends well next to other works is a turn. -/
theorem Ends.turns {reached : Page × Progress Task} {others : List FlightState}
    (h : Ends before (ledger.employ others) reached) (hready : ∀ state ∈ others, before.Ready state)
    (hripe : prepared = true → (ledger.employ others).fresh = [])
    (hunripe : prepared = false → ∀ state ∈ others, state.due = []) :
    Turns before prepared ledger others reached := by
  obtain ⟨after, progress⟩ := reached
  cases progress with
  | finished result =>
      exact ⟨⟨h.sound, fun state hstate => (hready state hstate).stays h.stays, hripe, hunripe⟩,
        h.stays⟩
  | suspended on task =>
      obtain ⟨hkept, herrand⟩ := h
      have hledger : ledger.employ (.begun task :: others) = (ledger.employ others).lend task := by
        rw [employ_cons, Ledger.lend, Nat.add_comm]
        rfl
      refine ⟨⟨hledger ▸ hkept.sound, fun state hstate => ?_, fun hprepared => hledger ▸
        hripe hprepared, fun hprepared state hstate => ?_⟩, hkept.stays⟩
      · rcases List.mem_cons.mp hstate with rfl | hother
        · exact herrand
        · exact (hready state hother).stays hkept.stays
      · rcases List.mem_cons.mp hstate with rfl | hother
        · rfl
        · exact hunripe hprepared state hother

theorem mem_of_mem_filter_cons {rest : List ComponentId} {other : ComponentId}
    (h : other ∈ (component :: rest).filter (· ≠ component)) : other ∈ rest := by
  obtain ⟨hin, hne⟩ := List.mem_filter.mp h
  rcases List.mem_cons.mp hin with hsame | hrest
  · exact absurd hsame (of_decide_eq_true hne)
  · exact hrest

/-- A turn of one of several works. -/
theorem Underway.advance {others : List FlightState} (h : page.Underway prepared ledger (state :: others)) :
    Turns page prepared ledger others (page.advance state) := by
  have hready := h.ready state List.mem_cons_self
  have hsound := h.sound
  have hripe := h.ripe
  rw [employ_cons] at hsound hripe
  have hnone : state.due ≠ [] → (ledger.employ others).fresh = [] := by
    intro hdue
    cases prepared with
    | true => exact (List.append_eq_nil_iff.mp (hripe rfl)).2
    | false => exact absurd (h.unripe rfl state List.mem_cons_self) hdue
  refine Ends.turns ?_ (fun other hother => h.ready other (List.mem_cons_of_mem _ hother))
    (fun hprepared => (List.append_eq_nil_iff.mp (hripe hprepared)).2)
    fun hprepared other hother => h.unripe hprepared other (List.mem_cons_of_mem _ hother)
  cases state with
  | begun task =>
      refine Sound.resume ?_ hready
      rw [Ledger.lend, Nat.add_comm]
      exact hsound
  | assigned assignment =>
      cases assignment with
      | prepare component =>
          exact (hsound.prepare hready).within ⟨fun _ => Nat.le_refl _, Nat.le_add_left _ _,
            fun _ hin => hin, fun other hin => mem_of_mem_filter_cons hin,
            fun other hin => hsound.pending other (List.mem_append_right _ hin)⟩
      | render component =>
          have hnone := hnone (List.cons_ne_nil _ _)
          rw [hnone] at hsound
          refine (hsound.render hready List.not_mem_nil none).within
            ⟨fun _ => Nat.le_refl _, Nat.le_add_left _ _,
              fun other hin => mem_of_mem_filter_cons hin,
              fun _ hin => absurd hin List.not_mem_nil, fun other hin => ?_⟩
          rw [hnone] at hin
          exact absurd hin List.not_mem_nil
      | job job =>
          obtain ⟨component, cause, rfl, hin⟩ := hready
          have hnone := hnone (List.cons_ne_nil _ _)
          rw [hnone] at hsound
          have hjob := @Sound.within _ {
            owed := component :: (ledger.employ others).owed
            loads := (ledger.employ others).loads
            due := component :: (ledger.employ others).due
            fresh := [] } _ hsound ⟨fun _ => Nat.le_refl _, Nat.le_add_left _ _, fun _ hin => hin,
              fun _ hin => hin, fun _ hin => absurd hin List.not_mem_nil⟩
          refine (@Sound.beginJob _ {
            owed := (ledger.employ others).owed
            loads := (ledger.employ others).loads
            due := component :: (ledger.employ others).due
            fresh := [] } _ hin List.not_mem_nil hjob cause).within
            ⟨fun _ => Nat.le_refl _, Nat.le_refl _,
              fun other hin => mem_of_mem_filter_cons hin,
              fun _ hin => absurd hin List.not_mem_nil, fun other hin => ?_⟩
          rw [hnone] at hin
          exact absurd hin List.not_mem_nil

/-! ## Fleets -/

/-- What is true of a page while a fleet is under way. -/
structure Afloat (page : Page) (prepared : Bool) (ledger : Ledger) (fleet : Fleet) : Prop where
  works : page.Underway prepared ledger (fleet.flights.map Flight.state)
  nodup : (fleet.flights.map Flight.id).Nodup
  known : ∀ flight ∈ fleet.flights, flight.id < page.flights

variable {fleet : Fleet} {flights : List Flight} {id : FlightId}

/-- A turn of a work of a fleet. -/
theorem Afloat.advance (h : page.Afloat prepared ledger fleet) {flight : Flight}
    (hfind : fleet.flights.find? (·.id == id) = some flight) (line : List FlightId) :
    Stays page (page.advance flight.state).1 ∧
      ((∃ result, (page.advance flight.state).2 = .finished result) →
        (page.advance flight.state).1.Afloat prepared ledger (fleet.remove id line)) ∧
      ∀ on task, (page.advance flight.state).2 = .suspended on task →
        (page.advance flight.state).1.Afloat prepared ledger (fleet.keep id task line) := by
  obtain ⟨hworks, hnodup, hknown⟩ := h
  obtain ⟨hperm, hremoved, hkept⟩ := Fleet.Numbered.turn ⟨hnodup, hknown⟩ hfind line
  have hturns := (hworks.perm hperm).advance
  generalize page.advance flight.state = reached at hturns ⊢
  obtain ⟨after, progress⟩ := reached
  cases progress with
  | finished result =>
      obtain ⟨hunderway, hstays⟩ := hturns
      obtain ⟨hnodup, hknown⟩ := hremoved.le hstays.flights
      exact ⟨hstays, fun _ => ⟨hunderway, hnodup, hknown⟩, fun _ _ hsuspended => by cases hsuspended⟩
  | suspended on task =>
      obtain ⟨hunderway, hstays⟩ := hturns
      refine ⟨hstays, fun hfinished => ?_, fun on' task' htask => ?_⟩
      · obtain ⟨result, hresult⟩ := hfinished
        cases hresult
      · obtain ⟨-, rfl⟩ := Progress.suspended.inj htask
        obtain ⟨hnodup, hknown⟩ := (hkept task).2.le hstays.flights
        exact ⟨hunderway.perm (hkept task).1.symm, hnodup, hknown⟩

theorem Underway.beside (h : before.Underway prepared ledger states) (hbeside : Beside before after) :
    after.Underway prepared ledger states :=
  ⟨hbeside.sound h.sound, fun state hstate => (h.ready state hstate).stays hbeside.stays, h.ripe,
    h.unripe⟩

/-- The line is of no importance. -/
theorem Afloat.beside (h : before.Afloat prepared ledger fleet) (hbeside : Beside before after)
    {other : Fleet} (hflights : other.flights = fleet.flights) : after.Afloat prepared ledger other := by
  refine ⟨?_, hflights ▸ h.nodup, fun flight hflight => ?_⟩
  · rw [hflights]
    exact h.works.beside hbeside
  · exact Nat.lt_of_lt_of_le (h.known flight (hflights ▸ hflight)) hbeside.flights

/-- What a round of turns leads to. A round that ends with nothing finished has lost no work. -/
def Rounds (before : Page) (prepared : Bool) (ledger : Ledger) (fleet : Fleet) : Page × Round → Prop
  | (after, .finished left _ _) => after.Afloat prepared ledger left ∧ Stays before after
  | (after, .idle left) => after.Afloat prepared ledger left ∧ Stays before after ∧
    (left.flights = [] → fleet.flights = [])

theorem Rounds.later {reached : Page × Round} {left : Fleet} (h : Rounds middle prepared ledger left reached)
    (hstays : Stays before middle) (hlost : left.flights = [] → fleet.flights = []) :
    Rounds before prepared ledger fleet reached := by
  obtain ⟨after, round⟩ := reached
  cases round with
  | finished last id result => exact ⟨h.1, hstays.trans h.2⟩
  | idle last => exact ⟨h.1, hstays.trans h.2.1, fun hnone => hlost (h.2.2 hnone)⟩

theorem keep_eq_nil {task : Task} {line : List FlightId}
    (h : (fleet.keep id task line).flights = []) : fleet.flights = [] := List.map_eq_nil_iff.mp h

/-- A round of turns. -/
theorem Afloat.playRound (turns pauses : Nat) (h : page.Afloat prepared ledger fleet) :
    Rounds page prepared ledger fleet (page.playRound turns pauses fleet) := by
  induction turns generalizing pauses page fleet with
  | zero => exact ⟨h, .refl page, fun hnone => hnone⟩
  | succ turns ih =>
      rw [Page.playRound]
      split
      · exact ⟨h, .refl page, fun hnone => hnone⟩
      · next id line hline =>
          split
          · exact Rounds.later (ih pauses (h.beside (.refl page) rfl)) (.refl page) fun hnone => hnone
          · next flight hfind =>
              have hadvance := fun line => h.advance hfind line
              generalize page.advance flight.state = reached at hadvance ⊢
              obtain ⟨after, progress⟩ := reached
              cases progress with
              | finished result =>
                  obtain ⟨hstays, hremoved, -⟩ := hadvance line
                  exact ⟨hremoved ⟨result, rfl⟩, hstays⟩
              | suspended on task =>
                  cases on with
                  | turn =>
                      obtain ⟨hstays, -, hkept⟩ := hadvance (line ++ [id])
                      cases pauses with
                      | zero => exact ⟨hkept .turn task rfl, hstays, keep_eq_nil⟩
                      | succ pauses =>
                          exact Rounds.later (ih pauses (hkept .turn task rfl)) hstays keep_eq_nil
                  | gate gate =>
                      obtain ⟨hstays, -, hkept⟩ := hadvance line
                      have hbeside : Beside after { after with gates := after.gates.park gate id } :=
                        ⟨rfl, rfl, rfl, rfl, rfl, ⟨rfl, rfl⟩, rfl, rfl, Nat.le_refl _⟩
                      exact Rounds.later (ih pauses ((hkept (.gate gate) task rfl).beside hbeside rfl))
                        (hstays.trans hbeside.stays) keep_eq_nil
                  | call =>
                      obtain ⟨hstays, -, hkept⟩ := hadvance line
                      exact Rounds.later (ih pauses (hkept .call task rfl)) hstays keep_eq_nil

/-- Sending works out. -/
theorem Underway.launch {assignments : List Assignment}
    (h : page.Underway prepared ledger
      (fleet.flights.map Flight.state ++ assignments.map FlightState.assigned))
    (hnodup : (fleet.flights.map Flight.id).Nodup)
    (hknown : ∀ flight ∈ fleet.flights, flight.id < page.flights) :
    (page.launch fleet assignments).1.Afloat prepared ledger (page.launch fleet assignments).2 ∧
      Stays page (page.launch fleet assignments).1 := by
  have hbeside : Beside page (page.launch fleet assignments).1 :=
    ⟨rfl, rfl, rfl, rfl, rfl, ⟨rfl, rfl⟩, rfl, rfl, Nat.le_add_right _ _⟩
  obtain ⟨hstates, hnumbered⟩ := Fleet.Numbered.launch ⟨hnodup, hknown⟩ assignments
  refine ⟨⟨?_, hnumbered.nodup, hnumbered.known⟩, hbeside.stays⟩
  change Underway _ prepared ledger (page.launch fleet assignments).2.states
  rw [hstates]
  exact h.beside hbeside

end Page

end ReactiveMarkup
