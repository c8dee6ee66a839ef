import ReactiveMarkup.Proofs.Page.Fleets

/-!
# What a drain leaves

A drain ends when nothing is under way and the queue is empty. Everything that came into the queue
in between was sent out, so then no render is to come any more and every binding shows its text.
-/

namespace ReactiveMarkup.Page

variable {page before middle after : Page} {ledger less more : Ledger} {component : ComponentId}
  {drain : Drain} {fuel : Nat}

/-- What is true of a page while a drain is under way. -/
structure Draining (page : Page) (ledger : Ledger) (drain : Drain) : Prop where
  fleet : page.Afloat true ledger drain.fleet
  empty : drain.fleet.flights = [] → page.queue.jobs = []

def Drains (before : Page) (ledger : Ledger) : Page × Progress Drain → Prop
  | (after, .finished _) => Kept before after ledger ∧ after.queue.jobs = []
  | (after, .suspended _ drain) => after.Draining ledger drain ∧ Stays before after

theorem Drains.later {reached : Page × Progress Drain} (h : Drains middle ledger reached)
    (hstays : Stays before middle) : Drains before ledger reached := by
  obtain ⟨after, progress⟩ := reached
  cases progress with
  | finished result => exact ⟨⟨h.1.sound, hstays.trans h.1.stays⟩, h.2⟩
  | suspended on drain => exact ⟨h.1, hstays.trans h.2⟩

theorem employ_nil (ledger : Ledger) : ledger.employ [] = ledger := by simp [Ledger.employ]

theorem employ_append (ledger : Ledger) (states more : List FlightState) :
    ledger.employ (states ++ more) = (ledger.employ more).employ states := by
  simp [Ledger.employ, Nat.add_assoc]

theorem flatMap_job (jobs : List Job) (f : FlightState → List ComponentId)
    (hf : ∀ job, f (.assigned (.job job)) = job.component?.toList) :
    ((jobs.map Assignment.job).map FlightState.assigned).flatMap f =
      jobs.filterMap Job.component? := by
  induction jobs with
  | nil => rfl
  | cons job rest ih =>
      rw [List.map_cons, List.map_cons, List.flatMap_cons, hf, ih, List.filterMap_cons]
      cases job.component? <;> rfl

/-- Jobs that were sent out are under way, not in the queue. -/
theorem Underway.takeJobs {states : List FlightState} (h : page.Underway true ledger states) :
    Underway { page with queue := { page.queue with jobs := [] } } true ledger
      (states ++ (page.queue.jobs.map Assignment.job).map FlightState.assigned) := by
  have howed := flatMap_job page.queue.jobs FlightState.owed fun _ => rfl
  have hdue := flatMap_job page.queue.jobs FlightState.due fun _ => rfl
  have hfresh : ∀ jobs : List Job,
      ((jobs.map Assignment.job).map FlightState.assigned).flatMap FlightState.fresh = [] := by
    intro jobs
    induction jobs with
    | nil => rfl
    | cons job rest ih => exact ih
  have hloads : ∀ jobs : List Job,
      (((jobs.map Assignment.job).map FlightState.assigned).map FlightState.loads).sum = 0 := by
    intro jobs
    induction jobs with
    | nil => rfl
    | cons job rest ih =>
        rw [List.map_cons, List.map_cons, List.map_cons, List.sum_cons, ih]
        rfl
  have hstays : Stays page { page with queue := { page.queue with jobs := [] } } :=
    ⟨rfl, rfl, Nat.le_refl _, fun _ => rfl⟩
  have hnone : ledger.employ (states ++ (page.queue.jobs.map Assignment.job).map
      FlightState.assigned) =
        { owed := states.flatMap FlightState.owed ++ (page.queued ++ ledger.owed)
          loads := (ledger.employ states).loads
          due := states.flatMap FlightState.due ++ (page.queued ++ ledger.due)
          fresh := (ledger.employ states).fresh } := by
    rw [employ_append, Ledger.employ, Ledger.employ, howed, hdue, hfresh, hloads]
    simp [Ledger.employ, queued]
  constructor
  case sound =>
    rw [hnone]
    exact { h.sound with
      jobs := fun _ hin => absurd hin List.not_mem_nil
      alive := fun component hin => by
        have halive : 1 + page.queued.count component +
            (states.flatMap FlightState.owed ++ ledger.owed).count component ≤
              page.heldComponents.count component := h.sound.alive component hin
        change 1 + ([] : List ComponentId).count component +
          (states.flatMap FlightState.owed ++ (page.queued ++ ledger.owed)).count component ≤ _
        rw [List.count_append] at halive
        rw [List.count_append, List.count_append, List.count_nil]
        dsimp only
        omega
      pending := fun component hin => by
        rcases List.mem_append.mp (h.sound.pending component hin) with hin | hin
        · exact List.mem_append_left _ hin
        · exact List.mem_append_right _ (List.mem_append_right _ hin)
      shown := fun component spot hin hspot hdue => by
        refine .inl ((h.sound.shown component spot hin hspot fun hc => hdue ?_).resolve_right
          fun hc => hdue (List.mem_append_right _ (List.mem_append_left _ hc)))
        rcases List.mem_append.mp hc with hin | hin
        · exact List.mem_append_left _ hin
        · exact List.mem_append_right _ (List.mem_append_right _ hin) }
  case ready =>
    intro state hstate
    rcases List.mem_append.mp hstate with hold | hnew
    · exact (h.ready state hold).stays hstays
    · obtain ⟨assignment, hassignment, rfl⟩ := List.mem_map.mp hnew
      obtain ⟨job, hjob, rfl⟩ := List.mem_map.mp hassignment
      exact h.sound.jobs job hjob
  case ripe =>
    rw [hnone]
    exact h.ripe
  case unripe =>
    intro hfalse
    cases hfalse

/-- Sending the jobs of the queue out. -/
theorem Afloat.launchJobs (h : page.Afloat true ledger drain.fleet) :
    (page.launchJobs drain).1.Draining ledger (page.launchJobs drain).2 ∧
      Stays page (page.launchJobs drain).1 := by
  obtain ⟨hafloat, hstays⟩ := h.works.takeJobs.launch h.nodup h.known
  have htaken : Stays page { page with queue := { page.queue with jobs := [] } } :=
    ⟨rfl, rfl, Nat.le_refl _, fun _ => rfl⟩
  exact ⟨⟨hafloat, fun _ => rfl⟩, htaken.trans hstays⟩

theorem leaveSignal_beside (page : Page) (ticket : Option Ticket) :
    Beside page (page.leaveSignal ticket) :=
  ⟨rfl, rfl, rfl, rfl, rfl, ⟨rfl, rfl⟩, rfl, rfl, Nat.le_refl _⟩

theorem listenSignal_beside (page : Page) (ticket : Option Ticket) :
    Beside page (page.listenSignal ticket).1 :=
  ⟨rfl, rfl, rfl, rfl, rfl, ⟨rfl, rfl⟩, rfl, rfl, Nat.le_refl _⟩

/-- A drain with nothing under way is over. -/
theorem Draining.over (h : page.Draining ledger drain) (hnone : drain.fleet.flights.isEmpty = true) :
    Drains page ledger (page.drainRounds fuel drain) := by
  have hflights := List.isEmpty_iff.mp hnone
  have hsound := h.fleet.works.sound
  rw [hflights, List.map_nil, employ_nil] at hsound
  rw [Page.drainRounds.eq_def, if_pos hnone]
  exact ⟨.refl hsound, h.empty hflights⟩

/-- The rounds of a drain. -/
theorem Draining.drainRounds (fuel : Nat) (h : page.Draining ledger drain) :
    Drains page ledger (page.drainRounds fuel drain) := by
  induction fuel generalizing page drain with
  | zero =>
      by_cases hnone : drain.fleet.flights.isEmpty = true
      · exact h.over hnone
      · rw [Page.drainRounds.eq_def, if_neg hnone]
        exact ⟨h, .refl page⟩
  | succ fuel ih =>
      by_cases hsome : drain.fleet.flights.isEmpty = true
      · exact h.over hsome
      · rw [Page.drainRounds.eq_def, if_neg hsome]
        have hround := h.fleet.playRound drain.fleet.flights.length 1
        dsimp only
        rw [Page.round]
        generalize page.playRound drain.fleet.flights.length 1 drain.fleet = reached
          at hround ⊢
        obtain ⟨after, round⟩ := reached
        cases round with
        | finished fleet id result =>
            obtain ⟨hafloat, hstays⟩ := hround
            have hbeside := leaveSignal_beside after drain.ticket
            have hleft := @Afloat.beside _ _ _ _ _ hafloat hbeside fleet rfl
            have hlaunched := fun failure => @Afloat.launchJobs _ _ { fleet, failure } hleft
            exact (ih (hlaunched _).1).later (hstays.trans (hbeside.stays.trans (hlaunched _).2))
        | idle fleet =>
            obtain ⟨hafloat, hstays, hlost⟩ := hround
            have hbeside := listenSignal_beside after drain.ticket
            dsimp only
            generalize after.listenSignal drain.ticket = listening at hbeside ⊢
            obtain ⟨listening, ticket⟩ := listening
            have hslept := @Afloat.beside _ _ _ _ _ hafloat hbeside fleet rfl
            cases ticket with
            | some ticket =>
                refine ⟨⟨hslept, fun hnone => ?_⟩, hstays.trans hbeside.stays⟩
                exact absurd (List.isEmpty_iff.mpr (hlost hnone)) hsome
            | none =>
                obtain ⟨hlaunched, hagain⟩ := @Afloat.launchJobs _ _
                  { drain with fleet, ticket := none } hslept
                exact (ih hlaunched).later (hstays.trans (hbeside.stays.trans hagain))

theorem Sound.beginDrain (h : page.Sound ledger) (hfresh : ledger.fresh = []) (fuel : Nat) :
    Drains page ledger (Page.beginDrain fuel page) := by
  have hempty : page.Afloat true ledger {} := by
    have hworks : page.Underway true ledger [] := by
      refine ⟨?_, fun _ hin => absurd hin List.not_mem_nil, fun _ => ?_,
        fun _ _ hin => absurd hin List.not_mem_nil⟩
      · exact (employ_nil ledger).symm ▸ h
      · exact (employ_nil ledger).symm ▸ hfresh
    exact ⟨hworks, List.nodup_nil, fun _ hin => absurd hin List.not_mem_nil⟩
  obtain ⟨hlaunched, hstays⟩ := @Afloat.launchJobs _ _ {} hempty
  exact (hlaunched.drainRounds fuel).later hstays

theorem Draining.resumeDrain (h : page.Draining ledger drain) (fuel : Nat) :
    Drains page ledger (Page.resumeDrain fuel page drain) := by
  have hbeside : Beside page (page.wake drain.fleet).1 :=
    ⟨rfl, rfl, rfl, rfl, rfl, ⟨rfl, rfl⟩, rfl, rfl, Nat.le_refl _⟩
  have hwoken : (page.wake drain.fleet).1.Draining ledger
      { drain with fleet := (page.wake drain.fleet).2 } :=
    ⟨h.fleet.beside hbeside rfl, h.empty⟩
  exact (hwoken.drainRounds fuel).later hbeside.stays

end ReactiveMarkup.Page
