import ReactiveMarkup.Proofs.Page.Drainage
import ReactiveMarkup.Proofs.Page.Phases

/-!
# Sleepers at the queue

Everybody who works the queue off sleeps at the same signal, and a call wakes only the one who sleeps longest.
A sleeper is sure of the next call when it was called already or when nobody sleeps longer: `Favours` says
this of an open queue, and of a closed one that it was called, as nobody calls any more for the sake of those
who still sleep when the queue is closed.

What others do, they do by calling, by listening on their own account, or by going away, and none of it takes
the next call away from one who is sure of it. `Rings` is what everybody does to the queue who does not sleep
at it, and `Spares` is what a drain or a service does that may have a place among the sleepers.
-/

namespace ReactiveMarkup

/-! ## Signals -/

namespace Signal

variable {signal : Signal} {ticket other : Ticket}

theorem mem_called_call (h : ticket ∈ signal.called) : ticket ∈ signal.call.called := by
  rw [call]
  split
  · exact h
  · exact List.mem_append_left _ h

/-- The one who sleeps longest is called. -/
theorem mem_called_of_head (h : signal.parked.head? = some ticket) : ticket ∈ signal.call.called := by
  rw [call]
  split
  · next hnone =>
      rw [hnone] at h
      cases h
  · next first rest hparked =>
      rw [hparked] at h
      obtain rfl := Option.some.inj h
      exact List.mem_append_right _ List.mem_cons_self

theorem fresh_call (signal : Signal) : signal.call.fresh = signal.fresh := by
  rw [call]
  split <;> rfl

/-- One who listens leaves the calls of the others alone. -/
theorem mem_called_listen (h : ticket ∈ signal.called) {own : Option Ticket} (hother : own ≠ some ticket) :
    ticket ∈ (signal.listen own).1.called := by
  cases own with
  | none =>
      rw [listen]
      split <;> exact h
  | some mine =>
      rw [listen]
      split
      · exact (List.mem_erase_of_ne fun hsame => hother (congrArg some hsame.symm)).mpr h
      · exact h

/-- Whoever begins to sleep sleeps behind all others. -/
theorem head?_listen (h : signal.parked.head? = some ticket) (own : Option Ticket) :
    (signal.listen own).1.parked.head? = some ticket := by
  cases own with
  | none =>
      rw [listen]
      split
      · exact h
      · rw [List.head?_append, h]
        rfl
  | some mine =>
      rw [listen]
      split <;> exact h

theorem fresh_listen (signal : Signal) (own : Option Ticket) :
    signal.fresh ≤ (signal.listen own).1.fresh := by
  cases own with
  | none =>
      rw [listen]
      split
      · exact Nat.le_refl _
      · exact Nat.le_succ _
  | some mine =>
      rw [listen]
      split <;> exact Nat.le_refl _

/-- A place among the sleepers is kept, or it is a new one. -/
theorem listen_eq_some {own : Option Ticket} (h : (signal.listen own).2 = some ticket) :
    own = some ticket ∨ own = none ∧ ticket = signal.fresh ∧ (signal.listen own).1.fresh = signal.fresh + 1 := by
  cases own with
  | none =>
      rw [listen] at h ⊢
      split at h
      · cases h
      · next hpermit =>
          rw [if_neg hpermit]
          exact .inr ⟨rfl, (Option.some.inj h).symm, rfl⟩
  | some mine =>
      rw [listen] at h
      split at h
      · cases h
      · exact .inl h

theorem mem_called_leave (h : ticket ∈ signal.called) {own : Option Ticket} (hother : own ≠ some ticket) :
    ticket ∈ (signal.leave own).called := by
  cases own with
  | none => exact h
  | some mine =>
      rw [leave]
      split
      · exact mem_called_call ((List.mem_erase_of_ne fun hsame => hother (congrArg some hsame.symm)).mpr h)
      · exact h

/-- The one who sleeps longest stays so when somebody else goes away, or it gets the call handed on. -/
theorem head?_leave (h : signal.parked.head? = some ticket) {own : Option Ticket}
    (hother : own ≠ some ticket) :
    ticket ∈ (signal.leave own).called ∨ (signal.leave own).parked.head? = some ticket := by
  cases own with
  | none => exact .inr h
  | some mine =>
      rw [leave]
      split
      · exact .inl (mem_called_of_head h)
      · right
        cases hparked : signal.parked with
        | nil =>
            rw [hparked] at h
            cases h
        | cons first rest =>
            rw [hparked] at h
            obtain rfl := Option.some.inj h
            have hne : ¬(first == mine) = true := fun hsame => hother (congrArg some (eq_of_beq hsame).symm)
            rw [List.erase_cons_tail hne]
            rfl

theorem fresh_leave (signal : Signal) (own : Option Ticket) : (signal.leave own).fresh = signal.fresh := by
  cases own with
  | none => rfl
  | some mine =>
      rw [leave]
      split
      · exact fresh_call _
      · rfl

end Signal

/-! ## Queues -/

namespace Queue

variable {queue before middle after : Queue} {ticket : Ticket} {own kept last : Option Ticket}

/-- A sleeper was called, or the queue is open and the next call is for it. -/
def Favours (queue : Queue) (ticket : Ticket) : Prop :=
  ticket ∈ queue.signal.called ∨
    queue.closed = false ∧ queue.signal.parked.head? = some ticket

/-- When the queue is closed whoever was sure of the next call was called. -/
theorem Favours.called (h : queue.Favours ticket) (hclosed : queue.closed = true) :
    ticket ∈ queue.signal.called := by
  rcases h with hcalled | ⟨hopen, -⟩
  · exact hcalled
  · rw [hclosed] at hopen
    cases hopen

/-- What is done to the queue by those who do not sleep at it: they put jobs into it, close it, or take jobs
out. -/
inductive Rings (before : Queue) : Queue → Prop
  | refl : Rings before before
  | push {after : Queue} (rings : Rings before after) (job : Job) : Rings before (after.push job)
  | close {after : Queue} (rings : Rings before after) : Rings before after.close
  | take {after : Queue} (rings : Rings before after) (jobs : List Job) :
    Rings before { after with jobs }

theorem Rings.trans (h : Rings before middle) (h' : Rings middle after) : Rings before after := by
  induction h' with
  | refl => exact h
  | push _ job ih => exact ih.push job
  | close _ ih => exact ih.close
  | take _ jobs ih => exact ih.take jobs

theorem Rings.of_eq (h : after = before) : Rings before after := h ▸ .refl

theorem Rings.fresh (h : Rings before after) : after.signal.fresh = before.signal.fresh := by
  induction h with
  | refl => rfl
  | @push after _ job ih =>
      rw [Queue.push]
      split
      · exact ih
      · exact (Signal.fresh_call _).trans ih
  | close _ ih => exact (Signal.fresh_call _).trans ih
  | take _ jobs ih => exact ih

theorem Rings.closed (h : Rings before after) (hclosed : before.closed = true) : after.closed = true := by
  induction h with
  | refl => exact hclosed
  | @push after _ job ih =>
      rw [Queue.push, if_pos ih]
      exact ih
  | close _ ih => rfl
  | take _ jobs ih => exact ih

theorem Rings.favours (h : Rings before after) (hfavours : before.Favours ticket) :
    after.Favours ticket := by
  induction h with
  | refl => exact hfavours
  | @push after _ job ih =>
      rw [Queue.push]
      split
      · exact ih
      · rcases ih with hcalled | ⟨-, hfirst⟩
        · exact .inl (Signal.mem_called_call hcalled)
        · exact .inl (Signal.mem_called_of_head hfirst)
  | close _ ih =>
      rcases ih with hcalled | ⟨-, hfirst⟩
      · exact .inl (Signal.mem_called_call hcalled)
      · exact .inl (Signal.mem_called_of_head hfirst)
  | take _ jobs ih => exact ih

/-- What is done to the queue by one who may have a place among the sleepers, and may have one afterwards. It
takes no place of another, and the next call from nobody who is sure of it. -/
structure Spares (own : Option Ticket) (before after : Queue) (kept : Option Ticket) : Prop where
  fresh : before.signal.fresh ≤ after.signal.fresh
  closed : before.closed = true → after.closed = true
  place : ∀ ticket, kept = some ticket → own = some ticket ∨
    before.signal.fresh ≤ ticket ∧ ticket < after.signal.fresh
  favours : ∀ ticket, ticket < before.signal.fresh → own ≠ some ticket → before.Favours ticket →
    after.Favours ticket

theorem Spares.trans (h : Spares own before middle kept) (h' : Spares kept middle after last) :
    Spares own before after last where
  fresh := Nat.le_trans h.fresh h'.fresh
  closed hclosed := h'.closed (h.closed hclosed)
  place ticket hlast := by
    rcases h'.place ticket hlast with hkept | ⟨hle, hlt⟩
    · exact (h.place ticket hkept).imp_right fun hnew => ⟨hnew.1, Nat.lt_of_lt_of_le hnew.2 h'.fresh⟩
    · exact .inr ⟨Nat.le_trans h.fresh hle, hlt⟩
  favours ticket hold hother hfavours := by
    refine h'.favours ticket (Nat.lt_of_lt_of_le hold h.fresh) (fun hkept => ?_)
      (h.favours ticket hold hother hfavours)
    rcases h.place ticket hkept with hsame | ⟨hle, -⟩
    · exact hother hsame
    · exact absurd hold (Nat.not_lt.mpr hle)

theorem Rings.spares (h : Rings before after) (own : Option Ticket) : Spares own before after own where
  fresh := Nat.le_of_eq h.fresh.symm
  closed := h.closed
  place _ hkept := .inl hkept
  favours _ _ _ := h.favours

theorem spares_listen (queue : Queue) (own : Option Ticket) :
    Spares own queue { queue with signal := (queue.signal.listen own).1 } (queue.signal.listen own).2 where
  fresh := Signal.fresh_listen queue.signal own
  closed hclosed := hclosed
  place ticket hkept := by
    rcases Signal.listen_eq_some hkept with hsame | ⟨-, rfl, hfresh⟩
    · exact .inl hsame
    · exact .inr ⟨Nat.le_refl _, Nat.lt_of_lt_of_eq (Nat.lt_succ_self _) hfresh.symm⟩
  favours ticket _ hother hfavours := by
    rcases hfavours with hcalled | ⟨hopen, hfirst⟩
    · exact .inl (Signal.mem_called_listen hcalled hother)
    · exact .inr ⟨hopen, Signal.head?_listen hfirst own⟩

theorem spares_leave (queue : Queue) (own : Option Ticket) :
    Spares own queue { queue with signal := queue.signal.leave own } none where
  fresh := Nat.le_of_eq (Signal.fresh_leave queue.signal own).symm
  closed hclosed := hclosed
  place _ hkept := by cases hkept
  favours ticket _ hother hfavours := by
    rcases hfavours with hcalled | ⟨hopen, hfirst⟩
    · exact .inl (Signal.mem_called_leave hcalled hother)
    · exact (Signal.head?_leave hfirst hother).imp_right fun hstill => ⟨hopen, hstill⟩

end Queue

/-! ## Places among the sleepers -/

/-- The place of a drain. -/
def Progress.ticket? : Progress Drain → Option Ticket
  | .finished _ => none
  | .suspended _ rest => rest.ticket

/-- The place of what is driven on. -/
def Activity.ticket? : Activity → Option Ticket
  | .drain rest => rest.ticket
  | .serve (.draining rest) => rest.ticket
  | .serve (.sleeping ticket) => some ticket
  | _ => none

/-- The place of what is left. -/
def Stage.ticket? : Stage → Option Ticket
  | .finished _ => none
  | .waiting _ activity => activity.ticket?

/-! ## Turns -/

namespace Page

open Queue Relation

variable {page before middle after : Page} {owner : Option ComponentId} {turns : List Turn}

theorem rings_enqueue (page : Page) (job : Job) : Rings page.queue (page.enqueue job).queue := by
  have hpushed : Rings page.queue (page.queue.push job) := .push .refl job
  cases job with
  | host steps => exact hpushed
  | render component cause =>
      rw [enqueue]
      split <;> exact hpushed

theorem rings_foldl {α : Type} {step : Page → α → Page}
    (hstep : ∀ page item, Rings page.queue (step page item).queue) (page : Page) (items : List α) :
    Rings page.queue (items.foldl step page).queue := by
  induction items generalizing page with
  | nil => exact .refl
  | cons item rest ih => exact (hstep page item).trans (ih _)

theorem rings_attendTo (page : Page) (delivery : Delivery) :
    Rings page.queue (page.attendTo delivery).queue := by
  cases delivery with
  | handled handler source => exact .refl
  | triggered component source =>
      rw [attendTo]
      split
      · exact rings_enqueue page _
      · exact .refl

theorem rings_changeScopes {α : Type} (page : Page) (f : Scopes → Scopes × α) :
    Rings page.queue (page.changeScopes f).1.queue :=
  rings_foldl rings_attendTo { page with scopes := { (f page.scopes).1 with deliveries := [] } } _

theorem rings_releaseJobs (page : Page) (jobs : List Job) :
    Rings page.queue (jobs.foldl releaseJob page).queue :=
  rings_foldl (fun page job => .of_eq (queue_releaseJob page job)) page jobs

theorem rings_closeQueue (page : Page) : Rings page.queue page.closeQueue.queue :=
  (Rings.close .refl).trans (rings_releaseJobs { page with queue := page.queue.close } page.queue.jobs)

theorem closed_closeQueue (page : Page) : page.closeQueue.queue.closed = true :=
  (rings_releaseJobs { page with queue := page.queue.close } page.queue.jobs).closed rfl

theorem Act.rings (h : Act before after) : Rings before.queue after.queue := by
  cases h with
  | aside apart => exact .of_eq apart.queue
  | set scope source => exact rings_changeScopes before _
  | subscribe component ids =>
      rw [Page.subscribe]
      split
      · exact .refl
      · split <;> exact .refl
  | enqueue steps => exact rings_enqueue before _
  | close => exact rings_closeQueue before
  | holdScope alive => exact .refl
  | releaseScope scope => exact .refl
  | remember there shows kept command => exact .refl

theorem Works.rings (h : Works before after) : Rings before.queue after.queue := by
  induction h with
  | refl => exact .refl
  | tail _ hact ih => exact ih.trans hact.rings

theorem Endings.queue (h : Endings before after) : after.queue = before.queue := by
  induction h with
  | refl => rfl
  | tail _ hending ih =>
      cases hending with
      | leave id => exact ih
      | release id => exact ih

theorem Advances.rings (h : Advances owner before after) : Rings before.queue after.queue := by
  obtain ⟨begun, middle, htakes, hworks, hends⟩ := h
  have htaken : Rings before.queue begun.queue := by cases htakes <;> exact .refl
  exact (htaken.trans (Works.rings hworks)).trans (.of_eq (Endings.queue hends))

theorem Played.rings (h : Played before turns after) : Rings before.queue after.queue := by
  induction h with
  | none between => exact .of_eq between.queue
  | @turn before after turn turns between _ ih =>
      exact ((Rings.of_eq between.queue).trans (advances_advance turn.page turn.state).rings).trans ih

/-! ## Drains -/

theorem rings_launchJobs (page : Page) (drain : Drain) :
    Rings page.queue (page.launchJobs drain).1.queue := .take .refl []

theorem spares_drainRounds (fuel : Nat) (page : Page) (drain : Drain) :
    Spares drain.ticket page.queue (page.drainRounds fuel drain).1.queue
      (page.drainRounds fuel drain).2.ticket? := by
  have hover : ∀ {page : Page} {own : Option Ticket}, Spares own page.queue page.queue none :=
    fun {page own} => { (Rings.refl.spares own : Spares own page.queue page.queue own) with
      place := fun _ hkept => by cases hkept }
  induction fuel generalizing page drain with
  | zero =>
      rw [drainRounds.eq_def]
      split
      · exact hover
      · exact Rings.refl.spares _
  | succ fuel ih =>
      rw [drainRounds.eq_def]
      split
      · exact hover
      · have hround := (played_playRound drain.fleet.flights.length 1 page drain.fleet).rings
        have hnext : ∀ (page : Page) (drain : Drain), Spares drain.ticket page.queue
            ((page.launchJobs drain).1.drainRounds fuel (page.launchJobs drain).2).1.queue
            ((page.launchJobs drain).1.drainRounds fuel (page.launchJobs drain).2).2.ticket? :=
          fun page drain => ((rings_launchJobs page drain).spares drain.ticket).trans
            (ih _ (page.launchJobs drain).2)
        dsimp only
        rw [round]
        generalize page.playRound drain.fleet.flights.length 1 drain.fleet = reached at hround ⊢
        obtain ⟨after, rest⟩ := reached
        cases rest with
        | finished fleet id result =>
            have hleft := (hround.spares drain.ticket).trans (spares_leave after.queue drain.ticket)
            have hrest := fun failure =>
              hleft.trans (hnext (after.leaveSignal drain.ticket) { fleet, failure })
            exact hrest _
        | idle fleet =>
            have hlistened := (hround.spares drain.ticket).trans (spares_listen after.queue drain.ticket)
            dsimp only
            rw [listenSignal]
            generalize after.queue.signal.listen drain.ticket = listening at hlistened ⊢
            obtain ⟨signal, waiting⟩ := listening
            cases waiting with
            | some waiting => exact hlistened
            | none =>
                exact hlistened.trans (hnext { after with queue := { after.queue with signal } }
                  { drain with fleet, ticket := none })

theorem spares_beginDrain (fuel : Nat) (page : Page) :
    Spares none page.queue (beginDrain fuel page).1.queue (beginDrain fuel page).2.ticket? :=
  ((rings_launchJobs page {}).spares none).trans (spares_drainRounds fuel _ (page.launchJobs {}).2)

theorem spares_resumeDrain (fuel : Nat) (page : Page) (drain : Drain) :
    Spares drain.ticket page.queue (resumeDrain fuel page drain).1.queue
      (resumeDrain fuel page drain).2.ticket? :=
  spares_drainRounds fuel (page.wake drain.fleet).1 { drain with fleet := (page.wake drain.fleet).2 }

theorem queue_dropTask (page : Page) (task : Task) : (page.dropTask task).queue = page.queue := by
  obtain ⟨component, renders, work⟩ := task
  have hreleased : ∀ page : Page, (page.releaseTask component renders).queue = page.queue := by
    intro page
    cases component with
    | none => rfl
    | some id => cases renders <;> rfl
  cases work with
  | steps cause rest => exact hreleased page
  | load load =>
      have hreceiver : (page.releaseReceiver load.receiver).queue = page.queue := by
        cases load.receiver <;> rfl
      exact (hreleased _).trans hreceiver

theorem queue_dropFleet (page : Page) (fleet : Fleet) : (page.dropFleet fleet).queue = page.queue := by
  rw [dropFleet]
  induction fleet.flights generalizing page with
  | nil => rfl
  | cons flight rest ih =>
      refine (ih _).trans ?_
      rw [dropFlight]
      split
      · exact queue_releaseJob page _
      · rfl
      · exact queue_dropTask page _

theorem spares_dropDrain (page : Page) (drain : Drain) :
    Spares drain.ticket page.queue (page.dropDrain drain).queue none :=
  ((Rings.of_eq (queue_dropFleet page drain.fleet)).spares drain.ticket).trans (spares_leave _ drain.ticket)

/-! ## Services -/

theorem spares_serveFrom (fuel : Nat) (page : Page) (progress : Progress Drain) :
    Spares progress.ticket? page.queue (serveFrom fuel page progress).1.queue
      (serveFrom fuel page progress).2.ticket? := by
  induction fuel generalizing page progress with
  | zero => cases progress <;> exact Rings.refl.spares _
  | succ fuel ih =>
      cases progress with
      | suspended on rest => exact Rings.refl.spares _
      | finished result =>
          have hlistened := spares_listen page.queue none
          rw [serveFrom]
          split
          · exact Rings.refl.spares none
          · rw [listenSignal]
            generalize page.queue.signal.listen none = listening at hlistened ⊢
            obtain ⟨signal, waiting⟩ := listening
            cases waiting with
            | some waiting => exact hlistened
            | none =>
                dsimp only
                split
                · exact hlistened
                · have hdrained := hlistened.trans
                    (spares_beginDrain fuel { page with queue := { page.queue with signal } })
                  exact hdrained.trans (ih _ _)

theorem spares_startService (fuel : Nat) (page : Page) :
    Spares none page.queue (startService fuel page).1.queue (startService fuel page).2.ticket? := by
  rw [startService]
  split
  · exact Rings.refl.spares none
  · exact (spares_beginDrain fuel page).trans (spares_serveFrom fuel _ _)

theorem spares_resumeService (fuel : Nat) (page : Page) (service : Service) :
    Spares (Activity.serve service).ticket? page.queue (page.resumeService fuel service).1.queue
      (page.resumeService fuel service).2.ticket? := by
  cases service with
  | draining rest => exact (spares_resumeDrain fuel page rest).trans (spares_serveFrom fuel _ _)
  | sleeping ticket =>
      have hlistened := spares_listen page.queue (some ticket)
      rw [resumeService, listenSignal]
      generalize page.queue.signal.listen (some ticket) = listening at hlistened ⊢
      obtain ⟨signal, waiting⟩ := listening
      cases waiting with
      | some waiting => exact hlistened
      | none =>
          exact hlistened.trans (spares_startService fuel { page with queue := { page.queue with signal } })

/-! ## Who goes to sleep -/

/-- A service goes to sleep at an open queue only. -/
theorem open_of_serveFrom (fuel : Nat) (page : Page) (progress : Progress Drain) {awake : Bool}
    {ticket : Ticket}
    (hsleeps : (serveFrom fuel page progress).2 = .waiting awake (.serve (.sleeping ticket))) :
    (serveFrom fuel page progress).1.queue.closed = false := by
  induction fuel generalizing page progress with
  | zero => cases progress <;> cases hsleeps
  | succ fuel ih =>
      cases progress with
      | suspended on rest => cases hsleeps
      | finished result =>
          rw [serveFrom] at hsleeps ⊢
          split
          · next hclosed =>
              rw [if_pos hclosed] at hsleeps
              cases hsleeps
          · next hopen =>
              rw [if_neg hopen] at hsleeps
              have hkept : (page.listenSignal none).1.queue.closed = page.queue.closed := rfl
              generalize page.listenSignal none = listening at hkept hsleeps ⊢
              obtain ⟨listening, waiting⟩ := listening
              cases waiting with
              | some waiting => exact hkept.trans (Bool.eq_false_iff.mpr hopen)
              | none =>
                  dsimp only at hsleeps ⊢
                  split
                  · next hclosed =>
                      rw [if_pos hclosed] at hsleeps
                      cases hsleeps
                  · next hstill =>
                      rw [if_neg hstill] at hsleeps
                      exact ih _ _ hsleeps

theorem open_of_startService (fuel : Nat) (page : Page) {awake : Bool} {ticket : Ticket}
    (hsleeps : (startService fuel page).2 = .waiting awake (.serve (.sleeping ticket))) :
    (startService fuel page).1.queue.closed = false := by
  rw [startService] at hsleeps ⊢
  split
  · next hclosed =>
      rw [if_pos hclosed] at hsleeps
      cases hsleeps
  · next hopen =>
      rw [if_neg hopen] at hsleeps
      exact open_of_serveFrom fuel _ _ hsleeps

/-- A service that sleeps after it was polled went to sleep at an open queue, or it slept before and
changed nothing. -/
theorem sleeping_resumeService (fuel : Nat) (page : Page) (service : Service) {awake : Bool}
    {ticket : Ticket}
    (hsleeps : (page.resumeService fuel service).2 = .waiting awake (.serve (.sleeping ticket))) :
    (page.resumeService fuel service).1.queue.closed = false ∨
      service = .sleeping ticket ∧ (page.resumeService fuel service).1.queue = page.queue := by
  cases service with
  | draining rest => exact .inl (open_of_serveFrom fuel _ _ hsleeps)
  | sleeping own =>
      rw [resumeService, listenSignal, Signal.listen] at hsleeps ⊢
      by_cases hcalled : page.queue.signal.called.contains own = true
      · rw [if_pos hcalled] at hsleeps ⊢
        exact .inl (open_of_startService fuel _ hsleeps)
      · rw [if_neg hcalled] at hsleeps ⊢
        cases hsleeps
        exact .inr ⟨rfl, rfl⟩

/-- A service that was called ends when it finds the queue closed. -/
theorem resumeService_of_called {fuel : Nat} {ticket : Ticket}
    (hcalled : ticket ∈ page.queue.signal.called) (hclosed : page.queue.closed = true) :
    (page.resumeService fuel (.sleeping ticket)).2 = .finished (.ok .nothing) := by
  rw [resumeService, listenSignal, Signal.listen, if_pos (List.contains_iff_mem.mpr hcalled)]
  dsimp only
  rw [startService]
  exact congrArg Prod.snd (if_pos hclosed)

end Page

end ReactiveMarkup
