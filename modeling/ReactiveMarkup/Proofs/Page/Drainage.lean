import ReactiveMarkup.Page.Host
import ReactiveMarkup.Proofs.Page.Turns

/-!
# A drain forgets nothing

A drain has three places to lose a job in: the queue, where jobs keep coming while it is at work, the
fleet of those under way, and the signal that wakes it, which may have been called for a job that was sent
out long ago. It loses none. Whatever the jobs do, and whatever others do to the page in between, as long
as they leave the queue to the drain, every job that ever came is driven from its beginning to its end by
turns of its own; when the drain is over nothing is left of any of them, and it ends with the first error
that a job ended with.

The invariant is `Drain.Sailed`: what came into the queue is what was sent out, and then what is still in
the queue, in this order. It only breaks when the queue is closed, and a closed queue stays closed.
-/

namespace ReactiveMarkup

open Relation

namespace Page

variable {page before middle after : Page}

/-! ## What comes into the queue -/

/-- Others had their way with a page, and left the queue to whoever drains it: they closed it or put
jobs behind those that were there. -/
structure Feeds (before after : Page) : Prop where
  closed : before.queue.closed = true → after.queue.closed = true
  jobs : after.queue.closed = false → before.queue.jobs <+: after.queue.jobs
  flights : before.flights ≤ after.flights

/-- The jobs that came into the queue. -/
def came (before after : Page) : List Job := after.queue.jobs.drop before.queue.jobs.length

theorem Feeds.refl (page : Page) : Feeds page page :=
  ⟨fun h => h, fun _ => List.prefix_refl _, Nat.le_refl _⟩

theorem Feeds.open_of_open (h : Feeds before after) (hopen : after.queue.closed = false) :
    before.queue.closed = false :=
  Bool.eq_false_iff.mpr fun hclosed => by
    rw [h.closed hclosed] at hopen
    cases hopen

theorem Feeds.trans (h : Feeds before middle) (h' : Feeds middle after) : Feeds before after where
  closed hclosed := h'.closed (h.closed hclosed)
  jobs hopen := (h.jobs (h'.open_of_open hopen)).trans (h'.jobs hopen)
  flights := Nat.le_trans h.flights h'.flights

theorem Feeds.of_queue (hqueue : after.queue = before.queue) (hflights : before.flights ≤ after.flights) :
    Feeds before after :=
  ⟨fun h => hqueue ▸ h, fun _ => hqueue ▸ List.prefix_refl _, hflights⟩

theorem Feeds.jobs_eq (h : Feeds before after) (hopen : after.queue.closed = false) :
    after.queue.jobs = before.queue.jobs ++ before.came after := by
  obtain ⟨more, hmore⟩ := h.jobs hopen
  rw [came, ← hmore, List.drop_left]

theorem Feeds.foldl {α : Type} {step : Page → α → Page}
    (hstep : ∀ page item, Feeds page (step page item)) (page : Page) (items : List α) :
    Feeds page (items.foldl step page) := by
  induction items generalizing page with
  | nil => exact .refl page
  | cons item rest ih => exact (hstep page item).trans (ih _)

theorem feeds_enqueue (page : Page) (job : Job) : Feeds page (page.enqueue job) := by
  have hpushed : Feeds page { page with queue := page.queue.push job } := by
    refine ⟨fun hclosed => ?_, fun _ => ?_, Nat.le_refl _⟩
    · rw [Queue.push, if_pos hclosed]
      exact hclosed
    · rw [Queue.push]
      split
      · exact List.prefix_refl _
      · exact List.prefix_append _ _
  cases job with
  | host steps => exact hpushed
  | render component cause =>
      rw [enqueue]
      split
      · exact hpushed
      · exact hpushed.trans (.of_queue rfl (Nat.le_refl _))

theorem feeds_attendTo (page : Page) (delivery : Delivery) : Feeds page (page.attendTo delivery) := by
  cases delivery with
  | handled handler source => exact .of_queue rfl (Nat.le_refl _)
  | triggered component source =>
      rw [attendTo]
      split
      · exact feeds_enqueue page _
      · exact .refl page

theorem feeds_changeScopes {α : Type} (page : Page) (f : Scopes → Scopes × α) :
    Feeds page (page.changeScopes f).1 := by
  have hchanged : Feeds page { page with scopes := { (f page.scopes).1 with deliveries := [] } } :=
    .of_queue rfl (Nat.le_refl _)
  exact hchanged.trans (.foldl feeds_attendTo _ _)

theorem queue_releaseJob (page : Page) (job : Job) : (page.releaseJob job).queue = page.queue := by
  cases job <;> rfl

theorem feeds_closeQueue (page : Page) : Feeds page page.closeQueue := by
  have hkept : ∀ (jobs : List Job) (page : Page),
      (jobs.foldl releaseJob page).queue = page.queue ∧
        (jobs.foldl releaseJob page).flights = page.flights := by
    intro jobs
    induction jobs with
    | nil => exact fun page => ⟨rfl, rfl⟩
    | cons job rest ih =>
        intro page
        obtain ⟨hqueue, hflights⟩ := ih (page.releaseJob job)
        exact ⟨hqueue.trans (queue_releaseJob page job), hflights.trans (by cases job <;> rfl)⟩
  obtain ⟨hqueue, hflights⟩ := hkept page.queue.jobs { page with queue := page.queue.close }
  have hclosed : page.closeQueue.queue.closed = true := by
    rw [closeQueue, hqueue]
    rfl
  refine ⟨fun _ => hclosed, fun hopen => ?_, Nat.le_of_eq hflights.symm⟩
  rw [hclosed] at hopen
  cases hopen

theorem feeds_subscribe (page : Page) (component : ComponentId) (ids : List String) :
    Feeds page (page.subscribe component ids).1 := by
  rw [subscribe]
  split
  · exact .refl page
  · split
    · exact .refl page
    · exact .of_queue rfl (Nat.le_refl _)

theorem Act.feeds (h : Act before after) : Feeds before after := by
  cases h with
  | aside apart => exact .of_queue apart.queue (Nat.le_of_eq apart.flights.symm)
  | set scope source => exact feeds_changeScopes before _
  | subscribe component ids => exact feeds_subscribe before component ids
  | enqueue steps => exact feeds_enqueue before _
  | close => exact feeds_closeQueue before
  | holdScope alive => exact .of_queue rfl (Nat.le_refl _)
  | releaseScope scope => exact .of_queue rfl (Nat.le_refl _)
  | remember there shows kept command => exact .of_queue rfl (Nat.le_refl _)

theorem TakesUp.feeds {owner : Option ComponentId} (h : TakesUp before owner after) :
    Feeds before after := by
  cases h with
  | nothing => exact .refl before
  | hold owned => exact .of_queue rfl (Nat.le_refl _)
  | enter owned there admits => exact .of_queue rfl (Nat.le_refl _)

theorem Ending.feeds (h : Ending before after) : Feeds before after := by
  cases h with
  | leave id => exact .of_queue rfl (Nat.le_refl _)
  | release id => exact .of_queue rfl (Nat.le_refl _)

theorem Advances.feeds {owner : Option ComponentId} (h : Advances owner before after) :
    Feeds before after := by
  have hlift : ∀ {step : Page → Page → Prop}, (∀ {before after}, step before after →
      Feeds before after) → ∀ {before after}, ReflTransGen step before after →
        Feeds before after := by
    intro step hstep before after hsteps
    induction hsteps with
    | refl => exact .refl before
    | tail _ hlast ih => exact ih.trans (hstep hlast)
  obtain ⟨begun, middle, htakes, hworks, hends⟩ := h
  exact htakes.feeds.trans ((hlift Act.feeds hworks).trans (hlift Ending.feeds hends))

theorem feeds_advance (page : Page) (state : FlightState) : Feeds page (page.advance state).1 :=
  (advances_advance page state).feeds

/-! ## Rounds -/

theorem feeds_playRound (rounds pauses : Nat) (page : Page) (fleet : Fleet) :
    Feeds page (page.playRound rounds pauses fleet).1 := by
  induction rounds generalizing pauses page fleet with
  | zero => exact .refl page
  | succ rounds ih =>
      rw [playRound]
      split
      · exact .refl page
      · next id line _ =>
        split
        · exact ih _ _ _
        · next flight _ =>
            have hturn := feeds_advance page flight.state
            split
            · next hreached => rwa [hreached] at hturn
            · next hreached =>
                rw [hreached] at hturn
                split
                · exact hturn
                · exact hturn.trans (ih _ _ _)
            · next parking gate task hreached =>
                rw [hreached] at hturn
                have hparked : Feeds parking { parking with gates := parking.gates.park gate id } :=
                  .of_queue rfl (Nat.le_refl _)
                exact hturn.trans (hparked.trans (ih _ _ _))
            · next hreached =>
                rw [hreached] at hturn
                exact hturn.trans (ih _ _ _)

/-- What comes into the queue in a round comes in its turns. -/
theorem jobs_playRound (rounds pauses : Nat) (page : Page) (fleet : Fleet)
    (hopen : (page.playRound rounds pauses fleet).1.queue.closed = false) :
    (page.playRound rounds pauses fleet).1.queue.jobs =
      page.queue.jobs ++ (page.roundTurns rounds pauses fleet).flatMap Turn.enqueued := by
  induction rounds generalizing pauses page fleet with
  | zero => exact (List.append_nil _).symm
  | succ rounds ih =>
      rw [playRound] at hopen ⊢
      rw [roundTurns]
      cases hline : fleet.line with
      | nil => exact (List.append_nil _).symm
      | cons id line =>
          rw [hline] at hopen
          dsimp only at hopen ⊢
          cases hfind : fleet.flights.find? (·.id == id) with
          | none =>
              rw [hfind] at hopen
              exact ih _ _ _ hopen
          | some flight =>
              rw [hfind] at hopen
              dsimp only at hopen ⊢
              have hturn := feeds_advance page flight.state
              have hqueued := fun hopen => hturn.jobs_eq hopen
              change _ → _ = _ ++ Turn.enqueued ⟨id, flight.state, page⟩ at hqueued
              generalize page.advance flight.state = reached at hturn hqueued hopen ⊢
              obtain ⟨advanced, progress⟩ := reached
              -- The rest of the round goes on where the turn left the queue.
              have hgoOn : ∀ {pauses' page' fleet'}, page'.queue = advanced.queue →
                  (playRound rounds pauses' page' fleet').1.queue.closed = false →
                  (playRound rounds pauses' page' fleet').1.queue.jobs =
                    page.queue.jobs ++ (⟨id, flight.state, page⟩ ::
                      page'.roundTurns rounds pauses' fleet').flatMap Turn.enqueued := by
                intro pauses' page' fleet' hsame hstill
                have hbetween := (feeds_playRound rounds pauses' page' fleet').open_of_open hstill
                rw [hsame] at hbetween
                rw [ih _ _ _ hstill, hsame, hqueued hbetween, List.flatMap_cons, List.append_assoc]
              cases progress with
              | finished result =>
                  rw [List.flatMap_cons, List.flatMap_nil, List.append_nil]
                  exact hqueued hopen
              | suspended on task =>
                  cases on with
                  | turn =>
                      cases pauses with
                      | zero =>
                          dsimp only
                          rw [List.flatMap_cons, List.flatMap_nil, List.append_nil]
                          exact hqueued hopen
                      | succ pauses => exact hgoOn rfl hopen
                  | gate gate => exact hgoOn rfl hopen
                  | call => exact hgoOn rfl hopen

/-- A round that ends no work leaves none behind. -/
theorem flights_playRound_of_idle (rounds pauses : Nat) (page : Page) (fleet : Fleet) {left : Fleet}
    (hidle : (page.playRound rounds pauses fleet).2 = .idle left) (hnone : left.flights = []) :
    fleet.flights = [] := by
  induction rounds generalizing pauses page fleet with
  | zero =>
      obtain rfl := Round.idle.inj hidle
      exact hnone
  | succ rounds ih =>
      have hkept : ∀ {id task line}, (fleet.keep id task line).flights = [] → fleet.flights = [] :=
        fun h => List.map_eq_nil_iff.mp h
      rw [playRound] at hidle
      split at hidle
      · obtain rfl := Round.idle.inj hidle
        exact hnone
      · next line _ =>
        split at hidle
        · exact ih pauses page { fleet with line } hidle
        · split at hidle
          · cases hidle
          · split at hidle
            · obtain rfl := Round.idle.inj hidle
              exact hkept hnone
            · exact hkept (ih _ _ _ hidle)
          · exact hkept (ih _ _ _ hidle)
          · exact hkept (ih _ _ _ hidle)

/-! ## Drains -/

/-- The turns of the rounds of a drain. -/
def drainTurns (fuel : Nat) (page : Page) (fleet : Fleet) (ticket : Option Ticket) : List Turn :=
  if fleet.flights.isEmpty then []
  else
    match fuel with
    | 0 => []
    | fuel + 1 =>
      page.roundTurns fleet.flights.length 1 fleet ++
        match page.round fleet with
        | (page, .finished fleet _ _) =>
          let (page, drain) := (page.leaveSignal ticket).launchJobs { fleet }
          drainTurns fuel page drain.fleet none
        | (page, .idle fleet) =>
          match page.listenSignal ticket with
          | (_, some _) => []
          | (page, none) =>
            let (page, drain) := page.launchJobs { fleet }
            drainTurns fuel page drain.fleet none

/-- The turns of a drain until it waits for the first time. -/
def beginDrainTurns (fuel : Nat) (page : Page) : List Turn :=
  let (page, drain) := page.launchJobs {}
  page.drainTurns fuel drain.fleet none

/-- The turns of a drain that is driven on. -/
def resumeDrainTurns (fuel : Nat) (page : Page) (drain : Drain) : List Turn :=
  let (page, fleet) := page.wake drain.fleet
  page.drainTurns fuel fleet drain.ticket

theorem closed_drainRounds (fuel : Nat) (page : Page) (drain : Drain)
    (hopen : (page.drainRounds fuel drain).1.queue.closed = false) : page.queue.closed = false := by
  induction fuel generalizing page drain with
  | zero =>
      rw [drainRounds.eq_def] at hopen
      split at hopen
      · exact hopen
      · exact hopen
  | succ fuel ih =>
      rw [drainRounds.eq_def] at hopen
      split at hopen
      · exact hopen
      · have hround := feeds_playRound drain.fleet.flights.length 1 page drain.fleet
        dsimp only at hopen
        rw [round] at hopen
        generalize page.playRound drain.fleet.flights.length 1 drain.fleet = reached
          at hround hopen
        obtain ⟨middle, rest⟩ := reached
        cases rest with
        | finished fleet id result =>
            dsimp only at hopen
            have hstill := ih _ _ hopen
            exact hround.open_of_open hstill
        | idle fleet =>
            have hlistened : (middle.listenSignal drain.ticket).1.queue.closed =
                middle.queue.closed := rfl
            dsimp only at hopen
            generalize middle.listenSignal drain.ticket = listening at hlistened hopen
            obtain ⟨listening, ticket⟩ := listening
            refine hround.open_of_open (hlistened.symm.trans ?_)
            cases ticket with
            | some ticket => exact hopen
            | none =>
                dsimp only at hopen
                have hstill := ih _ _ hopen
                exact hstill

end Page

/-! ## What came and what was sent out -/

namespace Drain

variable {drain : Drain} {page before after : Page} {jobs : List Job} {turns : List Turn}
  {result : Except Error Unit}

/-- What is known of a drain after some turns. The jobs are those that came into the queue by then. -/
structure Sailed (drain : Drain) (page : Page) (jobs : List Job) (turns : List Turn)
    (works : List (Assignment × FlightId)) : Prop where
  fleet : drain.fleet.Sailed page.flights works turns
  sent : works.map Prod.fst ++ page.queue.jobs.map .job = jobs.map .job
  failure : drain.failure = turns.findSome? Turn.failure?

/-- How far a drain has come: it sleeps over works that are under way, or there are no works and no
jobs. -/
def Reaches (jobs : List Job) (turns : List Turn) : Page × Progress Drain → Prop
  | (page, .finished result) => ∃ drain works, Sailed drain page jobs turns works ∧
    drain.fleet.flights = [] ∧ page.queue.jobs = [] ∧ result = resultOf drain.failure
  | (page, .suspended _ drain) =>
    (∃ works, drain.Sailed page jobs turns works) ∧ drain.fleet.flights ≠ []

/-- Sending out the jobs of the queue. -/
theorem Sailed.launchJobs {works : List (Assignment × FlightId)}
    (h : drain.Sailed page jobs turns works) :
    (page.launchJobs drain).2.Sailed (page.launchJobs drain).1 jobs turns
      (works ++ (page.queue.jobs.map Assignment.job).zipIdx page.flights) where
  fleet := @Fleet.Sailed.launch _ _ { page with queue := { page.queue with jobs := [] } } _ h.fleet
    (page.queue.jobs.map .job)
  sent := by
    rw [List.map_append, List.zipIdx_map_fst]
    exact (List.append_nil _).trans h.sent
  failure := h.failure

/-- The rounds of a drain. -/
theorem Sailed.drainRounds (fuel : Nat) {works : List (Assignment × FlightId)}
    (h : drain.Sailed page jobs turns works)
    (hempty : drain.fleet.flights = [] → page.queue.jobs = [])
    (hopen : (page.drainRounds fuel drain).1.queue.closed = false) :
    Reaches (jobs ++ (page.drainTurns fuel drain.fleet drain.ticket).flatMap Turn.enqueued)
      (turns ++ page.drainTurns fuel drain.fleet drain.ticket) (page.drainRounds fuel drain) := by
  induction fuel generalizing page drain jobs turns works with
  | zero =>
      rw [Page.drainRounds.eq_def, Page.drainTurns.eq_def]
      split
      · next hnone =>
          rw [List.flatMap_nil, List.append_nil, List.append_nil]
          have hflights := List.isEmpty_iff.mp hnone
          refine ⟨drain, works, h, hflights, hempty hflights, ?_⟩
          cases drain.failure <;> rfl
      · next hsome =>
          dsimp only
          rw [List.flatMap_nil, List.append_nil, List.append_nil]
          exact ⟨⟨works, h⟩, fun hnone => hsome (List.isEmpty_iff.mpr hnone)⟩
  | succ fuel ih =>
      rw [Page.drainRounds.eq_def] at hopen ⊢
      rw [Page.drainTurns.eq_def]
      split
      · next hnone =>
          rw [List.flatMap_nil, List.append_nil, List.append_nil]
          have hflights := List.isEmpty_iff.mp hnone
          refine ⟨drain, works, h, hflights, hempty hflights, ?_⟩
          cases drain.failure <;> rfl
      · next hsome =>
          rw [if_neg hsome] at hopen
          obtain ⟨hsailed, hended⟩ :=
            @Fleet.Sailed.playRound _ _ _ page _ drain.fleet.flights.length 1 h.fleet
          have hfeeds := Page.feeds_playRound drain.fleet.flights.length 1 page drain.fleet
          have hqueued := Page.jobs_playRound drain.fleet.flights.length 1 page drain.fleet
          have hidle := @Page.flights_playRound_of_idle drain.fleet.flights.length 1 page drain.fleet
          have hfailed := findSome?_ended
            (page.roundTurns drain.fleet.flights.length 1 drain.fleet)
          dsimp only at hopen ⊢
          rw [Page.round] at hopen ⊢
          rw [hended] at hfailed
          generalize page.roundTurns drain.fleet.flights.length 1 drain.fleet = played
            at hsailed hqueued hfailed ⊢
          generalize page.playRound drain.fleet.flights.length 1 drain.fleet = reached
            at hsailed hfeeds hqueued hidle hfailed hopen ⊢
          obtain ⟨middle, rest⟩ := reached
          -- After the round there is what is left of the fleet, and what came is in the queue.
          have hafter : ∀ {left : Drain} {between : Page}, between.queue.jobs = middle.queue.jobs →
              between.flights = middle.flights → left.fleet = rest.fleet →
              left.failure = (turns ++ played).findSome? Turn.failure? →
              middle.queue.closed = false →
              left.Sailed between (jobs ++ played.flatMap Turn.enqueued) (turns ++ played) works := by
            intro left between hjobs hflights hleft hfailure hstill
            refine ⟨?_, ?_, hfailure⟩
            · rw [hleft, hflights]
              exact hsailed.le hfeeds.flights
            · rw [hjobs, hqueued hstill, List.map_append, List.map_append, ← h.sent,
                List.append_assoc]
          cases rest with
          | finished fleet id result =>
              dsimp only at hopen ⊢
              have hstill := Page.closed_drainRounds _ _ _ hopen
              change middle.queue.closed = false at hstill
              have hleft := fun failure hfailure => @hafter ⟨fleet, failure, none⟩
                (middle.leaveSignal drain.ticket) rfl rfl rfl hfailure hstill
              rw [List.flatMap_append, ← List.append_assoc, ← List.append_assoc]
              refine ih (hleft _ ?_).launchJobs (fun _ => rfl) hopen
              rw [List.findSome?_append, ← h.failure, ← hfailed]
              cases drain.failure <;> cases result <;> rfl
          | idle fleet =>
              have hfailure : drain.failure = (turns ++ played).findSome? Turn.failure? := by
                rw [List.findSome?_append, ← h.failure, ← hfailed]
                exact (Option.or_none).symm
              have hlistened : (middle.listenSignal drain.ticket).1.queue.jobs =
                    middle.queue.jobs ∧
                  (middle.listenSignal drain.ticket).1.queue.closed = middle.queue.closed ∧
                  (middle.listenSignal drain.ticket).1.flights = middle.flights := ⟨rfl, rfl, rfl⟩
              dsimp only at hopen ⊢
              generalize middle.listenSignal drain.ticket = listening at hlistened hopen ⊢
              obtain ⟨listening, ticket⟩ := listening
              obtain ⟨hjobs, hclosed, hflights⟩ := hlistened
              cases ticket with
              | some ticket =>
                  rw [List.append_nil]
                  refine ⟨⟨works, hafter hjobs hflights rfl hfailure (hclosed.symm.trans hopen)⟩,
                    fun hnone => hsome (List.isEmpty_iff.mpr (hidle rfl hnone))⟩
              | none =>
                  dsimp only at hopen ⊢
                  have hstill := Page.closed_drainRounds _ _ _ hopen
                  change listening.queue.closed = false at hstill
                  have hleft := @hafter { drain with fleet, ticket := none } listening hjobs hflights
                    rfl hfailure (hclosed.symm.trans hstill)
                  rw [List.flatMap_append, ← List.append_assoc, ← List.append_assoc]
                  exact ih hleft.launchJobs (fun _ => rfl) hopen

/-- A drain from its beginning on, however often it has to be driven on. In between others have their way
with the page and feed the queue. The jobs are all that came into the queue by then, in order, and the
turns are all that were played. -/
inductive Driven : List Job → List Turn → Page × Progress Drain → Prop
  | begin (fuel : Nat) (page : Page) :
    Driven (page.queue.jobs ++ (Page.beginDrainTurns fuel page).flatMap Turn.enqueued)
      (Page.beginDrainTurns fuel page) (Page.beginDrain fuel page)
  | resume {jobs : List Job} {turns : List Turn} {before : Page} {on : Suspension} {drain : Drain}
    (driven : Driven jobs turns (before, .suspended on drain)) {page : Page}
    (feeds : before.Feeds page) (fuel : Nat) :
    Driven
      (jobs ++ before.came page ++ (Page.resumeDrainTurns fuel page drain).flatMap Turn.enqueued)
      (turns ++ Page.resumeDrainTurns fuel page drain) (Page.resumeDrain fuel page drain)

theorem Driven.reaches {reached : Page × Progress Drain} (h : Driven jobs turns reached)
    (hopen : reached.1.queue.closed = false) : Reaches jobs turns reached := by
  induction h with
  | begin fuel page =>
      have hnew : ({} : Drain).Sailed page page.queue.jobs [] [] :=
        ⟨Fleet.sailed_empty page.flights, rfl, rfl⟩
      exact hnew.launchJobs.drainRounds fuel (fun _ => rfl) hopen
  | @resume jobs turns before on drain _ page feeds fuel ih =>
      have hstill := Page.closed_drainRounds fuel (page.wake drain.fleet).1
        { drain with fleet := (page.wake drain.fleet).2 } hopen
      obtain ⟨⟨works, hsailed⟩, hsome⟩ := ih (feeds.open_of_open hstill)
      have hwoken : Sailed { drain with fleet := (page.wake drain.fleet).2 }
          (page.wake drain.fleet).1 (jobs ++ before.came page) turns works := by
        obtain ⟨⟨hnumbered, hdistinct, hbounded, hplayed, hflying, hlanded⟩, hsent, hfailure⟩ := hsailed
        refine ⟨Fleet.Sailed.le ⟨⟨hnumbered.nodup, hnumbered.known⟩, hdistinct, hbounded, hplayed,
          hflying, hlanded⟩ feeds.flights, ?_, hfailure⟩
        change _ ++ page.queue.jobs.map Assignment.job = _
        rw [feeds.jobs_eq hstill, List.map_append, List.map_append, ← hsent, List.append_assoc]
      exact hwoken.drainRounds fuel (fun hnone => absurd hnone hsome) hopen

/-- When a drain is over and the queue was not closed, the queue is empty, and every job that came was
driven from its beginning to its end by turns of its own, which are all the turns there were. So none was
lost, none was driven twice, none is under way, and a failure stopped no other. The drain ends with the
first error that a job ended with, and well if there was none. -/
theorem drives_every_job_once (h : Driven jobs turns (after, .finished result))
    (hopen : after.queue.closed = false) :
    after.queue.jobs = [] ∧
    (∃ ids : List FlightId, ids.Nodup ∧
      List.Forall₂ (fun job id =>
        ∃ outcome, Life (.assigned (.job job)) (turnsOf id turns) (.done outcome)) jobs ids ∧
      ∀ turn ∈ turns, turn.id ∈ ids) ∧
    result = resultOf (turns.findSome? Turn.failure?) := by
  obtain ⟨drain, works, hsailed, hnone, hempty, hresult⟩ := h.reaches hopen
  have hsent := hsailed.sent
  rw [hempty, List.map_nil, List.append_nil] at hsent
  refine ⟨hempty, ⟨works.map Prod.snd, hsailed.fleet.distinct, ?_, hsailed.fleet.played⟩,
    hsailed.failure ▸ hresult⟩
  have hover : ∀ work ∈ works, ∃ outcome,
      Life (.assigned work.1) (turnsOf work.2 turns) (.done outcome) := by
    intro work hwork
    refine hsailed.fleet.landed work hwork ?_
    rw [hnone]
    exact List.not_mem_nil
  clear hempty hsailed h hresult
  induction works generalizing jobs with
  | nil =>
      obtain rfl := List.map_eq_nil_iff.mp hsent.symm
      exact .nil
  | cons work rest ih =>
      cases jobs with
      | nil => cases hsent
      | cons job others =>
          obtain ⟨hfirst, hothers⟩ := List.cons.inj hsent
          refine .cons ?_ (ih hothers fun other hother => hover other (List.mem_cons_of_mem _ hother))
          have hthis := hover work List.mem_cons_self
          rwa [hfirst] at hthis

/-- One job waits for a gate and fails, the other puts a third one into the queue. -/
def pressed (page : Page) : Page :=
  (page.enqueue (.host [.await "data", .fail (.provider "gone")])).enqueue
    (.host [.enqueue [.note []]])

/-- Meanwhile the gate is opened, and somebody puts a fourth job into the queue. -/
def answered (page : Page) : Page := (page.openGate "data").enqueue (.host [])

theorem feeds_answered (page : Page) : page.Feeds (answered page) := by
  have hopened : page.Feeds (page.openGate "data") := .of_queue rfl (Nat.le_refl _)
  exact hopened.trans (Page.feeds_enqueue _ _)

/-- Whether the drain waits for the gate and, when it is opened, ends with the error of the first of four
jobs. -/
def endsGated (page : Page) : Bool :=
  match Page.beginDrain 9 (pressed page) with
  | (before, .suspended _ drain) =>
    match Page.resumeDrain 9 (answered before) drain with
    | (after, .finished (.error (.provider message))) =>
      message == "gone" && !after.queue.closed &&
        ((pressed page).queue.jobs ++
          (Page.beginDrainTurns 9 (pressed page)).flatMap Turn.enqueued ++
            before.came (answered before) ++
              (Page.resumeDrainTurns 9 (answered before) drain).flatMap Turn.enqueued).length == 4
    | _ => false
  | _ => false

/-- All four jobs are driven once, and the error of the first one is what the drain ends with. -/
theorem gated_jobs_driven : ∃ page after jobs turns, Page.ofOptions {} = .ok page ∧
    Driven jobs turns (after, .finished (.error (.provider "gone"))) ∧
    after.queue.closed = false ∧ jobs.length = 4 ∧ after.queue.jobs = [] ∧
    (∃ ids : List FlightId, ids.Nodup ∧
      List.Forall₂ (fun job id =>
        ∃ outcome, Life (.assigned (.job job)) (turnsOf id turns) (.done outcome)) jobs ids ∧
      ∀ turn ∈ turns, turn.id ∈ ids) ∧
    .error (.provider "gone") = resultOf (turns.findSome? Turn.failure?) := by
  have hruns : ((Page.ofOptions {}).toOption.any endsGated) = true := by
    decide +kernel
  cases hpage : Page.ofOptions {} with
  | error error =>
      rw [hpage] at hruns
      cases hruns
  | ok page =>
      rw [hpage, Except.toOption, Option.any_some, endsGated] at hruns
      have hbegun := Driven.begin 9 (pressed page)
      split at hruns
      · next before on drain hbegin =>
          rw [hbegin] at hbegun
          have hdriven := hbegun.resume (feeds_answered before) 9
          split at hruns
          · next after message hresume =>
              rw [hresume] at hdriven
              simp only [Bool.and_eq_true, beq_iff_eq, Bool.not_eq_true'] at hruns
              obtain ⟨⟨rfl, hopen⟩, hlength⟩ := hruns
              exact ⟨page, after, _, _, rfl, hdriven, hopen, hlength,
                drives_every_job_once hdriven hopen⟩
          · cases hruns
      · cases hruns

end Drain

end ReactiveMarkup
