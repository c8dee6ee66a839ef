import ReactiveMarkup.Proofs.Page.Lifecycle
import ReactiveMarkup.Proofs.Page.Sleepers

/-!
# Closing a queue that is worked off

Whoever works the queue off until it is closed sleeps between two drains and has to be called when the queue
is closed. Closing calls once, and calls the one who sleeps longest: when that is a drain, the drain takes
the call, finds its jobs still waiting, and goes to sleep again, and nobody ever calls the service.

The system is a page with the drains and services that are under way. Jobs are put into the queue and the
queue is closed by whoever likes to, by a host or by a job. Everything else may happen to the page
meanwhile, as long as nobody but those who sleep touches the sleepers. Each sleeper has a place of its own,
so what one of them does leaves the places of the others alone; with that, a service that is sure of the next
call when the queue is still open is called when it is closed.
-/

namespace ReactiveMarkup

/-- What works the queue off. -/
inductive Activity.WorksOff : Activity → Prop
  | drain (rest : Drain) : WorksOff (.drain rest)
  | serve (service : Service) : WorksOff (.serve service)

namespace World

open Page Queue Relation

variable {world before after later : World} {ticket : Ticket}

/-- What may happen to the queue and to those who work it off. -/
inductive Attends : World → World → Prop
  /-- Others put jobs into the queue or close it. -/
  | others {page after : Page} (live : List Activity) (rings : Rings page.queue after.queue) :
    Attends ⟨page, live⟩ ⟨after, live⟩
  | drain (page : Page) (live : List Activity) (fuel : Nat) :
    Attends ⟨page, live⟩ ⟨(startDrain fuel page).1, (startDrain fuel page).2.activities ++ live⟩
  | serve (page : Page) (live : List Activity) (fuel : Nat) :
    Attends ⟨page, live⟩ ⟨(startService fuel page).1, (startService fuel page).2.activities ++ live⟩
  | poll {page : Page} {live others : List Activity} {activity : Activity}
    (among : live.Perm (activity :: others)) (worksOff : activity.WorksOff) (fuel : Nat) :
    Attends ⟨page, live⟩
      ⟨(page.poll (fuel + 1) activity).1, (page.poll (fuel + 1) activity).2.activities ++ others⟩
  | drop {page : Page} {live others : List Activity} {activity : Activity}
    (among : live.Perm (activity :: others)) (worksOff : activity.WorksOff) :
    Attends ⟨page, live⟩ ⟨page.drop activity, others⟩

/-- A service sleeps with a ticket. -/
def Sleeps (world : World) (ticket : Ticket) : Prop := .serve (.sleeping ticket) ∈ world.live

/-- As long as the queue is open no service sleeps behind somebody else, unless it was called. -/
def Ahead (world : World) : Prop :=
  world.page.queue.closed = false → ∀ ticket, world.Sleeps ticket → world.page.queue.Favours ticket

/-- The places among the sleepers. -/
def places (world : World) : List Ticket := world.live.filterMap Activity.ticket?

/-- Every sleeper has a place of its own, and all services that sleep are sure of the next call. -/
structure Sure (world : World) : Prop where
  distinct : world.places.Nodup
  known : ∀ ticket ∈ world.places, ticket < world.page.queue.signal.fresh
  favoured : ∀ ticket, world.Sleeps ticket → world.page.queue.Favours ticket

theorem places_activities (stage : Stage) (live : List Activity) :
    (stage.activities ++ live).filterMap Activity.ticket? =
      stage.ticket?.toList ++ live.filterMap Activity.ticket? := by
  cases stage with
  | finished result => rfl
  | waiting awake activity =>
      rw [Stage.activities, List.singleton_append, List.filterMap_cons, Stage.ticket?]
      cases activity.ticket? <;> rfl

/-- Somebody with a place does something, and something is left of it. -/
theorem Sure.change {page after : Page} {live others : List Activity} (h : Sure ⟨page, live⟩)
    (own : Option Ticket) (stage : Stage)
    (hplaces : (live.filterMap Activity.ticket?).Perm
      (own.toList ++ others.filterMap Activity.ticket?))
    (hothers : others ⊆ live) (hspares : Spares own page.queue after.queue stage.ticket?)
    (hsleeps : ∀ awake ticket, stage = .waiting awake (.serve (.sleeping ticket)) →
      after.queue.Favours ticket) :
    Sure ⟨after, stage.activities ++ others⟩ := by
  have hdistinct := hplaces.nodup_iff.mp h.distinct
  have hknown : ∀ ticket ∈ others.filterMap Activity.ticket?, ticket < page.queue.signal.fresh :=
    fun ticket hin => h.known ticket (hplaces.mem_iff.mpr (List.mem_append_right _ hin))
  -- A place that is new is behind all others, so nobody else has it.
  have happart : ∀ ticket, stage.ticket? = some ticket →
      ticket ∉ others.filterMap Activity.ticket? ∧ ticket < after.queue.signal.fresh := by
    intro ticket hkept
    rcases hspares.place ticket hkept with rfl | ⟨hnew, hlt⟩
    · refine ⟨(List.nodup_cons.mp hdistinct).1, Nat.lt_of_lt_of_le ?_ hspares.fresh⟩
      exact h.known ticket (hplaces.mem_iff.mpr List.mem_cons_self)
    · exact ⟨fun hin => absurd (hknown ticket hin) (Nat.not_lt.mpr hnew), hlt⟩
  have hrest : (others.filterMap Activity.ticket?).Nodup := (List.nodup_append.mp hdistinct).2.1
  constructor
  case distinct =>
    rw [places, places_activities]
    cases hkept : stage.ticket? with
    | none => exact hrest
    | some ticket => exact List.nodup_cons.mpr ⟨(happart ticket hkept).1, hrest⟩
  case known =>
    intro ticket hin
    rw [places, places_activities] at hin
    rcases List.mem_append.mp hin with hmine | hother
    · exact (happart ticket (Option.mem_toList.mp hmine)).2
    · exact Nat.lt_of_lt_of_le (hknown ticket hother) hspares.fresh
  case favoured =>
    intro ticket hsleeping
    rcases List.mem_append.mp hsleeping with hmine | hother
    · cases stage with
      | finished result => cases hmine
      | waiting awake activity =>
          exact hsleeps awake ticket (congrArg (Stage.waiting awake) (List.mem_singleton.mp hmine).symm)
    · have hplace : ticket ∈ others.filterMap Activity.ticket? := List.mem_filterMap.mpr ⟨_, hother, rfl⟩
      refine hspares.favours ticket (hknown ticket hplace) (fun hown => ?_)
        (h.favoured ticket (hothers hother))
      rw [hown] at hdistinct
      exact (List.nodup_cons.mp hdistinct).1 hplace

/-- A drain that is left is no service. -/
theorem stageOf_drain_ne {reached : Page × Progress Drain} {awake : Bool} :
    (stageOf .drain reached).2 ≠ .waiting awake (.serve (.sleeping ticket)) := by
  obtain ⟨after, progress⟩ := reached
  cases progress with
  | finished result => cases result <;> exact fun h => by cases h
  | suspended on rest => exact fun h => by cases h

theorem ticket?_stageOf_drain (reached : Page × Progress Drain) :
    (stageOf .drain reached).2.ticket? = reached.2.ticket? := by
  obtain ⟨after, progress⟩ := reached
  cases progress with
  | finished result => cases result <;> rfl
  | suspended on rest => rfl

theorem perm_places {live others : List Activity} {activity : Activity}
    (among : live.Perm (activity :: others)) :
    (live.filterMap Activity.ticket?).Perm
      (activity.ticket?.toList ++ others.filterMap Activity.ticket?) := by
  have hplaces := among.filterMap Activity.ticket?
  rw [List.filterMap_cons] at hplaces
  cases hticket : activity.ticket? with
  | none =>
      rw [hticket] at hplaces
      exact hplaces
  | some ticket =>
      rw [hticket] at hplaces
      exact hplaces

/-- Whatever happens, the services that sleep stay sure of the next call, unless one goes to sleep behind
somebody else. -/
theorem Sure.step (h : before.Sure) (hstep : Attends before after) (hahead : after.Ahead) : after.Sure := by
  -- While the queue is open there is nothing to show; a closed queue lets nobody go to sleep.
  have hkeep : ∀ {page : Page} {stage : Stage} {others : List Activity},
      (page.queue.closed = true → ∀ awake ticket, stage = .waiting awake (.serve (.sleeping ticket)) →
        page.queue.Favours ticket) → Ahead ⟨page, stage.activities ++ others⟩ →
      ∀ awake ticket, stage = .waiting awake (.serve (.sleeping ticket)) → page.queue.Favours ticket := by
    intro page stage others hclosed hahead awake ticket hsleeps
    cases hopen : page.queue.closed with
    | true => exact hclosed hopen awake ticket hsleeps
    | false => exact hahead hopen ticket (hsleeps ▸ List.mem_cons_self)
  cases hstep with
  | @others page after live rings =>
      refine ⟨h.distinct, fun ticket hin => ?_, fun ticket hsleeps => ?_⟩
      · exact Nat.lt_of_lt_of_eq (h.known ticket hin) rings.fresh.symm
      · exact rings.favours (h.favoured ticket hsleeps)
  | drain page live fuel =>
      refine h.change none _ (.refl _) (fun _ hin => hin) ?_
        fun awake ticket hsleeps => absurd hsleeps stageOf_drain_ne
      rw [startDrain, ticket?_stageOf_drain]
      exact spares_beginDrain fuel page
  | serve page live fuel =>
      refine h.change none _ (.refl _) (fun _ hin => hin) (spares_startService fuel page)
        (hkeep (fun hclosed awake ticket hsleeps => ?_) hahead)
      exact absurd (hclosed.symm.trans (open_of_startService fuel page hsleeps)) (by decide)
  | @poll page live others activity among worksOff fuel =>
      have hothers : others ⊆ live := fun _ hin => among.mem_iff.mpr (List.mem_cons_of_mem _ hin)
      cases worksOff with
      | drain rest =>
          refine h.change _ _ (perm_places among) hothers ?_
            fun awake ticket hsleeps => absurd hsleeps stageOf_drain_ne
          rw [poll, ticket?_stageOf_drain]
          exact spares_resumeDrain (fuel + 1) page rest
      | serve service =>
          refine h.change _ _ (perm_places among) hothers (spares_resumeService (fuel + 1) page service)
            (hkeep (fun hclosed awake ticket hsleeps => ?_) hahead)
          rcases sleeping_resumeService (fuel + 1) page service hsleeps with hopen | ⟨rfl, hkept⟩
          · exact absurd (hclosed.symm.trans hopen) (by decide)
          · change (page.resumeService (fuel + 1) (.sleeping ticket)).1.queue.Favours ticket
            rw [hkept]
            exact h.favoured ticket (among.mem_iff.mpr List.mem_cons_self)
  | @drop page live others activity among worksOff =>
      have hothers : others ⊆ live := fun _ hin => among.mem_iff.mpr (List.mem_cons_of_mem _ hin)
      have hgone : Spares activity.ticket? page.queue (page.drop activity).queue none := by
        cases worksOff with
        | drain rest => exact spares_dropDrain page rest
        | serve service =>
            cases service with
            | draining rest => exact spares_dropDrain page rest
            | sleeping ticket => exact spares_leave page.queue (some ticket)
      exact h.change _ (.finished (.ok .nothing)) (perm_places among) hothers hgone
        fun awake ticket hsleeps => by cases hsleeps

/-- One thing after another, and no service sleeps behind somebody else while the queue is open. -/
abbrev Unfolds : World → World → Prop :=
  ReflTransGen fun before after => Attends before after ∧ after.Ahead

theorem Unfolds.sure {page : Page} (h : Unfolds ⟨page, []⟩ later) : later.Sure := by
  induction h with
  | refl =>
      exact ⟨List.nodup_nil, fun _ hin => absurd hin List.not_mem_nil,
        fun _ hin => absurd hin List.not_mem_nil⟩
  | tail _ hlast ih => exact ih.step hlast.1 hlast.2

/-- When no service goes to sleep behind somebody else, every service that still sleeps when the queue is
closed was called, and ends when it is driven on. -/
theorem closed_services_called {page : Page} (hcourse : Unfolds ⟨page, []⟩ later)
    (hclosed : later.page.queue.closed = true) (hsleeps : later.Sleeps ticket) :
    ticket ∈ later.page.queue.signal.called ∧
      ∀ fuel, (later.page.poll fuel (.serve (.sleeping ticket))).2 = .finished (.ok .nothing) := by
  have hcalled := ((Unfolds.sure hcourse).favoured ticket hsleeps).called hclosed
  exact ⟨hcalled, fun fuel => resumeService_of_called hcalled hclosed⟩

/-! ## A service and a drain whose job waits -/

/-- A service that sleeps alone is called when the queue is closed. -/
theorem lone_service_called : ∃ (page : Page) (later : World), Page.ofOptions {} = .ok page ∧
    Unfolds ⟨page, []⟩ later ∧ later.page.queue.closed = true ∧ later.Sleeps 0 ∧
    0 ∈ later.page.queue.signal.called ∧
    (later.page.poll 1 (.serve (.sleeping 0))).2 = .finished (.ok .nothing) := by
  have hruns : (Page.ofOptions {}).toOption.isSome = true := by decide +kernel
  cases hpage : Page.ofOptions {} with
  | error error =>
      rw [hpage] at hruns
      cases hruns
  | ok page =>
      obtain ⟨after, hserved, hsignal, hopen⟩ : ∃ after,
          startService 1 page = (after, .waiting false (.serve (.sleeping 0))) ∧
            after.queue.signal.parked = [0] ∧ after.queue.closed = false := by
        obtain ⟨patterns, -, rfl⟩ := Page.ofOptions_ok hpage
        exact ⟨_, rfl, rfl, rfl⟩
      have hserves : Attends ⟨page, []⟩ ⟨after, [.serve (.sleeping 0)]⟩ := by
        have hstarts := Attends.serve page [] 1
        rwa [hserved] at hstarts
      have hcloses : Attends ⟨after, [.serve (.sleeping 0)]⟩ ⟨after.closeQueue, [.serve (.sleeping 0)]⟩ :=
        .others _ (rings_closeQueue after)
      have hclosed := closed_closeQueue after
      have hcourse : Unfolds ⟨page, []⟩ ⟨after.closeQueue, [.serve (.sleeping 0)]⟩ := by
        refine .tail (.single ⟨hserves, fun _ ticket hsleeps => ?_⟩) ⟨hcloses, fun hstill => ?_⟩
        · cases List.mem_singleton.mp hsleeps
          exact .inr ⟨hopen, congrArg List.head? hsignal⟩
        · cases hclosed.symm.trans hstill
      obtain ⟨hcalled, hends⟩ := closed_services_called hcourse hclosed List.mem_cons_self
      exact ⟨page, _, rfl, hcourse, hclosed, List.mem_cons_self, hcalled, hends 1⟩

/-- A drain has a job that waits for data. -/
def engaged (page : Page) : Page × Stage := startDrain 9 (page.enqueue (.host [.await "data"]))

/-- The service goes to sleep behind the drain, the queue is closed, the drain goes to sleep again, and then
the data arrives. -/
theorem course_behind {page before asleep missed after : Page} {rest still : Drain} {ticket : Ticket}
    {first second third : Bool} {result : Except Error Answer}
    (hengaged : engaged page = (before, .waiting first (.drain rest)))
    (hasleep : startService 9 before = (asleep, .waiting second (.serve (.sleeping ticket))))
    (hmissed : asleep.closeQueue.poll 9 (.drain rest) = (missed, .waiting third (.drain still)))
    (hafter : (missed.openGate "data").poll 9 (.drain still) = (after, .finished result)) :
    ReflTransGen Attends ⟨page, []⟩ ⟨after, [.serve (.sleeping ticket)]⟩ := by
  have henqueues : Attends ⟨page, []⟩ ⟨page.enqueue (.host [.await "data"]), []⟩ :=
    .others [] (rings_enqueue page _)
  have hdrains := Attends.drain (page.enqueue (.host [.await "data"])) [] 9
  rw [← engaged, hengaged] at hdrains
  have hserves := Attends.serve before [.drain rest] 9
  rw [hasleep] at hserves
  have hcloses : Attends ⟨asleep, [.serve (.sleeping ticket), .drain rest]⟩
      ⟨asleep.closeQueue, [.serve (.sleeping ticket), .drain rest]⟩ := .others _ (rings_closeQueue asleep)
  have hmisses : Attends ⟨asleep.closeQueue, [.serve (.sleeping ticket), .drain rest]⟩
      ⟨(asleep.closeQueue.poll 9 (.drain rest)).1,
        (asleep.closeQueue.poll 9 (.drain rest)).2.activities ++ [.serve (.sleeping ticket)]⟩ :=
    .poll (.swap _ _ _) (.drain rest) 8
  rw [hmissed] at hmisses
  have hopens : Attends ⟨missed, [.drain still, .serve (.sleeping ticket)]⟩
      ⟨missed.openGate "data", [.drain still, .serve (.sleeping ticket)]⟩ := .others _ .refl
  have hends : Attends ⟨missed.openGate "data", [.drain still, .serve (.sleeping ticket)]⟩
      ⟨((missed.openGate "data").poll 9 (.drain still)).1,
        ((missed.openGate "data").poll 9 (.drain still)).2.activities ++ [.serve (.sleeping ticket)]⟩ :=
    .poll (.refl _) (.drain still) 8
  rw [hafter] at hends
  exact ((((((ReflTransGen.single henqueues).tail hdrains).tail hserves).tail hcloses).tail
    hmisses).tail hopens).tail hends

/-- Whether a service that goes to sleep behind the drain is left alone when the queue is closed, and the
data arrives after the drain has gone to sleep again. -/
def strands (page : Page) : Bool :=
  match engaged page with
  | (before, .waiting _ (.drain rest)) =>
    match startService 9 before with
    | (asleep, .waiting _ (.serve (.sleeping ticket))) =>
      match asleep.closeQueue.poll 9 (.drain rest) with
      | (missed, .waiting _ (.drain still)) =>
        match (missed.openGate "data").poll 9 (.drain still) with
        | (after, .finished _) =>
          after.queue.closed && after.queue.jobs.isEmpty && after.queue.signal.parked == [ticket] &&
            after.queue.signal.called.isEmpty && !after.queue.signal.permit
        | _ => false
      | _ => false
    | _ => false
  | _ => false

/-- The drain takes the only call there is when the queue is closed, so the service sleeps on at a closed
queue: it was not called, nobody else sleeps, and no call is kept for it. -/
theorem service_left_asleep : ∃ (page : Page) (later : World) (ticket : Ticket),
    Page.ofOptions {} = .ok page ∧ ReflTransGen Attends ⟨page, []⟩ later ∧
    later.page.queue.closed = true ∧ later.live = [.serve (.sleeping ticket)] ∧
    later.page.queue.jobs = [] ∧ later.page.queue.signal.parked = [ticket] ∧
    later.page.queue.signal.called = [] ∧ later.page.queue.signal.permit = false := by
  have hruns : ((Page.ofOptions {}).toOption.any strands) = true := by decide +kernel
  cases hpage : Page.ofOptions {} with
  | error error =>
      rw [hpage] at hruns
      cases hruns
  | ok page =>
      rw [hpage, Except.toOption, Option.any_some] at hruns
      unfold strands at hruns
      split at hruns
      · next before _ rest hengaged =>
          split at hruns
          · next asleep _ ticket hasleep =>
              split at hruns
              · next missed _ still hmissed =>
                  split at hruns
                  · next after _ hafter =>
                      simp only [Bool.and_eq_true, List.isEmpty_iff, beq_iff_eq, Bool.not_eq_true'] at hruns
                      obtain ⟨⟨⟨⟨hclosed, hjobs⟩, hparked⟩, hcalled⟩, hpermit⟩ := hruns
                      exact ⟨page, _, ticket, rfl, course_behind hengaged hasleep hmissed hafter, hclosed,
                        rfl, hjobs, hparked, hcalled, hpermit⟩
                  · cases hruns
              · cases hruns
          · cases hruns
      · cases hruns

end World

end ReactiveMarkup
