import ReactiveMarkup.Proofs.Page.Vigil

/-!
# Keeping watch over all that goes on

A drain, a service, a run and a mount keep the watch over a load command, since all that happens in them are
turns, and what lies between two turns changes no source and gives back no hold on the command. A drain has
jobs in hand that it has taken out of the queue and not begun; they are among those who wait to render the
command until they have their turn or are dropped.
-/

namespace ReactiveMarkup

/-- The jobs among the works of a fleet that have not begun. -/
def Fleet.jobs (fleet : Fleet) : List Job := fleet.states.filterMap FlightState.job?

/-- The jobs that a drain has not begun. -/
def Progress.jobs : Progress Drain → List Job
  | .finished _ => []
  | .suspended _ drain => drain.fleet.jobs

/-- The jobs of what is under way that have not begun. -/
def Stage.jobs : Stage → List Job
  | .finished _ => []
  | .waiting _ activity => activity.jobs

namespace Watch

open Page

variable {watch : Watch} {page before after : Page} {given : Option Fields} {jobs : List Job}
  {fleet : Fleet} {drain : Drain}

/-- A turn and what comes after it. -/
theorem foldl_told (turn : Turn) (rest : List Turn) (given : Option Fields) :
    (told (turn :: rest)).foldl watch.hears given =
      (told rest).foldl watch.hears ((told [turn]).foldl watch.hears given) := by
  rw [← List.foldl_append, ← told_append]
  rfl

theorem Upheld.perm {others : List Job} (h : watch.Upheld given page jobs) (hperm : jobs.Perm others) :
    watch.Upheld given page others := h.mono fun _ hin => hperm.mem_iff.mp hin

theorem jobs_perm {other : Fleet} {state : FlightState}
    (h : fleet.states.Perm (state :: other.states)) :
    fleet.jobs.Perm (state.job?.toList ++ other.jobs) := by
  have hjobs := h.filterMap FlightState.job?
  rw [List.filterMap_cons] at hjobs
  cases hjob : state.job? with
  | none =>
      rw [hjob] at hjobs
      exact hjobs
  | some job =>
      rw [hjob] at hjobs
      exact hjobs

/-! ## Drains -/

/-- A turn of one of the works of a fleet. -/
theorem Upheld.flight (h : watch.Upheld given page (fleet.jobs ++ jobs))
    (hnumbered : fleet.Numbered page.flights) {id : FlightId} {flight : Flight}
    (hfind : fleet.flights.find? (·.id == id) = some flight) (line : List FlightId) :
    watch.Upheld ((told [⟨id, flight.state, page⟩]).foldl watch.hears given)
        (page.advance flight.state).1 ((fleet.remove id line).jobs ++ jobs) ∧
      ∀ task, watch.Upheld ((told [⟨id, flight.state, page⟩]).foldl watch.hears given)
          (page.advance flight.state).1 ((fleet.keep id task line).jobs ++ jobs) ∧
        (fleet.keep id task line).Numbered (page.advance flight.state).1.flights := by
  obtain ⟨hperm, -, hkept⟩ := hnumbered.turn hfind line
  have hsplit := (jobs_perm hperm).append_right jobs
  rw [List.append_assoc] at hsplit
  have hturn := @Upheld.turn watch given _ ⟨id, flight.state, page⟩ (h.perm hsplit)
  have hflights := (feeds_advance page flight.state).flights
  refine ⟨hturn, fun task => ⟨hturn.perm ?_, (hkept task).2.le hflights⟩⟩
  exact (jobs_perm (hkept task).1).symm.append_right jobs

theorem Upheld.playRound (turns pauses : Nat) (h : watch.Upheld given page (fleet.jobs ++ jobs))
    (hnumbered : fleet.Numbered page.flights) :
    watch.Upheld ((told (page.roundTurns turns pauses fleet)).foldl watch.hears given)
      (page.playRound turns pauses fleet).1
      ((page.playRound turns pauses fleet).2.fleet.jobs ++ jobs) := by
  induction turns generalizing given pauses page fleet with
  | zero => exact h
  | succ turns ih =>
      rw [Page.playRound, roundTurns]
      cases fleet.line with
      | nil => exact h
      | cons id line =>
          dsimp only
          cases hfind : fleet.flights.find? (·.id == id) with
          | none => exact @ih page given { fleet with line } pauses h ⟨hnumbered.nodup, hnumbered.known⟩
          | some flight =>
              have hflight := h.flight hnumbered hfind
              dsimp only
              generalize page.advance flight.state = reached at hflight ⊢
              obtain ⟨after, progress⟩ := reached
              cases progress with
              | finished result => exact (hflight line).1
              | suspended on task =>
                  cases on with
                  | turn =>
                      obtain ⟨hturn, hleft⟩ := (hflight (line ++ [id])).2 task
                      cases pauses with
                      | zero => exact hturn
                      | succ pauses =>
                          rw [foldl_told]
                          exact ih pauses hturn hleft
                  | gate gate =>
                      obtain ⟨hturn, hleft⟩ := (hflight line).2 task
                      have hparked : Between after { after with gates := after.gates.park gate id } :=
                        ⟨rfl, rfl, rfl, rfl, rfl, Nat.le_refl _⟩
                      rw [foldl_told]
                      exact ih pauses (hturn.still hparked.still) hleft
                  | call =>
                      obtain ⟨hturn, hleft⟩ := (hflight line).2 task
                      rw [foldl_told]
                      exact ih pauses hturn hleft

/-- The jobs of the queue wait in the fleet when they are sent out. -/
theorem Upheld.launchJobs (h : watch.Upheld given page (drain.fleet.jobs ++ jobs))
    (hnumbered : drain.fleet.Numbered page.flights) :
    watch.Upheld given (page.launchJobs drain).1 ((page.launchJobs drain).2.fleet.jobs ++ jobs) := by
  obtain ⟨hlaunched, -, -⟩ := tends_launchJobs hnumbered
  obtain ⟨hstates, -⟩ := @Fleet.Numbered.launch drain.fleet
    { page with queue := { page.queue with jobs := [] } } hnumbered (page.queue.jobs.map .job)
  have hjobs : (page.launchJobs drain).2.fleet.jobs = drain.fleet.jobs ++ page.queue.jobs := by
    change List.filterMap _ _ = _
    change (page.launchJobs drain).2.fleet.states = _ at hstates
    rw [hstates, List.filterMap_append, List.map_map, List.filterMap_map]
    exact congrArg _ List.filterMap_some
  refine ⟨h.stands.lasts hlaunched.lasts (hlaunched.balanced h.stands.balanced),
    fun hsome => (h.registered hsome).lasts h.stands hlaunched.lasts,
    fun parameters hgiven hquiet => h.current parameters hgiven ?_⟩
  refine ⟨hquiet.opened, hquiet.held, hquiet.kept, hquiet.alive, hquiet.intact, fun cause hin => ?_⟩
  refine hquiet.calm cause (List.mem_append_right _ ?_)
  rw [hjobs, List.append_assoc]
  rcases List.mem_append.mp hin with hqueued | hwaiting
  · exact List.mem_append_right _ (List.mem_append_left _ hqueued)
  · rcases List.mem_append.mp hwaiting with hflying | hother
    · exact List.mem_append_left _ hflying
    · exact List.mem_append_right _ (List.mem_append_right _ hother)

theorem Upheld.drainRounds (fuel : Nat) (h : watch.Upheld given page (drain.fleet.jobs ++ jobs))
    (hnumbered : drain.fleet.Numbered page.flights) :
    watch.Upheld ((told (page.drainTurns fuel drain.fleet drain.ticket)).foldl watch.hears given)
      (page.drainRounds fuel drain).1 ((page.drainRounds fuel drain).2.jobs ++ jobs) := by
  induction fuel generalizing given page drain with
  | zero =>
      rw [Page.drainRounds.eq_def, drainTurns.eq_def]
      split
      · next hnone =>
          rw [Fleet.jobs, Fleet.states, List.isEmpty_iff.mp hnone] at h
          exact h
      · exact h
  | succ fuel ih =>
      rw [Page.drainRounds.eq_def, drainTurns.eq_def]
      split
      · next hnone =>
          rw [Fleet.jobs, Fleet.states, List.isEmpty_iff.mp hnone] at h
          exact h
      · have hround := h.playRound drain.fleet.flights.length 1 hnumbered
        obtain ⟨-, hstill⟩ := accounts_playRound drain.fleet.flights.length 1 hnumbered
        dsimp only
        rw [Page.round]
        generalize page.roundTurns drain.fleet.flights.length 1 drain.fleet = played at hround ⊢
        generalize page.playRound drain.fleet.flights.length 1 drain.fleet = reached
          at hround hstill ⊢
        obtain ⟨after, rest⟩ := reached
        rw [told_append, List.foldl_append]
        generalize (told played).foldl watch.hears given = heard at hround ⊢
        cases rest with
        | finished fleet id result =>
            have hleft := hround.still (still_leaveSignal after drain.ticket)
            have hlaunched := fun failure =>
              @Upheld.launchJobs watch (after.leaveSignal drain.ticket) heard jobs { fleet, failure }
                hleft hstill
            have hnumbered := fun failure =>
              (@tends_launchJobs (after.leaveSignal drain.ticket) { fleet, failure } hstill).2.2
            have hrest := fun failure => ih (hlaunched failure) (hnumbered failure)
            dsimp only
            cases drain.failure with
            | some error => exact hrest (some error)
            | none =>
                cases result with
                | error error => exact hrest (some error)
                | ok result => exact hrest none
        | idle fleet =>
            have hheard := hround.still (still_listenSignal after drain.ticket)
            have hbound : fleet.Numbered (after.listenSignal drain.ticket).1.flights := hstill
            dsimp only
            generalize after.listenSignal drain.ticket = listening at hheard hbound ⊢
            obtain ⟨listening, ticket⟩ := listening
            cases ticket with
            | some ticket => exact hheard
            | none =>
                have hlaunched := @Upheld.launchJobs watch listening heard jobs
                  { drain with fleet, ticket := none } hheard hbound
                exact ih hlaunched
                  (@tends_launchJobs listening { drain with fleet, ticket := none } hbound).2.2

theorem Upheld.beginDrain (fuel : Nat) (h : watch.Upheld given page jobs) :
    watch.Upheld ((told (beginDrainTurns fuel page)).foldl watch.hears given)
      (Page.beginDrain fuel page).1 ((Page.beginDrain fuel page).2.jobs ++ jobs) := by
  have hnone := Fleet.numbered_empty page.flights
  have hlaunched := @Upheld.launchJobs watch page given jobs {} h hnone
  exact hlaunched.drainRounds fuel (@tends_launchJobs page {} hnone).2.2

theorem Upheld.resumeDrain (fuel : Nat) (h : watch.Upheld given page (drain.fleet.jobs ++ jobs))
    (hnumbered : drain.fleet.Numbered page.flights) :
    watch.Upheld ((told (resumeDrainTurns fuel page drain)).foldl watch.hears given)
      (Page.resumeDrain fuel page drain).1 ((Page.resumeDrain fuel page drain).2.jobs ++ jobs) := by
  have hwoken : Between page (page.wake drain.fleet).1 := ⟨rfl, rfl, rfl, rfl, rfl, Nat.le_refl _⟩
  exact @Upheld.drainRounds watch _ given jobs { drain with fleet := (page.wake drain.fleet).2 } fuel
    (h.still hwoken.still) (tends_wake hnumbered).2.2

/-! ## Services -/

theorem Upheld.serveFrom (fuel : Nat) {progress : Progress Drain}
    (h : watch.Upheld given page (progress.jobs ++ jobs)) :
    watch.Upheld ((told (page.serveTurns fuel progress)).foldl watch.hears given)
      (Page.serveFrom fuel page progress).1 ((Page.serveFrom fuel page progress).2.jobs ++ jobs) := by
  induction fuel generalizing given page progress with
  | zero => cases progress <;> exact h
  | succ fuel ih =>
      cases progress with
      | suspended on drain => exact h
      | finished result =>
          have hheard := h.still (still_listenSignal page none)
          rw [Page.serveFrom, serveTurns]
          split
          · exact h
          · generalize page.listenSignal none = listening at hheard ⊢
            obtain ⟨listening, ticket⟩ := listening
            cases ticket with
            | some ticket => exact hheard
            | none =>
                dsimp only
                split
                · exact hheard
                · rw [told_append, List.foldl_append]
                  exact ih (Upheld.beginDrain fuel hheard)

theorem Upheld.startService (fuel : Nat) (h : watch.Upheld given page jobs) :
    watch.Upheld ((told (serviceTurns fuel page)).foldl watch.hears given)
      (Page.startService fuel page).1 ((Page.startService fuel page).2.jobs ++ jobs) := by
  rw [Page.startService, serviceTurns]
  split
  · exact h
  · dsimp only
    rw [told_append, List.foldl_append]
    exact (h.beginDrain fuel).serveFrom fuel

theorem Upheld.resumeService (fuel : Nat) {service : Service}
    (h : watch.Upheld given page ((Activity.serve service).jobs ++ jobs))
    (hnumbered : (Activity.serve service).Numbered page.flights) :
    watch.Upheld ((told (resumeServiceTurns fuel page service)).foldl watch.hears given)
      (page.resumeService fuel service).1 ((page.resumeService fuel service).2.jobs ++ jobs) := by
  cases service with
  | draining drain =>
      rw [Page.resumeService, resumeServiceTurns]
      dsimp only
      rw [told_append, List.foldl_append]
      exact (Upheld.resumeDrain fuel h hnumbered).serveFrom fuel
  | sleeping ticket =>
      have hheard := Upheld.still h (still_listenSignal page (some ticket))
      rw [Page.resumeService, resumeServiceTurns]
      generalize page.listenSignal (some ticket) = listening at hheard ⊢
      obtain ⟨listening, waiting⟩ := listening
      cases waiting with
      | some waiting => exact hheard
      | none => exact Upheld.startService fuel hheard

/-! ## Runs -/

theorem Upheld.runClasses (later : List Priority) (h : watch.Upheld given page jobs) (run : Run) :
    watch.Upheld ((told ((page.classChapters run.collection run.components later).flatMap
      Chapter.turns)).foldl watch.hears given) (Page.runClasses later page run).1 jobs := by
  induction later generalizing given page run with
  | nil => exact h.still (still_finishRun page run)
  | cons priority later ih =>
      rw [Page.runClasses, classChapters]
      split
      · exact h.still (still_finishRun page run)
      · have hphase := h.played (played_beginPhase page
          ((page.ofPriority priority run.components).map .render))
        dsimp only
        rw [List.flatMap_cons, told_append, List.foldl_append]
        change watch.Upheld (List.foldl _ (List.foldl _ _ (told (page.beginPhaseTurns _))) _) _ _
        generalize (told (page.beginPhaseTurns
          ((page.ofPriority priority run.components).map .render))).foldl watch.hears given = heard
          at hphase ⊢
        generalize page.beginPhase ((page.ofPriority priority run.components).map .render) = reached
          at hphase ⊢
        obtain ⟨after, phase, awake⟩ := reached
        dsimp only at hphase ⊢
        split
        · exact ih hphase { run with phase, later, failure := _ }
        · exact hphase

theorem Upheld.continueRun (h : watch.Upheld given page jobs) (run : Run) (awake : Bool) :
    watch.Upheld ((told ((page.continueChapters run).flatMap Chapter.turns)).foldl watch.hears given)
      (page.continueRun run awake).1 jobs := by
  rw [Page.continueRun, continueChapters]
  split
  · exact h.runClasses run.later { run with failure := run.failure.or run.phase.failure? }
  · exact h

/-- A collection takes a hold on the component only if there is one already. -/
theorem Upheld.beginRun (h : watch.Upheld given page jobs) {collection : CollectionId}
    (hheld : ∀ cell, page.collections.get? collection = some cell →
      watch.component ∈ cell.components → watch.component ∈ page.heldComponents) :
    watch.Upheld ((told (page.runTurns collection)).foldl watch.hears given)
      (page.beginRun collection).1 jobs := by
  cases hcell : page.collections.get? collection with
  | none =>
      rw [Page.beginRun, runTurns, hcell]
      exact h
  | some cell =>
      obtain ⟨scope, registry, components, state⟩ := cell
      cases state with
      | ready =>
          have hrunning := h.still (still_running hcell rfl components fun _ _ => hheld _ hcell)
          rw [beginRun_of_ready hcell rfl, runTurns, hcell]
          dsimp only
          have hphase := hrunning.played (played_beginPhase _ (components.map .prepare))
          rw [beginChapters]
          dsimp only
          rw [List.flatMap_cons, told_append, List.foldl_append]
          exact hphase.continueRun _ _
      | _ =>
          rw [Page.beginRun, runTurns, hcell]
          exact h

theorem Upheld.resumeRun (h : watch.Upheld given page jobs) (run : Run) :
    watch.Upheld ((told (page.resumeRunTurns run)).foldl watch.hears given)
      (page.resumeRun run).1 jobs := by
  have hphase := h.played (played_resumePhase page run.phase)
  rw [Page.resumeRun, resumeRunTurns]
  dsimp only
  rw [told_append, List.foldl_append]
  exact hphase.continueRun _ _

/-! ## Mounts -/

theorem still_closeMount (component : ComponentId) (page : Page) (collection : CollectionId)
    (roots : List NodeId) (size : Nat) (progress : Progress Run) :
    Still component page (page.closeMount collection roots size progress).1 := by
  cases progress with
  | suspended on run => exact .refl component page
  | finished result =>
      have hmounted : Still component page { page with mounts := page.mounts ++ [collection] } :=
        .of_tends (tends_aside ⟨rfl, rfl, rfl, Nat.le_refl _⟩) rfl rfl fun h => h
      exact hmounted.trans (.foldl still_releaseNode _ roots)

/-- A new collection is empty. -/
theorem components_createCollection {scope : ScopeId} {registry : RegistryId} {cell : Collection}
    (hcell : (page.createCollection scope registry).1.collections.get?
      (page.createCollection scope registry).2 = some cell) : cell.components = [] := by
  change (page.collections.push { scope, registry }).get? page.collections.size = some cell at hcell
  rw [Arena.get?_push, if_pos rfl] at hcell
  exact Option.some.inj hcell ▸ rfl

theorem Upheld.beginMount (h : watch.Upheld given page jobs)
    (hroot : page.scopes.isAlive rootScope = true) (roots : List NodeId) :
    watch.Upheld ((told (page.mountTurns roots)).foldl watch.hears given)
      (page.beginMount roots).1 jobs := by
  have hheld : Still watch.component page (roots.foldl holdNode page) :=
    .foldl still_holdNode page roots
  have halive : (roots.foldl holdNode page).scopes.isAlive rootScope = true := by
    rwa [(foldl_holdNode page roots).scopes]
  have hcreated := h.still (hheld.trans (still_createCollection halive rootRegistry))
  have hempty := @components_createCollection (roots.foldl holdNode page) rootScope rootRegistry
  rw [Page.beginMount, mountTurns]
  generalize (roots.foldl holdNode page).createCollection rootScope rootRegistry = created
    at hcreated hempty ⊢
  obtain ⟨created, collection⟩ := created
  obtain ⟨hstill, hmembers⟩ := still_extract created watch.component collection roots
  have hextracted := hcreated.still hstill
  dsimp only at hempty hextracted ⊢
  generalize created.extract collection roots = extracted at hextracted hmembers ⊢
  obtain ⟨after, error | size⟩ := extracted
  · exact hextracted.still ((still_releaseCollection _ _).trans (.foldl still_releaseNode _ roots))
  · -- The component was there before the fragment, so it is none of those that were found in it.
    have hother : ∀ cell, after.collections.get? collection = some cell →
        watch.component ∉ cell.components := by
      intro cell hcell hin
      obtain ⟨known, hknown, -⟩ := hcreated.stands.there
      obtain ⟨old, hold, hamong⟩ := hmembers cell hcell _ hin
        (Array.getElem?_eq_some_iff.mp hknown).1
      rw [hempty hold] at hamong
      cases hamong
    have hbegun := hextracted.beginRun fun cell hcell hin => absurd hin (hother cell hcell)
    dsimp only
    generalize after.beginRun collection = reached at hbegun ⊢
    obtain ⟨begun, progress⟩ := reached
    exact hbegun.still (still_closeMount _ begun collection roots size progress)

theorem Upheld.resumeMount (h : watch.Upheld given page jobs) (mount : Mount) :
    watch.Upheld ((told (page.resumeRunTurns mount.run)).foldl watch.hears given)
      (page.resumeMount mount).1 jobs := by
  have hresumed := h.resumeRun mount.run
  rw [Page.resumeMount]
  generalize page.resumeRun mount.run = reached at hresumed ⊢
  obtain ⟨after, progress⟩ := reached
  exact hresumed.still (still_closeMount _ after _ _ _ progress)

/-! ## What is dropped -/

theorem Upheld.foldl {α : Type} {step : Page → α → Page}
    (hstep : ∀ {page} item, watch.Upheld given page jobs → watch.Upheld given (step page item) jobs)
    (items : List α) (h : watch.Upheld given page jobs) :
    watch.Upheld given (items.foldl step page) jobs := by
  induction items generalizing page with
  | nil => exact h
  | cons item rest ih => exact ih (hstep item h)

/-- Jobs that are dropped are told of. -/
theorem Upheld.dropped {gone : List Job} (h : watch.Upheld given page (gone ++ jobs)) :
    watch.Upheld ((gone.map .dropped).foldl watch.hears given) page jobs := by
  induction gone generalizing given with
  | nil => exact h
  | cons job rest ih =>
      rw [List.map_cons, List.foldl_cons]
      refine ih ?_
      cases job with
      | host steps =>
          exact h.mono fun cause hin => (List.mem_cons.mp hin).resolve_left fun hsame => by cases hsame
      | render id cause =>
          rw [hears]
          split
          · exact h.stands.upheld
          · next hother =>
              refine h.mono fun other hin => (List.mem_cons.mp hin).resolve_left fun hsame => ?_
              exact hother (Job.render.inj hsame).1.symm

theorem Upheld.dropTask (h : watch.Upheld given page jobs) (task : Task) :
    watch.Upheld given (page.dropTask task) jobs := by
  have hreleased : ∀ receiver, watch.Upheld given (page.releaseReceiver receiver) jobs := by
    intro receiver
    cases receiver with
    | command id scope => exact h.still (still_releaseScope page scope)
    | inbox id keep => exact h
  rw [Page.dropTask]
  split
  · exact (hreleased _).endings (endings_releaseTask _ _ _)
  · exact h.endings (endings_releaseTask _ _ _)

theorem Upheld.dropFleet (h : watch.Upheld given page jobs) (fleet : Fleet) :
    watch.Upheld given (page.dropFleet fleet) jobs := by
  refine Upheld.foldl (fun flight h => ?_) fleet.flights h
  rw [dropFlight]
  split
  · exact h.still (still_releaseJob _ _)
  · exact h
  · exact h.dropTask _

theorem Upheld.dropDrain (h : watch.Upheld given page jobs) (drain : Drain) :
    watch.Upheld given (page.dropDrain drain) jobs :=
  (h.dropFleet drain.fleet).still (still_leaveSignal _ _)

theorem Upheld.dropRun (h : watch.Upheld given page jobs) (run : Run) :
    watch.Upheld given (page.dropRun run) jobs := by
  rw [Page.dropRun]
  refine Upheld.still ?_ (still_releaseRun _ _ _)
  cases run.phase with
  | many ids fleet results => exact h.dropFleet fleet
  | few slots =>
      refine Upheld.foldl (fun slot h => ?_) slots h
      cases slot with
      | finished result => exact h
      | waiting task => exact h.dropTask task

/-- What is dropped takes the jobs with it that had not begun. -/
theorem Upheld.drop (activity : Activity) (h : watch.Upheld given page (activity.jobs ++ jobs)) :
    watch.Upheld ((activity.jobs.map .dropped).foldl watch.hears given) (page.drop activity) jobs := by
  have hdropped := h.dropped
  cases activity with
  | wait promise => exact h
  | evaluate scope promise next => exact Upheld.still h (still_releaseScope page scope)
  | task task => exact Upheld.dropTask h task
  | load scope task => exact (Upheld.dropTask h task).still (still_releaseScope _ scope)
  | run run => exact Upheld.dropRun h run
  | mount mount =>
      exact (Upheld.dropRun h mount.run).still ((still_releaseCollection _ _).trans
        (.foldl still_releaseNode _ mount.roots))
  | drain drain => exact hdropped.dropDrain drain
  | serve service =>
      cases service with
      | draining drain => exact hdropped.dropDrain drain
      | sleeping ticket => exact Upheld.still h (still_leaveSignal page _)

/-! ## All activities -/

/-- An evaluation sets nothing. -/
theorem Upheld.evaluateQuery (h : watch.Upheld given page jobs) (scope : ScopeId) (wait : Bool)
    (query : Query Value) :
    watch.Upheld given (page.evaluateQuery scope wait query).1
      ((page.evaluateQuery scope wait query).2.jobs ++ jobs) := by
  induction query with
  | done value => exact h.still (still_releaseScope page scope)
  | lookup id mayWait next ih =>
      rw [Page.evaluateQuery]
      split
      · exact ih _
      · split
        · split
          · exact h.still (still_releaseScope page scope)
          · next scopes promise hwait =>
              have hstill := h.still (still_wait page scope id)
              rw [hwait] at hstill
              exact hstill
        · exact ih none

theorem Upheld.startWait (h : watch.Upheld given page jobs) (scope : ScopeId) (id : String) :
    watch.Upheld given (page.startWait scope id).1 ((page.startWait scope id).2.jobs ++ jobs) := by
  have hstill := h.still (still_wait page scope id)
  rw [Page.startWait]
  split
  · exact h
  · next scopes promise hwait =>
      rw [hwait] at hstill
      exact hstill

theorem Upheld.stageOfLoad {progress : Progress Task} (h : watch.Upheld given page jobs)
    (scope : ScopeId) :
    watch.Upheld given (stageOfLoad scope (page, progress)).1
      ((Page.stageOfLoad scope (page, progress)).2.jobs ++ jobs) := by
  cases progress with
  | finished result => exact h.still (still_releaseScope page scope)
  | suspended on task => exact h

theorem jobs_ofProgress {α : Type} {activity : α → Activity} (hnone : ∀ rest, (activity rest).jobs = [])
    (answer : Answer) (progress : Progress α) :
    (Stage.ofProgress answer activity progress).jobs = [] := by
  cases progress with
  | finished result => cases result <;> rfl
  | suspended on rest => exact hnone rest

theorem jobs_ofDrain (answer : Answer) (progress : Progress Drain) :
    (Stage.ofProgress answer .drain progress).jobs = progress.jobs := by
  cases progress with
  | finished result => cases result <;> rfl
  | suspended on rest => rfl

/-- Whatever is polled. -/
theorem Upheld.poll (fuel : Nat) {activity : Activity}
    (h : watch.Upheld given page (activity.jobs ++ jobs)) (hnumbered : activity.Numbered page.flights) :
    watch.Upheld ((page.pollTold (fuel + 1) activity).foldl watch.hears given)
      (page.poll (fuel + 1) activity).1 ((page.poll (fuel + 1) activity).2.jobs ++ jobs) := by
  cases activity with
  | wait promise =>
      rw [Page.poll]
      split <;> exact h
  | evaluate scope promise next =>
      rw [Page.poll]
      split
      · exact h
      · exact Upheld.evaluateQuery h scope true _
      · exact Upheld.still h (still_releaseScope page scope)
  | task task =>
      rw [Page.poll, stageOf, jobs_ofProgress fun _ => rfl]
      exact Upheld.advances h (advances_resume page task) fun hsame => by cases hsame
  | load scope task =>
      exact Upheld.stageOfLoad (Upheld.advances h (advances_resume page task)
        fun hsame => by cases hsame) scope
  | run run =>
      rw [Page.poll, stageOf, jobs_ofProgress fun _ => rfl]
      exact Upheld.resumeRun h run
  | mount mount =>
      rw [Page.poll]
      dsimp only
      rw [jobs_ofProgress fun _ => rfl]
      exact Upheld.resumeMount h mount
  | drain drain =>
      rw [Page.poll, stageOf, jobs_ofDrain]
      exact Upheld.resumeDrain (fuel + 1) h hnumbered
  | serve service => exact h.resumeService (fuel + 1) hnumbered

/-- Whatever a host begins. It has a hold on what it begins to work with. -/
theorem Upheld.opens {incidents : List Incident} {reached : Page × Stage}
    (h : watch.Upheld given page jobs) (hopens : page.Opens incidents reached)
    (hheld : watch.component ∈ page.heldComponents) :
    watch.Upheld (incidents.foldl watch.hears given) reached.1 (reached.2.jobs ++ jobs) := by
  cases hopens with
  | wait scope id => exact h.startWait scope id
  | evaluation alive wait token => exact (h.still (still_holdScope alive)).evaluateQuery _ wait token.ask
  | prepare id =>
      rw [startPrepare, stageOf, jobs_ofProgress fun _ => rfl]
      by_cases hid : id = watch.component
      · subst hid
        exact h.still h.stands.prepare
      · exact h.advances (advances_prepare page id) fun hsame => hid (Option.some.inj hsame)
  | render id cause =>
      rw [startRender, stageOf, jobs_ofProgress fun _ => rfl]
      exact h.called id cause false fun cause hin => .inr hin
  | load alive provider id inbox keep =>
      exact ((h.still (still_holdScope alive)).advances (advances_load _ provider id inbox keep)
        fun hsame => by cases hsame).stageOfLoad _
  | run collection =>
      rw [startRun, stageOf, jobs_ofProgress fun _ => rfl]
      exact h.beginRun fun _ _ _ => hheld
  | mount alive roots =>
      rw [startMount]
      dsimp only
      rw [jobs_ofProgress fun _ => rfl]
      exact h.beginMount alive roots
  | drain fuel =>
      rw [startDrain, stageOf, jobs_ofDrain]
      exact h.beginDrain fuel
  | service fuel => exact h.startService fuel

end Watch

end ReactiveMarkup
