import ReactiveMarkup.Proofs.Page.Calls

/-!
# What a call finds

Whatever happens in a world, it happens in turns, and a turn finds the page as the turns before it left it.
So what lasts on a page is still there whenever somebody is called to render: a disposed component is
disposed for every call, and a component keeps its scope and what it does.

`Finds` says this of some turns. It holds of the turns of everything that is driven on, since those of a
phase and of a round of a drain are played one after another, and what lies between two phases or two rounds
undoes nothing that lasts. Jobs need no number for this, unlike for the books of a page.
-/

namespace ReactiveMarkup

namespace Page

variable {page before middle after : Page} {turns more : List Turn}

/-- What the turns find came after a page. -/
def Finds (page : Page) (turns : List Turn) : Prop := ∀ turn ∈ turns, page.Lasts turn.page

theorem finds_nil (page : Page) : page.Finds [] := fun _ hturn => absurd hturn List.not_mem_nil

theorem Finds.append (h : page.Finds turns) (h' : page.Finds more) : page.Finds (turns ++ more) :=
  fun turn hturn => (List.mem_append.mp hturn).elim (h turn) (h' turn)

/-- What comes after a page came after the page before it. -/
theorem Lasts.finds (h : before.Lasts middle) (hfinds : middle.Finds turns) : before.Finds turns :=
  fun turn hturn => h.trans (hfinds turn hturn)

theorem Played.finds (h : Played before turns after) : before.Finds turns := fun _ => h.lasts_of_mem

theorem Finds.called (h : page.Finds turns) {call : Call} (hcall : .called call ∈ told turns) :
    page.Lasts call.page := by
  obtain ⟨other, hmem, hsame⟩ := List.mem_map.mp hcall
  obtain rfl := Incident.called.inj hsame
  obtain ⟨turn, hturn, hthis⟩ := List.mem_filterMap.mp hmem
  have hpage : other.page = turn.page := by
    rw [Turn.call?] at hthis
    split at hthis
    · exact Option.some.inj hthis ▸ rfl
    · exact Option.some.inj hthis ▸ rfl
    · cases hthis
  exact hpage ▸ h turn hturn

/-! ## Drains and services -/

theorem lasts_launchJobs (page : Page) (drain : Drain) : page.Lasts (page.launchJobs drain).1 := by
  have hsent : Aside page (page.launchJobs drain).1 := ⟨rfl, rfl, rfl, Nat.le_add_right _ _⟩
  exact (tends_aside hsent).lasts

theorem finds_drainTurns (fuel : Nat) (page : Page) (fleet : Fleet) (ticket : Option Ticket) :
    page.Finds (page.drainTurns fuel fleet ticket) := by
  induction fuel generalizing page fleet ticket with
  | zero =>
      rw [drainTurns.eq_def]
      split <;> exact finds_nil page
  | succ fuel ih =>
      rw [drainTurns.eq_def]
      split
      · exact finds_nil page
      · have hround := played_playRound fleet.flights.length 1 page fleet
        refine hround.finds.append ?_
        rw [round]
        generalize page.playRound fleet.flights.length 1 fleet = reached at hround ⊢
        obtain ⟨after, rest⟩ := reached
        cases rest with
        | finished fleet id result =>
            have hleft := hround.lasts.trans (tends_leaveSignal after ticket).lasts
            exact (hleft.trans (lasts_launchJobs _ { fleet })).finds (ih _ _ none)
        | idle fleet =>
            have hlistened := hround.lasts.trans (tends_listenSignal after ticket).lasts
            dsimp only
            generalize after.listenSignal ticket = listening at hlistened ⊢
            obtain ⟨listening, waiting⟩ := listening
            cases waiting with
            | some waiting => exact finds_nil page
            | none => exact (hlistened.trans (lasts_launchJobs _ { fleet })).finds (ih _ _ none)

theorem lasts_drainRounds (fuel : Nat) (page : Page) (drain : Drain) :
    page.Lasts (page.drainRounds fuel drain).1 := by
  induction fuel generalizing page drain with
  | zero =>
      rw [drainRounds.eq_def]
      split <;> exact .refl page
  | succ fuel ih =>
      rw [drainRounds.eq_def]
      split
      · exact .refl page
      · have hround := (played_playRound drain.fleet.flights.length 1 page drain.fleet).lasts
        rw [round]
        generalize page.playRound drain.fleet.flights.length 1 drain.fleet = reached at hround ⊢
        obtain ⟨after, rest⟩ := reached
        cases rest with
        | finished fleet id result =>
            have hleft := hround.trans (tends_leaveSignal after drain.ticket).lasts
            have hrest := fun failure =>
              (hleft.trans (lasts_launchJobs _ { fleet, failure })).trans
                (ih _ ((after.leaveSignal drain.ticket).launchJobs { fleet, failure }).2)
            exact hrest _
        | idle fleet =>
            have hlistened := hround.trans (tends_listenSignal after drain.ticket).lasts
            dsimp only
            generalize after.listenSignal drain.ticket = listening at hlistened ⊢
            obtain ⟨listening, waiting⟩ := listening
            cases waiting with
            | some waiting => exact hlistened
            | none =>
                exact (hlistened.trans (lasts_launchJobs _ { drain with fleet, ticket := none })).trans
                  (ih _ _)

theorem finds_beginDrainTurns (fuel : Nat) (page : Page) : page.Finds (beginDrainTurns fuel page) :=
  (lasts_launchJobs page {}).finds (finds_drainTurns fuel _ _ none)

theorem lasts_beginDrain (fuel : Nat) (page : Page) : page.Lasts (beginDrain fuel page).1 :=
  (lasts_launchJobs page {}).trans (lasts_drainRounds fuel _ _)

theorem lasts_wake (page : Page) (fleet : Fleet) : page.Lasts (page.wake fleet).1 := by
  have hwoken : Aside page (page.wake fleet).1 := ⟨rfl, rfl, rfl, Nat.le_refl _⟩
  exact (tends_aside hwoken).lasts

theorem finds_resumeDrainTurns (fuel : Nat) (page : Page) (drain : Drain) :
    page.Finds (resumeDrainTurns fuel page drain) :=
  (lasts_wake page drain.fleet).finds (finds_drainTurns fuel _ _ drain.ticket)

theorem finds_serveTurns (fuel : Nat) (page : Page) (progress : Progress Drain) :
    page.Finds (page.serveTurns fuel progress) := by
  induction fuel generalizing page progress with
  | zero => exact finds_nil page
  | succ fuel ih =>
      cases progress with
      | suspended on drain => exact finds_nil page
      | finished result =>
          have hlistened := (tends_listenSignal page none).lasts
          rw [serveTurns]
          split
          · exact finds_nil page
          · generalize page.listenSignal none = listening at hlistened ⊢
            obtain ⟨listening, waiting⟩ := listening
            cases waiting with
            | some waiting => exact finds_nil page
            | none =>
                dsimp only
                split
                · exact finds_nil page
                · have hdrained := (lasts_beginDrain fuel listening).finds (ih _ (beginDrain fuel listening).2)
                  exact hlistened.finds ((finds_beginDrainTurns fuel listening).append hdrained)

theorem finds_serviceTurns (fuel : Nat) (page : Page) : page.Finds (serviceTurns fuel page) := by
  rw [serviceTurns]
  split
  · exact finds_nil page
  · exact (finds_beginDrainTurns fuel page).append
      ((lasts_beginDrain fuel page).finds (finds_serveTurns fuel _ _))

theorem finds_resumeServiceTurns (fuel : Nat) (page : Page) (service : Service) :
    page.Finds (resumeServiceTurns fuel page service) := by
  cases service with
  | draining drain =>
      have hdrained := (lasts_wake page drain.fleet).trans
        (lasts_drainRounds fuel _ { drain with fleet := (page.wake drain.fleet).2 })
      exact (finds_resumeDrainTurns fuel page drain).append (hdrained.finds (finds_serveTurns fuel _ _))
  | sleeping ticket =>
      have hlistened := (tends_listenSignal page (some ticket)).lasts
      rw [resumeServiceTurns]
      generalize page.listenSignal (some ticket) = listening at hlistened ⊢
      obtain ⟨listening, waiting⟩ := listening
      cases waiting with
      | some waiting => exact finds_nil page
      | none => exact hlistened.finds (finds_serviceTurns fuel listening)

/-! ## Runs and mounts -/

theorem finds_classChapters (id : CollectionId) (components : List ComponentId) (later : List Priority)
    (page : Page) : page.Finds ((page.classChapters id components later).flatMap Chapter.turns) := by
  induction later generalizing page with
  | nil => exact finds_nil page
  | cons priority later ih =>
      rw [classChapters]
      split
      · exact finds_nil page
      · have hphase := played_beginPhase page ((page.ofPriority priority components).map .render)
        dsimp only
        rw [List.flatMap_cons]
        refine hphase.finds.append ?_
        generalize page.beginPhase ((page.ofPriority priority components).map .render) = reached
          at hphase ⊢
        obtain ⟨after, phase, awake⟩ := reached
        dsimp only at hphase ⊢
        split
        · exact hphase.lasts.finds (ih after)
        · exact finds_nil page

theorem finds_continueChapters (page : Page) (run : Run) :
    page.Finds ((page.continueChapters run).flatMap Chapter.turns) := by
  rw [continueChapters]
  split
  · exact finds_classChapters _ _ _ page
  · exact finds_nil page

theorem finds_runTurns (page : Page) (id : CollectionId) : page.Finds (page.runTurns id) := by
  rw [runTurns]
  split
  · next components hcell =>
      have hrunning := (tends_running hcell rfl components).lasts
      have hplayed := played_beginPhase (page.running id components) (components.map .prepare)
      rw [beginChapters]
      dsimp only
      rw [List.flatMap_cons]
      exact hrunning.finds (hplayed.finds.append (hplayed.lasts.finds (finds_continueChapters _ _)))
  · exact finds_nil page

theorem finds_resumeRunTurns (page : Page) (run : Run) : page.Finds (page.resumeRunTurns run) := by
  have hplayed := played_resumePhase page run.phase
  exact hplayed.finds.append (hplayed.lasts.finds (finds_continueChapters _ _))

theorem finds_mountTurns (halive : page.scopes.isAlive rootScope = true) (roots : List NodeId) :
    page.Finds (page.mountTurns roots) := by
  have hheld : Tends page (roots.foldl holdNode page) := .foldl tends_holdNode page roots
  have hthere : (roots.foldl holdNode page).scopes.isAlive rootScope = true := by
    rwa [(foldl_holdNode page roots).scopes]
  have hcreated := (hheld.trans (tends_createCollection hthere rootRegistry)).lasts
  rw [mountTurns]
  generalize (roots.foldl holdNode page).createCollection rootScope rootRegistry = created
    at hcreated ⊢
  obtain ⟨created, collection⟩ := created
  have hextracted := hcreated.trans (tends_extract created collection roots).lasts
  dsimp only at hextracted ⊢
  generalize created.extract collection roots = extracted at hextracted ⊢
  obtain ⟨after, error | size⟩ := extracted
  · exact finds_nil page
  · exact hextracted.finds (finds_runTurns after collection)

/-! ## Everything that happens -/

theorem Opens.finds {incidents : List Incident} {reached : Page × Stage}
    (h : page.Opens incidents reached) {call : Call} (hcall : .called call ∈ incidents) :
    page.Lasts call.page := by
  have hdriven : ∀ {turns}, page.Finds turns → .called call ∈ Incident.driven :: told turns →
      page.Lasts call.page := fun hfinds hcall =>
    hfinds.called ((List.mem_cons.mp hcall).resolve_left fun hsame => by cases hsame)
  cases h with
  | wait => cases hcall
  | evaluation => cases hcall
  | prepare => cases hcall
  | render component cause =>
      obtain rfl := Incident.called.inj (List.mem_singleton.mp hcall)
      exact .refl page
  | load => cases hcall
  | run collection => exact (finds_runTurns page collection).called hcall
  | mount alive roots => exact (finds_mountTurns alive roots).called hcall
  | drain fuel => exact hdriven (finds_beginDrainTurns fuel page) hcall
  | service fuel => exact hdriven (finds_serviceTurns fuel page) hcall

theorem finds_pollTold (fuel : Nat) (page : Page) (activity : Activity) {call : Call}
    (hcall : .called call ∈ page.pollTold fuel activity) : page.Lasts call.page := by
  have hdriven : ∀ {turns}, page.Finds turns → .called call ∈ Incident.driven :: told turns →
      page.Lasts call.page := fun hfinds hcall =>
    hfinds.called ((List.mem_cons.mp hcall).resolve_left fun hsame => by cases hsame)
  cases activity with
  | wait => cases hcall
  | evaluate => cases hcall
  | task => cases hcall
  | load => cases hcall
  | run run => exact (finds_resumeRunTurns page run).called hcall
  | mount mount => exact (finds_resumeRunTurns page mount.run).called hcall
  | drain rest => exact hdriven (finds_resumeDrainTurns fuel page rest) hcall
  | serve service => exact hdriven (finds_resumeServiceTurns fuel page service) hcall

end Page

namespace World

variable {world later : World} {incidents : List Incident} {may : World → Prop} {call : Call}

theorem Move.finds (h : Move world incidents later) (hcall : .called call ∈ incidents) :
    world.page.Lasts call.page := by
  cases h with
  | act => cases hcall
  | start live opens => exact opens.finds hcall
  | poll among fuel => exact Page.finds_pollTold _ _ _ hcall
  | drop among =>
      obtain ⟨job, -, hsame⟩ := List.mem_map.mp hcall
      cases hsame

/-- Whoever is called in the course of things finds what lasted from the beginning. -/
theorem Course.finds (h : Course may world incidents later) (hright : world.Right)
    (hcall : .called call ∈ incidents) : world.page.Lasts call.page := by
  induction h with
  | refl => cases hcall
  | tail course move _ ih =>
      rcases List.mem_append.mp hcall with hold | hnew
      · exact ih hold
      · exact (course.leads.lasts hright).2.trans (move.finds hnew)

end World

end ReactiveMarkup
