import ReactiveMarkup.Page.Activity
import ReactiveMarkup.Proofs.Page.Flights
import ReactiveMarkup.Proofs.Page.Tasks

/-!
# What activities do to the books

Whatever is under way, the components it renders are those of the tasks in it: of one task, of the
slots of a phase, or of the works of a fleet, in any order. Everything that may stop in the middle
accounts for these, with what is left of it in the place of what there was. A fleet tells its works apart
by their numbers, so it is also said of everything with a fleet that these stay the works' own.
-/

namespace ReactiveMarkup

/-! ## What is rendered -/

/-- The component that a work renders. A work that has not begun renders none. -/
def FlightState.rendering : FlightState → List ComponentId
  | .assigned _ => []
  | .begun task => task.rendering

namespace Fleet

/-- The components that the works of a fleet render. -/
def rendering (fleet : Fleet) : List ComponentId := fleet.states.flatMap FlightState.rendering

end Fleet

/-- The fleet that is left after a round. -/
def Round.fleet : Round → Fleet
  | .finished fleet _ _ => fleet
  | .idle fleet => fleet

def Slot.rendering : Slot → List ComponentId
  | .finished _ => []
  | .waiting task => task.rendering

namespace Phase

/-- The components that the works of a phase render. -/
def rendering : Phase → List ComponentId
  | .few slots => slots.flatMap Slot.rendering
  | .many _ fleet _ => fleet.rendering

/-- Whether the works of a phase are known by their numbers, if they have any. -/
def Numbered (bound : FlightId) : Phase → Prop
  | .few _ => True
  | .many _ fleet _ => fleet.Numbered bound

theorem Numbered.le {phase : Phase} {bound more : FlightId} (h : phase.Numbered bound)
    (hle : bound ≤ more) : phase.Numbered more := by
  cases phase with
  | few slots => trivial
  | many ids fleet results => exact Fleet.Numbered.le h hle

end Phase

namespace Activity

/-- The components that an activity renders. -/
def rendering : Activity → List ComponentId
  | .task rest => rest.rendering
  | .load _ rest => rest.rendering
  | .run rest => rest.phase.rendering
  | .mount rest => rest.run.phase.rendering
  | .drain rest => rest.fleet.rendering
  | .serve (.draining rest) => rest.fleet.rendering
  | _ => []

def Numbered (bound : FlightId) : Activity → Prop
  | .run rest => rest.phase.Numbered bound
  | .mount rest => rest.run.phase.Numbered bound
  | .drain rest => rest.fleet.Numbered bound
  | .serve (.draining rest) => rest.fleet.Numbered bound
  | _ => True

theorem Numbered.le {activity : Activity} {bound more : FlightId} (h : activity.Numbered bound)
    (hle : bound ≤ more) : activity.Numbered more := by
  cases activity with
  | run rest => exact Phase.Numbered.le h hle
  | mount rest => exact Phase.Numbered.le h hle
  | drain rest => exact Fleet.Numbered.le h hle
  | serve service =>
      cases service with
      | draining rest => exact Fleet.Numbered.le h hle
      | sleeping ticket => trivial
  | _ => trivial

end Activity

namespace Stage

/-- The components that are still being rendered. -/
def rendering : Stage → List ComponentId
  | .finished _ => []
  | .waiting _ activity => activity.rendering

def Numbered (bound : FlightId) : Stage → Prop
  | .finished _ => True
  | .waiting _ activity => activity.Numbered bound

end Stage

namespace Page

variable {page before middle after : Page} {id : FlightId} {fleet : Fleet}
  {gone left : List ComponentId}

/-- Work that may go on as an activity: what is left of it renders what is left, and its works are known
by their numbers. -/
def GoesOn {α : Type} (activity : α → Activity) (before : Page) (gone : List ComponentId)
    (reached : Page × Progress α) : Prop :=
  Accounts before gone reached.1 (reached.2.rendering fun rest => (activity rest).rendering) ∧
    ∀ on rest, reached.2 = .suspended on rest → (activity rest).Numbered reached.1.flights

theorem GoesOn.then {α : Type} {activity : α → Activity} {reached : Page × Progress α}
    (h : Accounts before gone middle left) (h' : GoesOn activity middle left reached) :
    GoesOn activity before gone reached := ⟨h.trans h'.1, h'.2⟩

theorem GoesOn.finished {α : Type} {activity : α → Activity} {result : Except Error Unit}
    (h : Accounts before gone after []) : GoesOn activity before gone (after, .finished result) :=
  ⟨h, fun on rest hsame => by cases hsame⟩

theorem GoesOn.suspended {α : Type} {activity : α → Activity} {on : Suspension} {rest : α}
    (h : Accounts before gone after (activity rest).rendering)
    (hnumbered : (activity rest).Numbered after.flights) :
    GoesOn activity before gone (after, .suspended on rest) := by
  refine ⟨h, fun on rest hsame => ?_⟩
  obtain ⟨-, rfl⟩ := Progress.suspended.inj hsame
  exact hnumbered

/-! ## Fleets -/

theorem accounts_advance (page : Page) (state : FlightState) :
    Accounts page state.rendering (page.advance state).1
      ((page.advance state).2.rendering Task.rendering) := by
  cases state with
  | begun task => exact accounts_resume page task
  | assigned assignment =>
      cases assignment with
      | job job => exact accounts_beginJob page job
      | prepare component => exact accounts_prepare page component
      | render component => exact accounts_render page component none

/-- A turn of one of the works of a fleet. -/
theorem accounts_turn (h : fleet.Numbered page.flights) {flight : Flight}
    (hfind : fleet.flights.find? (·.id == id) = some flight) (line : List FlightId)
    {progress : Progress Task} (hadvance : page.advance flight.state = (after, progress)) :
    match progress with
    | .finished _ => Accounts page fleet.rendering after (fleet.remove id line).rendering ∧
        (fleet.remove id line).Numbered after.flights
    | .suspended _ task => Accounts page fleet.rendering after (fleet.keep id task line).rendering ∧
        (fleet.keep id task line).Numbered after.flights := by
  obtain ⟨hperm, hremoved, hkept⟩ := h.turn hfind line
  have haccounts := (accounts_advance page flight.state).frame (fleet.remove id line).rendering
  rw [hadvance] at haccounts
  have hflights := haccounts.lasts.flights
  have hgone : (flight.state.rendering ++ (fleet.remove id line).rendering).Perm fleet.rendering :=
    (hperm.flatMap_right FlightState.rendering).symm
  cases progress with
  | finished result => exact ⟨haccounts.perm hgone (.refl _), hremoved.le hflights⟩
  | suspended on task =>
      have hleft := (hkept task).1.flatMap_right FlightState.rendering
      exact ⟨haccounts.perm hgone hleft.symm, (hkept task).2.le hflights⟩

theorem accounts_playRound (turns pauses : Nat) (h : fleet.Numbered page.flights) :
    Accounts page fleet.rendering (page.playRound turns pauses fleet).1
        (page.playRound turns pauses fleet).2.fleet.rendering ∧
      (page.playRound turns pauses fleet).2.fleet.Numbered
        (page.playRound turns pauses fleet).1.flights := by
  induction turns generalizing pauses page fleet with
  | zero => exact ⟨.refl page _, h⟩
  | succ turns ih =>
      rw [playRound]
      split
      · exact ⟨.refl page _, h⟩
      · next id line _ =>
          split
          · exact @ih page { fleet with line } pauses ⟨h.nodup, h.known⟩
          · next flight hfind =>
              split
              · next hadvance => exact accounts_turn h hfind line hadvance
              · next task hadvance =>
                  obtain ⟨hturn, hnumbered⟩ := accounts_turn h hfind (line ++ [id]) hadvance
                  split
                  · exact ⟨hturn, hnumbered⟩
                  · next pauses =>
                      obtain ⟨hrest, hlast⟩ := ih pauses hnumbered
                      exact ⟨hturn.trans hrest, hlast⟩
              · next parking gate task hadvance =>
                  obtain ⟨hturn, hnumbered⟩ := accounts_turn h hfind line hadvance
                  have hparked : Tends parking { parking with gates := parking.gates.park gate id } :=
                    tends_aside ⟨rfl, rfl, rfl, Nat.le_refl _⟩
                  obtain ⟨hrest, hlast⟩ :=
                    @ih { parking with gates := parking.gates.park gate id } _ pauses hnumbered
                  exact ⟨(hturn.tends hparked).trans hrest, hlast⟩
              · next task hadvance =>
                  obtain ⟨hturn, hnumbered⟩ := accounts_turn h hfind line hadvance
                  obtain ⟨hrest, hlast⟩ := ih pauses hnumbered
                  exact ⟨hturn.trans hrest, hlast⟩

/-- Works that are sent out have not begun. -/
theorem tends_launch (h : fleet.Numbered page.flights) (assignments : List Assignment) :
    Tends page (page.launch fleet assignments).1 ∧
      (page.launch fleet assignments).2.rendering = fleet.rendering ∧
      (page.launch fleet assignments).2.Numbered (page.launch fleet assignments).1.flights := by
  obtain ⟨hstates, hnumbered⟩ := h.launch assignments
  have hnone : (assignments.map FlightState.assigned).flatMap FlightState.rendering = [] := by
    simp [List.flatMap_map, FlightState.rendering]
  refine ⟨tends_aside ⟨rfl, rfl, rfl, Nat.le_add_right _ _⟩, ?_, hnumbered⟩
  rw [Fleet.rendering, Fleet.rendering, hstates, List.flatMap_append, hnone, List.append_nil]

theorem tends_wake (h : fleet.Numbered page.flights) :
    Tends page (page.wake fleet).1 ∧ (page.wake fleet).2.rendering = fleet.rendering ∧
      (page.wake fleet).2.Numbered (page.wake fleet).1.flights :=
  ⟨tends_aside ⟨rfl, rfl, rfl, Nat.le_refl _⟩, rfl, h.nodup, h.known⟩

theorem accounts_dropFlight (page : Page) (flight : Flight) :
    Accounts page flight.state.rendering (page.dropFlight flight) [] := by
  obtain ⟨id, state⟩ := flight
  cases state with
  | begun task => exact accounts_dropTask page task
  | assigned assignment =>
      cases assignment with
      | job job => exact tends_releaseJob page job
      | prepare component => exact .refl page []
      | render component => exact .refl page []

/-- One thing after another is dropped. -/
theorem Accounts.foldl {α : Type} {step : Page → α → Page} {rendering : α → List ComponentId}
    (hstep : ∀ page item, Accounts page (rendering item) (step page item) []) (page : Page)
    (items : List α) : Accounts page (items.flatMap rendering) (items.foldl step page) [] := by
  induction items generalizing page with
  | nil => exact .refl page []
  | cons item rest ih =>
      rw [List.flatMap_cons]
      exact ((hstep page item).frame _).trans (ih _)

theorem accounts_dropFleet (page : Page) (fleet : Fleet) :
    Accounts page fleet.rendering (page.dropFleet fleet) [] := by
  rw [Fleet.rendering, Fleet.states, List.flatMap_map]
  exact .foldl accounts_dropFlight page fleet.flights

/-! ## Phases -/

theorem rendering_slotOf (progress : Progress Task) :
    (slotOf progress).1.rendering = progress.rendering Task.rendering := by cases progress <;> rfl

theorem accounts_beginSlots (page : Page) (assignments : List Assignment) :
    Accounts page [] (page.beginSlots assignments).1
      ((page.beginSlots assignments).2.1.flatMap Slot.rendering) := by
  induction assignments generalizing page with
  | nil => exact .refl page []
  | cons assignment rest ih =>
      have hfirst : Accounts page [] _ _ := accounts_advance page (.assigned assignment)
      have hrest := ih (page.beginAssignment assignment).1
      rw [beginSlots]
      dsimp only
      rw [List.flatMap_cons, rendering_slotOf]
      exact hfirst.trans ((hrest.frame _).perm (.refl _) List.perm_append_comm)

theorem accounts_resumeSlots (page : Page) (slots : List Slot) :
    Accounts page (slots.flatMap Slot.rendering) (page.resumeSlots slots).1
      ((page.resumeSlots slots).2.1.flatMap Slot.rendering) := by
  induction slots generalizing page with
  | nil => exact .refl page []
  | cons slot rest ih =>
      cases slot with
      | finished result => exact ih page
      | waiting task =>
          have hfirst := (accounts_resume page task).frame (rest.flatMap Slot.rendering)
          have hrest := (ih (page.resume task).1).frame
            ((page.resume task).2.rendering Task.rendering)
          rw [resumeSlots]
          dsimp only
          rw [List.flatMap_cons, List.flatMap_cons, rendering_slotOf]
          exact hfirst.trans (hrest.perm List.perm_append_comm List.perm_append_comm)

theorem accounts_playFleet (fuel : Nat) (h : fleet.Numbered page.flights)
    (results : List (FlightId × Except Error Unit)) :
    Accounts page fleet.rendering (page.playFleet fuel fleet results).1
        (page.playFleet fuel fleet results).2.1.rendering ∧
      (page.playFleet fuel fleet results).2.1.Numbered
        (page.playFleet fuel fleet results).1.flights := by
  induction fuel generalizing page fleet results with
  | zero => exact ⟨.refl page _, h⟩
  | succ fuel ih =>
      have hround := accounts_playRound fleet.flights.length 1 h
      rw [playFleet, round]
      generalize page.playRound fleet.flights.length 1 fleet = reached at hround ⊢
      obtain ⟨after, rest⟩ := reached
      cases rest with
      | finished last id result =>
          obtain ⟨hrest, hlast⟩ := ih hround.2 (results ++ [(id, result)])
          exact ⟨hround.1.trans hrest, hlast⟩
      | idle last => exact hround

/-- A phase that begins renders nothing yet; what begins of its works does. -/
theorem accounts_beginPhase (page : Page) (assignments : List Assignment) :
    Accounts page [] (page.beginPhase assignments).1 (page.beginPhase assignments).2.1.rendering ∧
      (page.beginPhase assignments).2.1.Numbered (page.beginPhase assignments).1.flights := by
  rw [beginPhase]
  split
  · exact ⟨accounts_beginSlots page assignments, trivial⟩
  · obtain ⟨hlaunched, hnone, hnumbered⟩ :=
      tends_launch (Fleet.numbered_empty page.flights) assignments
    obtain ⟨hplayed, hlast⟩ := accounts_playFleet
      ((page.launch {} assignments).2.flights.length + 1) hnumbered []
    rw [hnone] at hplayed
    exact ⟨hlaunched.then hplayed, hlast⟩

theorem accounts_resumePhase {phase : Phase} (h : phase.Numbered page.flights) :
    Accounts page phase.rendering (page.resumePhase phase).1
        (page.resumePhase phase).2.1.rendering ∧
      (page.resumePhase phase).2.1.Numbered (page.resumePhase phase).1.flights := by
  cases phase with
  | few slots => exact ⟨accounts_resumeSlots page slots, trivial⟩
  | many ids fleet results =>
      obtain ⟨hwoken, hsame, hnumbered⟩ := tends_wake h
      obtain ⟨hplayed, hlast⟩ := accounts_playFleet
        ((page.wake fleet).2.flights.length + 1) hnumbered results
      rw [hsame] at hplayed
      exact ⟨hwoken.then hplayed, hlast⟩

theorem accounts_dropPhase (page : Page) (phase : Phase) :
    Accounts page phase.rendering (page.dropPhase phase) [] := by
  cases phase with
  | few slots =>
      refine .foldl (fun page slot => ?_) page slots
      cases slot with
      | finished result => exact .refl page []
      | waiting task => exact accounts_dropTask page task
  | many ids fleet results => exact accounts_dropFleet page fleet

/-! ## Collections and runs -/

theorem lasts_changeCollection (page : Page) (collection : CollectionId)
    {f : Collection → Collection}
    (hbecomes : ∀ cell, page.collections.get? collection = some cell → cell.Becomes (f cell)) :
    Lasts page (page.changeCollection collection f) where
  flights := Nat.le_refl _
  cells id cell hcell := ⟨cell, hcell, .refl cell⟩
  collections other cell hcell := by
    rw [changeCollection, Arena.get?_modify]
    split
    · next hsame =>
        obtain rfl := hsame
        exact ⟨f cell, congrArg (Option.map f) hcell, hbecomes cell hcell⟩
    · exact ⟨cell, hcell, .refl cell⟩

/-- The components of a collection are known, and it has each of them once. -/
theorem Tallied.changeCollection {busy : List ComponentId} (h : page.Tallied busy)
    (collection : CollectionId) {f : Collection → Collection}
    (hscope : ∀ cell, page.collections.get? collection = some cell → (f cell).scope = cell.scope)
    (hgathered : ∀ cell, page.collections.get? collection = some cell →
      (f cell).components.Nodup ∧ ∀ id ∈ (f cell).components, id < page.components.size) :
    (page.changeCollection collection f).Tallied busy :=
  { h with
    placed := fun other cell hcell => by
      rw [Page.changeCollection, Arena.get?_modify] at hcell
      split at hcell
      · next hsame =>
          obtain rfl := hsame
          obtain ⟨before, hbefore, rfl⟩ := Option.map_eq_some_iff.mp hcell
          rw [hscope before hbefore]
          exact h.placed collection before hbefore
      · exact h.placed other cell hcell
    gathered := fun other cell hcell => by
      rw [Page.changeCollection, Arena.get?_modify] at hcell
      split at hcell
      · next hsame =>
          obtain rfl := hsame
          obtain ⟨before, hbefore, rfl⟩ := Option.map_eq_some_iff.mp hcell
          exact hgathered before hbefore
      · exact h.gathered other cell hcell }

/-- A collection goes on in its scope, with its components or without. -/
theorem tends_changeCollection (page : Page) (collection : CollectionId)
    {f : Collection → Collection}
    (hbecomes : ∀ cell, page.collections.get? collection = some cell → cell.Becomes (f cell))
    (hcomponents : ∀ cell, (f cell).components = cell.components ∨ (f cell).components = []) :
    Tends page (page.changeCollection collection f) where
  lasts := lasts_changeCollection page collection hbecomes
  tallied others h := by
    refine h.changeCollection collection (fun cell hcell => (hbecomes cell hcell).scope)
      fun cell hcell => ?_
    rcases hcomponents cell with hsame | hnone
    · exact hsame ▸ h.gathered collection cell hcell
    · rw [hnone]
      exact ⟨List.nodup_nil, fun _ hin => absurd hin List.not_mem_nil⟩

theorem tends_holdNode (page : Page) (node : NodeId) : Tends page (page.holdNode node) :=
  tends_aside ⟨rfl, rfl, rfl, Nat.le_refl _⟩

theorem tends_releaseNode (page : Page) (node : NodeId) : Tends page (page.releaseNode node) :=
  tends_aside ⟨rfl, rfl, rfl, Nat.le_refl _⟩

theorem tends_holdCollection (page : Page) (collection : CollectionId) :
    Tends page (page.holdCollection collection) := tends_aside ⟨rfl, rfl, rfl, Nat.le_refl _⟩

theorem tends_releaseCollection (page : Page) (collection : CollectionId) :
    Tends page (page.releaseCollection collection) := by
  have hreleased : Tends page
      { page with heldCollections := page.heldCollections.erase collection } :=
    tends_aside ⟨rfl, rfl, rfl, Nat.le_refl _⟩
  rw [releaseCollection]
  dsimp only
  split
  · exact hreleased
  · split
    · exact (hreleased.trans (.foldl tends_releaseComponent _ _)).trans (tends_releaseScope _ _)
    · exact hreleased

theorem tends_disposeCollection (page : Page) (collection : CollectionId) :
    Tends page (page.disposeCollection collection) := by
  rw [disposeCollection]
  split
  · exact .refl page
  · exact .refl page
  · have hmarked : Tends page (page.changeCollection collection fun cell =>
        { cell with state := .disposed, components := [] }) :=
      tends_changeCollection page collection (fun _ _ => ⟨rfl, nofun, fun _ => rfl⟩)
        fun _ => .inr rfl
    exact (hmarked.trans (.foldl tends_disposeComponent _ _)).trans
      (.foldl tends_releaseComponent _ _)

theorem tends_releaseRun (page : Page) (collection : CollectionId) (components : List ComponentId) :
    Tends page (page.releaseRun collection components) :=
  (Tends.foldl tends_releaseComponent page components).trans (tends_releaseCollection _ collection)

theorem tends_finishRun (page : Page) (run : Run) : Tends page (page.finishRun run).1 := by
  refine (tends_changeCollection page run.collection (fun cell _ => ?_) fun cell => ?_).trans
    (tends_releaseRun _ _ _)
  · split
    · next hrunning => exact ⟨rfl, nofun, fun hdisposed => by cases hrunning.symm.trans hdisposed⟩
    · exact .refl cell
  · split <;> exact .inl rfl

theorem rendering_of_isSettled {phase : Phase} (h : phase.isSettled = true) :
    phase.rendering = [] := by
  cases phase with
  | few slots =>
      refine List.flatMap_eq_nil_iff.mpr fun slot hslot => ?_
      have hfinished := List.all_eq_true.mp h slot hslot
      cases slot with
      | finished result => rfl
      | waiting task => cases hfinished
  | many ids fleet results =>
      have hnone : fleet.flights = [] := List.isEmpty_iff.mp h
      rw [Phase.rendering, Fleet.rendering, Fleet.states, hnone]
      rfl

theorem goesOn_runClasses (later : List Priority) (page : Page) (run : Run) :
    GoesOn .run page [] (runClasses later page run) := by
  induction later generalizing page run with
  | nil => exact .finished (tends_finishRun page run)
  | cons priority later ih =>
      rw [runClasses]
      split
      · exact .finished (tends_finishRun page run)
      · have hphase := accounts_beginPhase page
          ((page.ofPriority priority run.components).map .render)
        generalize page.beginPhase ((page.ofPriority priority run.components).map .render) = reached
          at hphase ⊢
        obtain ⟨after, phase, awake⟩ := reached
        dsimp only at hphase ⊢
        split
        · next hsettled =>
            obtain ⟨hbegun, -⟩ := hphase
            rw [rendering_of_isSettled hsettled] at hbegun
            obtain ⟨hrest, hnumbered⟩ := ih after _
            exact ⟨hbegun.trans hrest, hnumbered⟩
        · exact .suspended hphase.1 hphase.2

theorem goesOn_continueRun {run : Run} (h : run.phase.Numbered page.flights) (awake : Bool) :
    GoesOn .run page run.phase.rendering (page.continueRun run awake) := by
  rw [continueRun]
  split
  · next hsettled =>
      rw [rendering_of_isSettled hsettled]
      exact goesOn_runClasses run.later page _
  · exact .suspended (.refl page _) h

/-- A page on which a collection has begun to run, but none of its components is prepared yet. -/
def running (page : Page) (id : CollectionId) (components : List ComponentId) : Page :=
  components.foldl holdComponent
    ((page.changeCollection id fun cell => { cell with state := .running }).holdCollection id)

theorem tends_running {collection : CollectionId} {cell : Collection}
    (hcell : page.collections.get? collection = some cell) (hready : cell.state = .ready)
    (components : List ComponentId) : Tends page (page.running collection components) := by
  have hrunning : Tends page (page.changeCollection collection fun cell =>
      { cell with state := .running }) := by
    refine tends_changeCollection page collection (fun other hother => ?_) fun _ => .inl rfl
    obtain rfl := Option.some.inj (hcell.symm.trans hother)
    exact ⟨rfl, nofun, fun hdisposed => by cases hready.symm.trans hdisposed⟩
  exact (hrunning.trans (tends_holdCollection _ collection)).trans
    (.foldl tends_holdComponent _ components)

theorem goesOn_beginRun (page : Page) (collection : CollectionId) :
    GoesOn .run page [] (page.beginRun collection) := by
  rw [beginRun]
  split
  · exact .finished (.refl page [])
  · split
    · exact .finished (.refl page [])
    · exact .finished (.refl page [])
    · exact .finished (.refl page [])
    · next cell hcell _ hready =>
        have hheld := tends_running hcell hready cell.components
        obtain ⟨hphase, hnumbered⟩ := accounts_beginPhase (page.running collection cell.components)
          (cell.components.map .prepare)
        exact .then (hheld.then hphase) (@goesOn_continueRun _
          { collection, components := cell.components, phase := _, later := Priority.runOrder }
          hnumbered _)

theorem goesOn_resumeRun {run : Run} (h : run.phase.Numbered page.flights) :
    GoesOn .run page run.phase.rendering (page.resumeRun run) := by
  obtain ⟨hphase, hnumbered⟩ := accounts_resumePhase h
  exact .then hphase (@goesOn_continueRun _ { run with phase := _ } hnumbered _)

theorem accounts_dropRun (page : Page) (run : Run) :
    Accounts page run.phase.rendering (page.dropRun run) [] :=
  (accounts_dropPhase page run.phase).tends (tends_releaseRun _ _ _)

/-! ## Mounts -/

theorem goesOn_closeMount {progress : Progress Run} (h : GoesOn .run before gone (page, progress))
    (collection : CollectionId) (roots : List NodeId) (size : Nat) :
    GoesOn .mount before gone (page.closeMount collection roots size progress) := by
  obtain ⟨haccounts, hnumbered⟩ := h
  cases progress with
  | suspended on run =>
      exact .suspended haccounts (hnumbered on run rfl)
  | finished result =>
      have hmounted : Tends page { page with mounts := page.mounts ++ [collection] } :=
        tends_aside ⟨rfl, rfl, rfl, Nat.le_refl _⟩
      exact .finished (haccounts.tends (hmounted.trans (.foldl tends_releaseNode _ roots)))

theorem goesOn_resumeMount {mount : Mount} (h : mount.run.phase.Numbered page.flights) :
    GoesOn .mount page mount.run.phase.rendering (page.resumeMount mount) :=
  goesOn_closeMount (goesOn_resumeRun h) _ _ _

theorem accounts_dropMount (page : Page) (mount : Mount) :
    Accounts page mount.run.phase.rendering (page.dropMount mount) [] :=
  ((accounts_dropRun page mount.run).tends (tends_releaseCollection _ _)).tends
    (.foldl tends_releaseNode _ _)

/-! ## Drains -/

theorem tends_leaveSignal (page : Page) (ticket : Option Ticket) :
    Tends page (page.leaveSignal ticket) := tends_aside ⟨rfl, rfl, rfl, Nat.le_refl _⟩

theorem tends_listenSignal (page : Page) (ticket : Option Ticket) :
    Tends page (page.listenSignal ticket).1 := tends_aside ⟨rfl, rfl, rfl, Nat.le_refl _⟩

theorem tends_launchJobs {drain : Drain} (h : drain.fleet.Numbered page.flights) :
    Tends page (page.launchJobs drain).1 ∧
      (page.launchJobs drain).2.fleet.rendering = drain.fleet.rendering ∧
      (page.launchJobs drain).2.fleet.Numbered (page.launchJobs drain).1.flights := by
  have htaken : Tends page { page with queue := { page.queue with jobs := [] } } :=
    tends_aside ⟨rfl, rfl, rfl, Nat.le_refl _⟩
  obtain ⟨hlaunched, hsame, hnumbered⟩ := @tends_launch
    { page with queue := { page.queue with jobs := [] } } _ h (page.queue.jobs.map .job)
  exact ⟨htaken.trans hlaunched, hsame, hnumbered⟩

/-- Sending the jobs of the queue out and going on. -/
theorem goesOn_launchJobs {rounds : Page → Drain → Page × Progress Drain}
    (hrounds : ∀ {page drain}, drain.fleet.Numbered page.flights →
      GoesOn .drain page drain.fleet.rendering (rounds page drain))
    {drain : Drain} (h : drain.fleet.Numbered page.flights) :
    GoesOn .drain page drain.fleet.rendering
      (rounds (page.launchJobs drain).1 (page.launchJobs drain).2) := by
  obtain ⟨hlaunched, hsame, hnumbered⟩ := tends_launchJobs h
  rw [← hsame]
  exact .then (hlaunched.accounts _) (hrounds hnumbered)

/-- A drain with nothing under way is over. -/
theorem goesOn_drainRounds_of_isEmpty (fuel : Nat) {drain : Drain}
    (hnone : drain.fleet.flights.isEmpty = true) :
    GoesOn .drain page drain.fleet.rendering (page.drainRounds fuel drain) := by
  have hidle : drain.fleet.rendering = [] := by
    rw [Fleet.rendering, Fleet.states, List.isEmpty_iff.mp hnone]
    rfl
  rw [hidle, drainRounds.eq_def, if_pos hnone]
  exact .finished (.refl page [])

theorem goesOn_drainRounds (fuel : Nat) {drain : Drain}
    (h : drain.fleet.Numbered page.flights) :
    GoesOn .drain page drain.fleet.rendering (page.drainRounds fuel drain) := by
  induction fuel generalizing page drain with
  | zero =>
      by_cases hnone : drain.fleet.flights.isEmpty = true
      · exact goesOn_drainRounds_of_isEmpty 0 hnone
      · rw [drainRounds.eq_def, if_neg hnone]
        exact .suspended (.refl page _) h
  | succ fuel ih =>
      by_cases hnone : drain.fleet.flights.isEmpty = true
      · exact goesOn_drainRounds_of_isEmpty _ hnone
      · obtain ⟨hround, hnumbered⟩ := accounts_playRound drain.fleet.flights.length 1 h
        rw [drainRounds.eq_def, if_neg hnone]
        dsimp only
        rw [round]
        generalize page.playRound drain.fleet.flights.length 1 drain.fleet = reached
          at hround hnumbered ⊢
        obtain ⟨after, rest⟩ := reached
        cases rest with
        -- Either way the fleet is what is left, and the jobs that join it render nothing yet.
        | finished fleet id result =>
            have hleft := hround.tends (tends_leaveSignal after drain.ticket)
            have hrest := fun failure =>
              @goesOn_launchJobs (after.leaveSignal drain.ticket) _ ih { fleet, failure } hnumbered
            exact .then hleft (hrest _)
        | idle fleet =>
            have hheard := hround.tends (tends_listenSignal after drain.ticket)
            have hstill : fleet.Numbered (after.listenSignal drain.ticket).1.flights := hnumbered
            dsimp only
            generalize after.listenSignal drain.ticket = listening at hheard hstill ⊢
            obtain ⟨listening, ticket⟩ := listening
            cases ticket with
            | some ticket => exact .suspended hheard hstill
            | none =>
                exact .then hheard
                  (@goesOn_launchJobs listening _ ih { drain with fleet, ticket := none } hstill)

theorem goesOn_beginDrain (fuel : Nat) (page : Page) :
    GoesOn .drain page [] (beginDrain fuel page) :=
  @goesOn_launchJobs page _ (goesOn_drainRounds fuel) {} (Fleet.numbered_empty page.flights)

theorem goesOn_resumeDrain (fuel : Nat) {drain : Drain} (h : drain.fleet.Numbered page.flights) :
    GoesOn .drain page drain.fleet.rendering (resumeDrain fuel page drain) := by
  obtain ⟨hwoken, hsame, hnumbered⟩ := tends_wake h
  have hrounds := @goesOn_drainRounds _ fuel { drain with fleet := (page.wake drain.fleet).2 }
    hnumbered
  rw [← hsame]
  exact .then (hwoken.accounts _) hrounds

theorem accounts_dropDrain (page : Page) (drain : Drain) :
    Accounts page drain.fleet.rendering (page.dropDrain drain) [] :=
  (accounts_dropFleet page drain.fleet).tends (tends_leaveSignal _ _)

/-! ## Stages -/

/-- What an activity comes to renders what is left, and its works are known by their numbers. -/
def Reaches (before : Page) (gone : List ComponentId) (reached : Page × Stage) : Prop :=
  Accounts before gone reached.1 reached.2.rendering ∧ reached.2.Numbered reached.1.flights

theorem Reaches.then {reached : Page × Stage} (h : Accounts before gone middle left)
    (h' : Reaches middle left reached) : Reaches before gone reached := ⟨h.trans h'.1, h'.2⟩

theorem GoesOn.ofProgress {α : Type} {activity : α → Activity} {progress : Progress α}
    (h : GoesOn activity before gone (after, progress)) (answer : Answer) :
    Reaches before gone (after, .ofProgress answer activity progress) := by
  cases progress with
  | finished result => cases result <;> exact ⟨h.1, trivial⟩
  | suspended on rest => exact ⟨h.1, h.2 on rest rfl⟩

theorem GoesOn.stageOf {α : Type} {activity : α → Activity} {reached : Page × Progress α}
    (h : GoesOn activity before gone reached) : Reaches before gone (stageOf activity reached) :=
  GoesOn.ofProgress h .nothing

theorem goesOn_task {reached : Page × Progress Task}
    (h : Accounts before gone reached.1 (reached.2.rendering Task.rendering)) :
    GoesOn .task before gone reached := ⟨h, fun _ _ _ => trivial⟩

theorem reaches_stageOfLoad (scope : ScopeId) {reached : Page × Progress Task}
    (h : Accounts before gone reached.1 (reached.2.rendering Task.rendering)) :
    Reaches before gone (stageOfLoad scope reached) := by
  obtain ⟨after, progress⟩ := reached
  cases progress with
  | finished result => exact ⟨h.tends (tends_releaseScope _ _), trivial⟩
  | suspended on task => exact ⟨h, trivial⟩

theorem reaches_evaluateQuery (scope : ScopeId) (wait : Bool) (page : Page) (query : Query Value) :
    Reaches page [] (page.evaluateQuery scope wait query) := by
  induction query with
  | done value => exact ⟨tends_releaseScope page scope, trivial⟩
  | lookup id mayWait next ih =>
      rw [evaluateQuery]
      split
      · exact ih _
      · split
        · split
          · exact ⟨tends_releaseScope page scope, trivial⟩
          · next scopes promise hwait =>
              have hwaits := Scopes.minds_wait page.scopes scope id
              rw [hwait] at hwaits
              exact ⟨tends_heeds hwaits.heeds, trivial⟩
        · exact ih none

theorem reaches_startWait (page : Page) (scope : ScopeId) (id : String) :
    Reaches page [] (page.startWait scope id) := by
  have hwaits := Scopes.minds_wait page.scopes scope id
  rw [startWait]
  split
  · exact ⟨.refl page [], trivial⟩
  · next scopes promise hwait =>
      rw [hwait] at hwaits
      exact ⟨tends_heeds hwaits.heeds, trivial⟩

/-! ## Services -/

theorem reaches_serveFrom (fuel : Nat) {progress : Progress Drain}
    (h : GoesOn .drain before gone (page, progress)) :
    Reaches before gone (serveFrom fuel page progress) := by
  induction fuel generalizing before gone page progress with
  | zero =>
      cases progress with
      | suspended on drain => exact ⟨h.1, h.2 on drain rfl⟩
      | finished result => exact ⟨h.1, Fleet.numbered_empty page.flights⟩
  | succ fuel ih =>
      cases progress with
      | suspended on drain => exact ⟨h.1, h.2 on drain rfl⟩
      | finished result =>
          have hover : Accounts before gone page [] := h.1
          have hheard := hover.tends (tends_listenSignal page none)
          rw [serveFrom]
          split
          · exact ⟨hover, trivial⟩
          · split
            · next hlistening =>
                rw [hlistening] at hheard
                exact ⟨hheard, trivial⟩
            · next listening hlistening =>
                rw [hlistening] at hheard
                split
                · exact ⟨hheard, trivial⟩
                · exact ih (.then hheard (goesOn_beginDrain fuel listening))

theorem reaches_startService (fuel : Nat) (page : Page) :
    Reaches page [] (startService fuel page) := by
  rw [startService]
  split
  · exact ⟨.refl page [], trivial⟩
  · exact reaches_serveFrom fuel (goesOn_beginDrain fuel page)

/-! ## All activities -/

/-- An activity that is polled accounts for what it renders. -/
theorem reaches_poll (fuel : Nat) {activity : Activity} (h : activity.Numbered page.flights) :
    Reaches page activity.rendering (page.poll (fuel + 1) activity) := by
  cases activity with
  | wait promise =>
      rw [poll]
      split <;> exact ⟨.refl page [], trivial⟩
  | evaluate scope promise next =>
      rw [poll]
      split
      · exact ⟨.refl page [], trivial⟩
      · exact reaches_evaluateQuery scope true page _
      · exact ⟨tends_releaseScope page scope, trivial⟩
  | task task => exact (goesOn_task (accounts_resume page task)).stageOf
  | load scope task => exact reaches_stageOfLoad scope (accounts_resume page task)
  | run run => exact (goesOn_resumeRun h).stageOf
  | mount mount => exact (goesOn_resumeMount h).ofProgress (.number mount.size)
  | drain drain => exact (goesOn_resumeDrain _ h).stageOf
  | serve service =>
      cases service with
      | draining drain =>
          have hresumed := @goesOn_resumeDrain page (fuel + 1) drain h
          rw [poll, resumeService]
          generalize resumeDrain (fuel + 1) page drain = reached at hresumed ⊢
          obtain ⟨after, progress⟩ := reached
          exact reaches_serveFrom (fuel + 1) hresumed
      | sleeping ticket =>
          have hheard := tends_listenSignal page (some ticket)
          rw [poll, resumeService]
          split
          · next hlistening =>
              rw [hlistening] at hheard
              exact ⟨hheard, trivial⟩
          · next listening hlistening =>
              rw [hlistening] at hheard
              exact .then hheard (reaches_startService _ listening)

/-- Dropping an activity ends what it renders. -/
theorem accounts_drop (page : Page) (activity : Activity) :
    Accounts page activity.rendering (page.drop activity) [] := by
  cases activity with
  | wait promise => exact .refl page []
  | evaluate scope promise next => exact tends_releaseScope page scope
  | task task => exact accounts_dropTask page task
  | load scope task => exact (accounts_dropTask page task).tends (tends_releaseScope _ scope)
  | run run => exact accounts_dropRun page run
  | mount mount => exact accounts_dropMount page mount
  | drain drain => exact accounts_dropDrain page drain
  | serve service =>
      cases service with
      | draining drain => exact accounts_dropDrain page drain
      | sleeping ticket => exact tends_leaveSignal page _

end Page

end ReactiveMarkup
