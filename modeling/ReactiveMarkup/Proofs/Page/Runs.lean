import ReactiveMarkup.Page.Run
import ReactiveMarkup.Proofs.Page.Drains

/-!
# What a run leaves

A run prepares all components before it renders any, and bindings are among the ones it renders. So
when it is over, each of them is registered for all it reads and has shown its text since, and from
then on setting a source puts its job into the queue.
-/

namespace ReactiveMarkup

/-- What is left of a few works. -/
def Slot.states (slots : List Slot) : List FlightState :=
  slots.filterMap fun
    | .waiting task => some (.begun task)
    | .finished _ => none

namespace Page

variable {page before middle after : Page} {ledger : Ledger} {component : ComponentId}
  {prepared : Bool}

/-! ## Phases -/

theorem slotStates_cons (progress : Progress Task) (slots : List Slot) :
    Slot.states ((slotOf progress).1 :: slots) =
      (match progress with
        | .suspended _ task => [.begun task]
        | .finished _ => []) ++ Slot.states slots := by
  cases progress <;> rfl

/-- A few works that begin. -/
theorem Underway.beginSlots (assignments : List Assignment) {others : List FlightState}
    (h : page.Underway prepared ledger (assignments.map FlightState.assigned ++ others)) :
    (page.beginSlots assignments).1.Underway prepared ledger
        (Slot.states (page.beginSlots assignments).2.1 ++ others) ∧
      Stays page (page.beginSlots assignments).1 := by
  induction assignments generalizing page others with
  | nil => exact ⟨h, .refl page⟩
  | cons assignment rest ih =>
      have hturns := Underway.advance h
      rw [Page.beginSlots]
      change Turns page prepared ledger _ (page.beginAssignment assignment) at hturns
      generalize page.beginAssignment assignment = reached at hturns ⊢
      obtain ⟨after, progress⟩ := reached
      dsimp only
      rw [slotStates_cons]
      cases progress with
      | finished result =>
          obtain ⟨hrest, hagain⟩ := ih hturns.1
          exact ⟨hrest, hturns.2.trans hagain⟩
      | suspended on task =>
          obtain ⟨hrest, hagain⟩ := @ih _ (.begun task :: others)
            (hturns.1.perm List.perm_middle.symm)
          exact ⟨hrest.perm List.perm_middle, hturns.2.trans hagain⟩

/-- A few works that go on. -/
theorem Underway.resumeSlots (slots : List Slot) {others : List FlightState}
    (h : page.Underway prepared ledger (Slot.states slots ++ others)) :
    (page.resumeSlots slots).1.Underway prepared ledger
        (Slot.states (page.resumeSlots slots).2.1 ++ others) ∧
      Stays page (page.resumeSlots slots).1 := by
  induction slots generalizing page others with
  | nil => exact ⟨h, .refl page⟩
  | cons slot rest ih =>
      cases slot with
      | finished result =>
          obtain ⟨hrest, hagain⟩ := ih h
          exact ⟨hrest, hagain⟩
      | waiting task =>
          have hturns : Turns page prepared ledger _ (page.resume task) := Underway.advance h
          rw [Page.resumeSlots]
          generalize page.resume task = reached at hturns ⊢
          obtain ⟨after, progress⟩ := reached
          dsimp only
          rw [slotStates_cons]
          cases progress with
          | finished result =>
              obtain ⟨hrest, hagain⟩ := ih hturns.1
              exact ⟨hrest, hturns.2.trans hagain⟩
          | suspended on task =>
              obtain ⟨hrest, hagain⟩ := @ih _ (.begun task :: others)
                (hturns.1.perm List.perm_middle.symm)
              exact ⟨hrest.perm List.perm_middle, hturns.2.trans hagain⟩

/-- Rounds with many works. -/
theorem Afloat.playFleet (fuel : Nat) {fleet : Fleet} (h : page.Afloat prepared ledger fleet)
    (results : List (FlightId × Except Error Unit)) :
    (page.playFleet fuel fleet results).1.Afloat prepared ledger
        (page.playFleet fuel fleet results).2.1 ∧
      Stays page (page.playFleet fuel fleet results).1 := by
  induction fuel generalizing page fleet results with
  | zero => exact ⟨h, .refl page⟩
  | succ fuel ih =>
      have hround := h.playRound fleet.flights.length 1
      rw [Page.playFleet, Page.round]
      generalize page.playRound fleet.flights.length 1 fleet = reached at hround ⊢
      obtain ⟨after, round⟩ := reached
      cases round with
      | finished left id result =>
          obtain ⟨hrest, hagain⟩ := ih hround.1 (results ++ [(id, result)])
          exact ⟨hrest, hround.2.trans hagain⟩
      | idle left => exact ⟨hround.1, hround.2.1⟩

/-- What is true of a page while a phase is under way. -/
def Phasing (page : Page) (prepared : Bool) (ledger : Ledger) : Phase → Prop
  | .few slots => page.Underway prepared ledger (Slot.states slots)
  | .many _ fleet _ => page.Afloat prepared ledger fleet

theorem Phasing.sound {phase : Phase} (h : page.Phasing prepared ledger phase)
    (hsettled : phase.isSettled = true) : page.Sound ledger := by
  cases phase with
  | few slots =>
      have hnone : Slot.states slots = [] := by
        refine List.filterMap_eq_nil_iff.mpr fun slot hslot => ?_
        have hfinished := List.all_eq_true.mp hsettled slot hslot
        cases slot with
        | finished result => rfl
        | waiting task => cases hfinished
      have hsound := Underway.sound h
      rw [hnone, employ_nil] at hsound
      exact hsound
  | many ids fleet results =>
      have hnone : fleet.flights = [] := List.isEmpty_iff.mp hsettled
      have hsound := (Afloat.works h).sound
      rw [hnone, List.map_nil, employ_nil] at hsound
      exact hsound

theorem Underway.beginPhase {assignments : List Assignment}
    (h : page.Underway prepared ledger (assignments.map FlightState.assigned)) :
    (page.beginPhase assignments).1.Phasing prepared ledger (page.beginPhase assignments).2.1 ∧
      Stays page (page.beginPhase assignments).1 := by
  rw [Page.beginPhase]
  split
  · obtain ⟨hworks, hstays⟩ := @Underway.beginSlots _ _ _ assignments []
      (by rw [List.append_nil]; exact h)
    rw [List.append_nil] at hworks
    exact ⟨hworks, hstays⟩
  · obtain ⟨hafloat, hstays⟩ := @Underway.launch _ _ _ {} _ h List.nodup_nil
      fun _ hin => absurd hin List.not_mem_nil
    obtain ⟨hplayed, hagain⟩ := hafloat.playFleet
      ((page.launch {} assignments).2.flights.length + 1) []
    exact ⟨hplayed, hstays.trans hagain⟩

theorem Phasing.resumePhase {phase : Phase} (h : page.Phasing prepared ledger phase) :
    (page.resumePhase phase).1.Phasing prepared ledger (page.resumePhase phase).2.1 ∧
      Stays page (page.resumePhase phase).1 := by
  cases phase with
  | few slots =>
      obtain ⟨hworks, hstays⟩ := @Underway.resumeSlots _ _ _ slots []
        (by rw [List.append_nil]; exact h)
      rw [List.append_nil] at hworks
      exact ⟨hworks, hstays⟩
  | many ids fleet results =>
      have hbeside : Beside page (page.wake fleet).1 :=
        ⟨rfl, rfl, rfl, rfl, rfl, ⟨rfl, rfl⟩, rfl, rfl, Nat.le_refl _⟩
      have hwoken : (page.wake fleet).1.Afloat prepared ledger (page.wake fleet).2 :=
        Afloat.beside h hbeside rfl
      obtain ⟨hplayed, hagain⟩ := hwoken.playFleet ((page.wake fleet).2.flights.length + 1) results
      exact ⟨hplayed, hbeside.stays.trans hagain⟩

/-! ## Collections -/

/-- Collections may change as long as the same components belong to them. -/
theorem Sound.regroup (h : page.Sound ledger) {collections : Arena Collection}
    (hcollected : ∀ component, Collected { page with collections } component ↔
      page.Collected component) : Sound { page with collections } ledger :=
  { h with
    cells := fun component hin => h.cells component ((hcollected component).mp hin)
    alive := fun component hin => h.alive component ((hcollected component).mp hin)
    told := fun id component hin => (hcollected component).mpr (h.told id component hin)
    jobs := fun job hjob => by
      obtain ⟨component, cause, hsame, hin⟩ := h.jobs job hjob
      exact ⟨component, cause, hsame, (hcollected component).mpr hin⟩
    spots := fun component spot hin => h.spots component spot ((hcollected component).mp hin)
    agree := fun component other spot more hin hother =>
      h.agree component other spot more ((hcollected component).mp hin) ((hcollected other).mp hother)
    registered := fun component spot hin =>
      h.registered component spot ((hcollected component).mp hin)
    shown := fun component spot hin => h.shown component spot ((hcollected component).mp hin) }

/-- A collection may change its state. -/
theorem Sound.changeCollection (h : page.Sound ledger) (collection : CollectionId)
    {f : Collection → Collection} (hf : ∀ cell, (f cell).components = cell.components) :
    (page.changeCollection collection f).Sound ledger ∧
      ∀ component, (page.changeCollection collection f).Collected component ↔
        page.Collected component := by
  have hcollected : ∀ component, (page.changeCollection collection f).Collected component ↔
      page.Collected component := by
    intro component
    rw [Collected, Collected, Page.changeCollection]
    refine exists_congr fun other => ?_
    rw [Arena.get?_modify]
    split
    · cases page.collections.get? other with
      | none => exact Iff.rfl
      | some cell =>
          rw [Option.map_some]
          constructor
          · rintro ⟨_, hcell, hin⟩
            exact ⟨cell, rfl, hf cell ▸ Option.some.inj hcell ▸ hin⟩
          · rintro ⟨_, hcell, hin⟩
            exact ⟨f cell, rfl, hf cell ▸ Option.some.inj hcell ▸ hin⟩
    · exact Iff.rfl
  exact ⟨h.regroup hcollected, hcollected⟩

theorem Sound.holdComponents (h : page.Sound ledger) (components : List ComponentId) :
    Kept page (components.foldl Page.holdComponent page)
      { ledger with owed := components ++ ledger.owed } := by
  induction components generalizing page ledger with
  | nil => exact .refl h
  | cons component rest ih =>
      have hheld := h.holdComponent component
      have hrest := ih hheld.sound
      refine ⟨hrest.sound.within ⟨fun other => ?_, Nat.le_refl _, fun _ hin => hin, fun _ hin => hin,
        h.pending⟩, hheld.stays.trans hrest.stays⟩
      exact Nat.le_of_eq (List.perm_middle.count_eq other).symm

theorem Sound.releaseComponents {components : List ComponentId}
    (h : page.Sound { ledger with owed := components ++ ledger.owed }) :
    Kept page (components.foldl Page.releaseComponent page) ledger := by
  induction components generalizing page with
  | nil => exact .refl h
  | cons component rest ih =>
      have hreleased := @Sound.releaseComponent _
        { ledger with owed := rest ++ ledger.owed } _ h
      exact hreleased.trans (ih hreleased.sound)

/-! ## Runs -/

/-- What is true of a page while a run is under way, besides its phase: what is still to be rendered
belongs to the run, and a binding among it is of one of the classes that come later. -/
structure Running (page : Page) (run : Run) (later : List Priority) (due : List ComponentId) :
    Prop where
  members : ∀ component ∈ run.components, page.Collected component
  due : ∀ component ∈ due, component ∈ run.components ∧
    ∀ spot, page.spot? component = some spot → spot.priority ∈ later
  active : ∃ cell, page.collections.get? run.collection = some cell ∧ cell.state ≠ .disposed
  held : 2 ≤ page.heldCollections.count run.collection

variable {run : Run} {later : List Priority} {due : List ComponentId}

theorem Running.stays (h : before.Running run later due) (hstays : Stays before after) :
    after.Running run later due :=
  ⟨fun component hin => hstays.collected_iff.mpr (h.members component hin), fun component hin =>
    ⟨(h.due component hin).1, fun spot hspot =>
      (h.due component hin).2 spot (hstays.spots component ▸ hspot)⟩,
    hstays.collections ▸ h.active, hstays.heldCollections ▸ h.held⟩

def Runs : Page × Progress Run → Prop
  | (after, .finished _) => after.Sound {}
  | (after, .suspended _ run) => ∃ prepared due,
    after.Phasing prepared { owed := run.components, due } run.phase ∧
      after.Running run run.later due

/-- When no class is left, no binding is due. -/
theorem Running.finishRun (h : page.Running run [] due)
    (hsound : page.Sound { owed := run.components, due }) : Runs (page.finishRun run) := by
  have hnone : page.Sound { owed := run.components } := { hsound with
    pending := nofun
    shown := fun component spot hin hspot _ => by
      refine hsound.shown component spot hin hspot fun hdue => ?_
      exact absurd ((h.due component hdue).2 spot hspot) List.not_mem_nil }
  obtain ⟨hended, -⟩ := hnone.changeCollection run.collection
    (f := fun cell => if cell.state = .running then { cell with state := .ran } else cell)
    fun cell => by
      split
      · rfl
      · rfl
  have hreleased := @Sound.releaseComponents _ {} run.components (by
    rw [List.append_nil]
    exact hended)
  have hcontains : (run.components.foldl Page.releaseComponent
      (page.changeCollection run.collection fun cell =>
        if cell.state = .running then { cell with state := .ran } else cell)).heldCollections.erase
          run.collection |>.contains run.collection := by
    rw [hreleased.stays.heldCollections]
    refine List.contains_iff_mem.mpr (List.count_pos_iff.mp ?_)
    have hheld := h.held
    change 0 < (page.heldCollections.erase run.collection).count run.collection
    rw [List.count_erase_self]
    omega
  change Sound (releaseRun _ run.collection run.components) {}
  rw [releaseRun, releaseCollection]
  dsimp only
  rw [if_pos hcontains]
  exact { hreleased.sound with }

theorem flatMap_render (components : List ComponentId) :
    ((components.map Assignment.render).map FlightState.assigned).flatMap FlightState.owed = [] ∧
      (((components.map Assignment.render).map FlightState.assigned).map FlightState.loads).sum = 0 ∧
      ((components.map Assignment.render).map FlightState.assigned).flatMap FlightState.due =
        components ∧
      ((components.map Assignment.render).map FlightState.assigned).flatMap FlightState.fresh = [] := by
  induction components with
  | nil => exact ⟨rfl, rfl, rfl, rfl⟩
  | cons component rest ih =>
      obtain ⟨howed, hloads, hdue, hfresh⟩ := ih
      refine ⟨howed, ?_, congrArg (component :: ·) hdue, hfresh⟩
      simp only [List.map_cons, List.sum_cons, hloads, FlightState.loads]

theorem flatMap_prepare (components : List ComponentId) :
    ((components.map Assignment.prepare).map FlightState.assigned).flatMap FlightState.owed = [] ∧
      (((components.map Assignment.prepare).map FlightState.assigned).map FlightState.loads).sum = 0 ∧
      ((components.map Assignment.prepare).map FlightState.assigned).flatMap FlightState.due = [] ∧
      ((components.map Assignment.prepare).map FlightState.assigned).flatMap FlightState.fresh =
        components := by
  induction components with
  | nil => exact ⟨rfl, rfl, rfl, rfl⟩
  | cons component rest ih =>
      obtain ⟨howed, hloads, hdue, hfresh⟩ := ih
      refine ⟨howed, ?_, hdue, congrArg (component :: ·) hfresh⟩
      simp only [List.map_cons, List.sum_cons, hloads, FlightState.loads]

theorem mem_ofPriority {priority : Priority} {components : List ComponentId} {spot : Spot}
    (hin : component ∈ components) (hspot : page.spot? component = some spot)
    (hpriority : spot.priority = priority) : component ∈ page.ofPriority priority components := by
  refine List.mem_filter.mpr ⟨hin, ?_⟩
  obtain ⟨cell, hcell, hcellSpot⟩ := Option.bind_eq_some_iff.mp hspot
  obtain ⟨bound, -, hsame⟩ := Option.map_eq_some_iff.mp hcellSpot
  rw [hcell, Option.any_some, ← hpriority, ← hsame]
  exact beq_self_eq_true _

/-- What a class renders is under way from now on, and only the rest is due besides. -/
theorem Running.beginClass {priority : Priority} (h : page.Running run (priority :: later) due)
    (hsound : page.Sound { owed := run.components, due }) :
    ∃ rest, page.Underway true { owed := run.components, due := rest }
      (((page.ofPriority priority run.components).map Assignment.render).map
        FlightState.assigned) ∧ page.Running run later rest := by
  refine ⟨due.filter (!(page.ofPriority priority run.components).contains ·), ?_, ?_⟩
  · obtain ⟨howed, hloads, hdue, hfresh⟩ :=
      flatMap_render (page.ofPriority priority run.components)
    constructor
    case sound =>
      rw [Ledger.employ, howed, hloads, hdue, hfresh]
      refine hsound.within ⟨fun _ => Nat.le_refl _, Nat.le_refl _, fun component hin => ?_,
        fun _ hin => hin, fun _ hin => absurd hin List.not_mem_nil⟩
      by_cases hclass : component ∈ page.ofPriority priority run.components
      · exact List.mem_append_left _ hclass
      · refine List.mem_append_right _ (List.mem_filter.mpr ⟨hin, ?_⟩)
        simpa using hclass
    case ready =>
      intro state hstate
      obtain ⟨assignment, hassignment, rfl⟩ := List.mem_map.mp hstate
      obtain ⟨component, hcomponent, rfl⟩ := List.mem_map.mp hassignment
      exact h.members component (List.mem_filter.mp hcomponent).1
    case ripe =>
      intro
      rw [Ledger.employ, hfresh]
      rfl
    case unripe =>
      intro hfalse
      cases hfalse
  · refine ⟨h.members, fun component hin => ?_, h.active, h.held⟩
    obtain ⟨hin, hclass⟩ := List.mem_filter.mp hin
    refine ⟨(h.due component hin).1, fun spot hspot => ?_⟩
    rcases List.mem_cons.mp ((h.due component hin).2 spot hspot) with hthis | hlater
    · have hmem := mem_ofPriority (h.due component hin).1 hspot hthis
      rw [List.contains_iff_mem.mpr hmem] at hclass
      cases hclass
    · exact hlater

/-- Class after class. -/
theorem Running.runClasses (h : page.Running run later due)
    (hsound : page.Sound { owed := run.components, due }) : Runs (Page.runClasses later page run) := by
  induction later generalizing page run due with
  | nil => exact h.finishRun hsound
  | cons priority later ih =>
      obtain ⟨cell, hcell, hstate⟩ := h.active
      have hopen : ¬page.isCollectionDisposed run.collection = true := by
        rw [isCollectionDisposed, hcell]
        exact fun hdisposed => hstate (beq_iff_eq.mp hdisposed)
      obtain ⟨rest, hworks, hrest⟩ := h.beginClass hsound
      obtain ⟨hphasing, hstays⟩ := hworks.beginPhase
      have hlater := hrest.stays hstays
      rw [Page.runClasses, if_neg hopen]
      generalize page.beginPhase ((page.ofPriority priority run.components).map .render) = reached
        at hphasing hlater ⊢
      obtain ⟨after, phase, awake⟩ := reached
      dsimp only at hphasing hlater ⊢
      split
      · next hsettled =>
          exact @ih _ { run with
            phase, later, failure := run.failure.or phase.failure? } _
            ⟨hlater.members, hlater.due, hlater.active, hlater.held⟩ (hphasing.sound hsettled)
      · exact ⟨true, rest, hphasing, hlater.members, hlater.due, hlater.active, hlater.held⟩

theorem Running.continueRun {awake : Bool} (h : page.Running run run.later due)
    (hphasing : page.Phasing prepared { owed := run.components, due } run.phase) :
    Runs (page.continueRun run awake) := by
  rw [Page.continueRun]
  split
  · next hsettled =>
      exact @Running.runClasses _ { run with failure := run.failure.or run.phase.failure? } _ _
        ⟨h.members, h.due, h.active, h.held⟩ (hphasing.sound hsettled)
  · exact ⟨prepared, due, hphasing, h⟩

theorem Running.resumeRun (h : page.Running run run.later due)
    (hphasing : page.Phasing prepared { owed := run.components, due } run.phase) :
    Runs (page.resumeRun run) := by
  obtain ⟨hagain, hstays⟩ := hphasing.resumePhase
  have hlater := h.stays hstays
  rw [Page.resumeRun]
  generalize page.resumePhase run.phase = reached at hagain hlater ⊢
  obtain ⟨after, phase, awake⟩ := reached
  exact @Running.continueRun _ _ { run with phase } _ _
    ⟨hlater.members, hlater.due, hlater.active, hlater.held⟩ hagain

/-- A run that begins with components that nobody prepared or rendered yet. -/
theorem Sound.beginRun {collection : CollectionId} {cell : Collection}
    (hcell : page.collections.get? collection = some cell) (hready : cell.state = .ready)
    (h : page.Sound { due := cell.components, fresh := cell.components })
    (hheld : 1 ≤ page.heldCollections.count collection)
    (hclasses : ∀ component ∈ cell.components, ∀ spot, page.spot? component = some spot →
      spot.priority ∈ Priority.runOrder) : Runs (page.beginRun collection) := by
  obtain ⟨hrunning, hcollected⟩ := h.changeCollection collection
    (f := fun cell => { cell with state := .running }) fun _ => rfl
  let started := (page.changeCollection collection
    fun cell => { cell with state := .running }).holdCollection collection
  have hstarted : started.Sound { due := cell.components, fresh := cell.components } :=
    { hrunning with }
  have hholding := hstarted.holdComponents cell.components
  let held := cell.components.foldl Page.holdComponent started
  let run : Run := ⟨collection, cell.components, .few [], Priority.runOrder, none⟩
  have hrun : started.Running run Priority.runOrder cell.components := by
    refine ⟨fun component hin => (hcollected component).mpr ⟨collection, cell, hcell, hin⟩,
      fun component hin => ⟨hin, hclasses component hin⟩, ?_, ?_⟩
    · refine ⟨{ cell with state := .running }, ?_, CollectionState.noConfusion⟩
      change (page.collections.modify collection _).get? collection = _
      rw [Arena.get?_modify, if_pos rfl, hcell]
      rfl
    · change 2 ≤ (collection :: page.heldCollections).count collection
      rw [List.count_cons_self]
      omega
  have hworks : held.Underway false { owed := cell.components, due := cell.components }
      ((cell.components.map Assignment.prepare).map FlightState.assigned) := by
    obtain ⟨howed, hloads, hdue, hfresh⟩ := flatMap_prepare cell.components
    constructor
    case sound =>
      rw [Ledger.employ, howed, hloads, hdue, hfresh, List.append_nil]
      have hsound := hholding.sound
      rw [List.append_nil] at hsound
      exact hsound
    case ready =>
      intro state hstate
      obtain ⟨assignment, hassignment, rfl⟩ := List.mem_map.mp hstate
      obtain ⟨component, hcomponent, rfl⟩ := List.mem_map.mp hassignment
      exact hholding.stays.collected_iff.mpr (hrun.members component hcomponent)
    case ripe =>
      intro hfalse
      cases hfalse
    case unripe =>
      intro _ state hstate
      obtain ⟨assignment, hassignment, rfl⟩ := List.mem_map.mp hstate
      obtain ⟨component, -, rfl⟩ := List.mem_map.mp hassignment
      rfl
  obtain ⟨hphasing, hstays⟩ := hworks.beginPhase
  have hlater := (hrun.stays hholding.stays).stays hstays
  rw [Page.beginRun, hcell]
  dsimp only
  rw [hready]
  dsimp only
  exact @Running.continueRun _ _
    ⟨collection, cell.components, (held.beginPhase (cell.components.map .prepare)).2.1,
      Priority.runOrder, none⟩ cell.components _
    ⟨hlater.members, hlater.due, hlater.active, hlater.held⟩ hphasing

end Page

end ReactiveMarkup
