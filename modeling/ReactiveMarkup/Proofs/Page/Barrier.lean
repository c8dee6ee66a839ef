import ReactiveMarkup.Proofs.Page.Stories

/-!
# Triggers before the barrier

A run renders nothing before all components are prepared. But a component that has been prepared is
registered for its sources from then on, and a job of the queue calls it as soon as somebody drives the
queue on, whether or not the others of its collection are still being prepared. So for the renders that a
trigger causes the barrier holds only if nobody drives the queue on meanwhile, or if there is no
meanwhile: when nothing has to wait in order to be prepared, all of it is done before a run lets go for
the first time.
-/

namespace ReactiveMarkup

open Relation

/-! ## Components that are prepared at once -/

/-- Whether a step has to wait. -/
def HostStep.waits : HostStep → Bool
  | .await _ => true
  | .pause (_ + 1) => true
  | _ => false

/-- Whether preparing a component never has to wait. -/
def Behaviour.preparesAtOnce : Behaviour → Bool
  | .host made => made.prepare.all (!·.waits)
  | _ => true

theorem Behaviour.preparesAtOnce_steady (behaviour : Behaviour) :
    behaviour.steady.preparesAtOnce = behaviour.preparesAtOnce := by
  cases behaviour <;> rfl

namespace Page

variable {page after : Page} {component : ComponentId} {components : List ComponentId}

/-- A component is there, and it can be prepared without waiting. -/
def PreparesAtOnce (page : Page) (component : ComponentId) : Prop :=
  ∃ cell, page.components.get? component = some cell ∧ cell.behaviour.preparesAtOnce = true

theorem PreparesAtOnce.lasts (h : page.PreparesAtOnce component) (hlasts : Lasts page after) :
    after.PreparesAtOnce component := by
  obtain ⟨cell, hcell, hquick⟩ := h
  obtain ⟨later, hlater, hbecomes⟩ := hlasts.cells component cell hcell
  refine ⟨later, hlater, ?_⟩
  rw [← Behaviour.preparesAtOnce_steady, hbecomes.steady, Behaviour.preparesAtOnce_steady]
  exact hquick

theorem runSteps_finished (owner : Option ComponentId) (cause : Option Source) (page : Page)
    {steps : List HostStep} (h : steps.all (!·.waits) = true) :
    ∃ result, (page.runSteps owner cause steps).2 = .finished result := by
  induction steps generalizing page with
  | nil => exact ⟨_, rfl⟩
  | cons step rest ih =>
      obtain ⟨hquick, hrest⟩ := Bool.and_eq_true_iff.mp h
      cases step with
      | note entry => exact ih _ hrest
      | noteCause entry => exact ih _ hrest
      | await gate => cases hquick
      | pause turns =>
          cases turns with
          | zero => exact ih _ hrest
          | succ turns => cases hquick
      | subscribe ids => cases owner <;> exact ih _ hrest
      | set scope id value =>
          rw [runSteps]
          split <;> exact ih _ hrest
      | enqueue steps => exact ih _ hrest
      | close => exact ih _ hrest
      | fail error => exact ⟨_, rfl⟩

theorem PreparesAtOnce.prepare (h : page.PreparesAtOnce component) :
    ∃ result, (page.prepare component).2 = .finished result := by
  obtain ⟨cell, hcell, hquick⟩ := h
  rw [Page.prepare, hcell]
  dsimp only
  split
  · next host hhost =>
      rw [hhost] at hquick
      obtain ⟨result, hresult⟩ := runSteps_finished (some component) none
        (page.holdComponent component) hquick
      rw [hresult]
      exact ⟨result, rfl⟩
  · exact ⟨_, rfl⟩

theorem lasts_beginAssignment (page : Page) (assignment : Assignment) :
    Lasts page (page.beginAssignment assignment).1 :=
  (accounts_advance page (.assigned assignment)).lasts

theorem beginSlots_finished (h : ∀ component ∈ components, page.PreparesAtOnce component) :
    (Phase.few (page.beginSlots (components.map .prepare)).2.1).isSettled = true := by
  induction components generalizing page with
  | nil => rfl
  | cons first rest ih =>
      obtain ⟨result, hresult⟩ := (h first List.mem_cons_self).prepare
      have hrest := ih fun component hin =>
        (h component (List.mem_cons_of_mem _ hin)).lasts (lasts_beginAssignment page (.prepare first))
      rw [List.map_cons, beginSlots]
      dsimp only [beginAssignment] at hrest ⊢
      rw [hresult]
      exact hrest

/-- A fleet in which every work is to prepare a component, and all are in line. -/
structure Preparing (page : Page) (fleet : Fleet) : Prop where
  line : fleet.line = fleet.flights.map Flight.id
  nodup : (fleet.flights.map Flight.id).Nodup
  quick : ∀ flight ∈ fleet.flights, ∃ component, flight.state = .assigned (.prepare component) ∧
    page.PreparesAtOnce component

theorem Preparing.playFleet (fuel : Nat) {fleet : Fleet} (h : page.Preparing fleet)
    (hfuel : fleet.flights.length < fuel) (results : List (FlightId × Except Error Unit)) :
    (page.playFleet fuel fleet results).2.1.flights = [] := by
  induction fuel generalizing page fleet results with
  | zero => exact absurd hfuel (Nat.not_lt_zero _)
  | succ fuel ih =>
      obtain ⟨hline, hnodup, hquick⟩ := h
      obtain ⟨flights, line⟩ := fleet
      change line = flights.map Flight.id at hline
      cases flights with
      | nil => rfl
      | cons first rest =>
          obtain ⟨component, hstate, hthis⟩ := hquick first List.mem_cons_self
          obtain ⟨hnew, hrest⟩ := List.nodup_cons.mp hnodup
          obtain ⟨result, hresult⟩ := hthis.prepare
          have hadvance : page.advance first.state = ((page.prepare component).1, .finished result) := by
            rw [hstate, ← hresult]
            rfl
          have hround : page.round ⟨first :: rest, line⟩ = ((page.prepare component).1,
              .finished (Fleet.remove ⟨first :: rest, line⟩ first.id (rest.map Flight.id))
                first.id result) := by
            rw [hline, round, List.length_cons, playRound]
            simp only [List.map_cons, List.find?_cons, beq_self_eq_true]
            rw [hadvance]
          have hremains : (Fleet.remove ⟨first :: rest, line⟩ first.id
              (rest.map Flight.id)).flights = rest := by
            rw [Fleet.remove, List.filter_cons_of_neg (by simp), List.filter_eq_self]
            intro other hother
            exact bne_iff_ne.mpr fun hsame => hnew (hsame ▸ List.mem_map_of_mem hother)
          rw [playFleet, hround]
          refine ih ⟨?_, ?_, fun other hother => ?_⟩ ?_ _
          · rw [hremains]
            rfl
          · rw [hremains]
            exact hrest
          · rw [hremains] at hother
            obtain ⟨next, hnext, hready⟩ := hquick other (List.mem_cons_of_mem _ hother)
            exact ⟨next, hnext, hready.lasts (lasts_beginAssignment page (.prepare component))⟩
          · rw [hremains]
            exact Nat.lt_of_succ_lt_succ hfuel

/-- If nothing has to wait in order to be prepared, all of it is prepared at once. -/
theorem isSettled_beginPhase (h : ∀ component ∈ components, page.PreparesAtOnce component) :
    (page.beginPhase (components.map .prepare)).2.1.isSettled = true := by
  rw [beginPhase]
  split
  · exact beginSlots_finished h
  · have hflights : (page.launch {} (components.map .prepare)).2.flights =
        ((components.map Assignment.prepare).zipIdx page.flights).map
          fun work => ⟨work.2, .assigned work.1⟩ := rfl
    have hnumbers : (page.launch {} (components.map .prepare)).2.flights.map Flight.id =
        ((components.map Assignment.prepare).zipIdx page.flights).map Prod.snd := by
      rw [hflights, List.map_map]
      rfl
    have hpreparing : (page.launch {} (components.map .prepare)).1.Preparing
        (page.launch {} (components.map .prepare)).2 := by
      refine ⟨hnumbers.symm, ?_, fun flight hflight => ?_⟩
      · rw [hnumbers, List.zipIdx_map_snd]
        exact List.nodup_range'
      · rw [hflights] at hflight
        obtain ⟨work, hwork, rfl⟩ := List.mem_map.mp hflight
        obtain ⟨component, hin, hsame⟩ := List.mem_map.mp (List.fst_mem_of_mem_zipIdx hwork)
        exact ⟨component, congrArg FlightState.assigned hsame.symm, h component hin⟩
    exact List.isEmpty_iff.mpr (hpreparing.playFleet _ (Nat.lt_succ_self _) [])

/-- Going on with the classes ends a run or opens a chapter. -/
theorem runClasses_opens (later : List Priority) (page : Page) (run : Run) :
    (∃ result, (runClasses later page run).2 = .finished result) ∨
      classChapters run.collection run.components later page ≠ [] := by
  cases later with
  | nil => exact .inl ⟨_, rfl⟩
  | cons priority later =>
      rw [runClasses, classChapters]
      split
      · exact .inl ⟨_, rfl⟩
      · exact .inr (List.cons_ne_nil _ _)

end Page

/-! ## Past the barrier -/

namespace Conduct

variable {conduct later start : Conduct} {incidents : List Incident}

/-- All components of the collection are prepared. -/
def Prepared (conduct : Conduct) : Prop := ∀ chapter ∈ conduct.chapters.head?, chapter.Settled

/-- A run has left its first chapter. -/
def Past (conduct : Conduct) : Prop :=
  (∃ result, conduct.progress = .finished result) ∨ 2 ≤ conduct.chapters.length

theorem Step.past (h : Step conduct later) (hpast : conduct.Past) : later.Past := by
  cases h with
  | aside step => exact hpast
  | @resume past last page live on run =>
      obtain ⟨result, hfinished⟩ | hlength := hpast
      · cases hfinished
      · refine .inr (Nat.le_trans hlength ?_)
        rw [List.length_append, List.length_append]
        exact Nat.add_le_add_left (Nat.le_add_left 1 _) _

theorem Leads.past (h : Leads conduct later) (hpast : conduct.Past) : later.Past := by
  induction h with
  | refl => exact hpast
  | tail _ hstep ih => exact hstep.past ih

theorem not_prepared {chapter : Chapter} {work : Assignment × FlightId}
    (hfirst : conduct.chapters.head? = some chapter) (hwork : work ∈ chapter.works)
    (hleft : outcome? chapter.turns work.2 = none) : ¬conduct.Prepared := by
  intro hprepared
  obtain ⟨result, hlife⟩ := hprepared chapter hfirst work hwork
  cases hleft.symm.trans hlife.result?

theorem Known.prepared {page : Page} {id : CollectionId} {components : List ComponentId}
    (h : conduct.Known page id components) (hpast : conduct.Past) : conduct.Prepared := by
  intro chapter hchapter
  obtain ⟨result, hfinished⟩ | hlength := hpast
  · exact (h.fulfils hfinished).settled chapter (List.mem_of_mem_head? hchapter)
  · obtain ⟨passed, -, -, hsettled⟩ := h.tale
    refine hsettled chapter ?_
    obtain ⟨chapters, after, live, progress⟩ := conduct
    match chapters with
    | [] => cases hchapter
    | [only] => exact absurd hlength (Nat.not_succ_le_self 1)
    | first :: second :: rest =>
        obtain rfl := Option.some.inj hchapter
        exact List.mem_cons_self

theorem past_opening {world : World} {id : CollectionId} {cell : Collection}
    (hcell : world.page.collections.get? id = some cell) (hready : cell.state = .ready)
    (hknown : ∀ component ∈ cell.components, world.page.PreparesAtOnce component) :
    (opening world id cell.components).Past := by
  have hrunning := (Page.tends_running hcell hready cell.components).lasts
  have hsettled := Page.isSettled_beginPhase fun component hin =>
    (hknown component hin).lasts hrunning
  rw [Past, opening, Page.beginRun_of_ready hcell hready, Page.beginChapters]
  generalize (world.page.running id cell.components).beginPhase
    (cell.components.map .prepare) = reached at hsettled ⊢
  obtain ⟨after, phase, awake⟩ := reached
  dsimp only at hsettled ⊢
  rw [Page.continueRun, Page.continueChapters, if_pos hsettled, if_pos hsettled]
  refine (Page.runClasses_opens _ _ _).imp_right fun hopens => ?_
  exact Nat.succ_le_succ (List.length_pos_iff.mpr hopens)

/-! ## Whom a run calls -/

/-- The course of a run and of everything around it, with what is told of it. -/
inductive Course (start : Conduct) : List Incident → Conduct → Prop
  | refl : Course start (told start.turns) start
  | aside {incidents more : List Incident} {chapters : List Chapter} {page after : Page}
    {live others : List Activity} {on : Suspension} {run : Run}
    (course : Course start incidents ⟨chapters, page, live, .suspended on run⟩)
    (move : World.Move ⟨page, live⟩ more ⟨after, others⟩) :
    Course start (incidents ++ more) ⟨chapters, after, others, .suspended on run⟩
  | resume {incidents : List Incident} {past : List Chapter} {last : Chapter} {page : Page}
    {live : List Activity} {on : Suspension} {run : Run}
    (course : Course start incidents ⟨past ++ [last], page, live, .suspended on run⟩) :
    Course start (incidents ++ told (page.resumeRunTurns run))
      ⟨past ++ page.resumeChapters run last, (page.resumeRun run).1, live, (page.resumeRun run).2⟩

theorem Course.leads (h : Course start incidents conduct) : Leads start conduct := by
  induction h with
  | refl => exact .refl
  | aside _ move ih => exact ih.tail (.aside move.step)
  | resume _ ih => exact ih.tail .resume

theorem Known.storied {page : Page} {id : CollectionId} {components : List ComponentId}
    (h : conduct.Known page id components)
    (hknown : ∀ component ∈ components, component < page.components.size) {on : Suspension} {run : Run}
    (hrun : conduct.progress = .suspended on run) : run.Storied conduct.page := by
  have htells := h.tells
  rw [hrun] at htells
  exact ⟨page, id, components, conduct.chapters, on, hknown, htells⟩

/-- In everything that happens while a collection runs a job of the queue calls a component only if
somebody drives the queue on. -/
theorem Course.driven {page : Page} {id : CollectionId} {components : List ComponentId}
    (h : Course start incidents conduct) (hstart : start.Known page id components)
    (hknown : ∀ component ∈ components, component < page.components.size)
    (hlive : World.Storied ⟨start.page, start.live⟩) :
    World.Storied ⟨conduct.page, conduct.live⟩ ∧
      ∀ call, .called call ∈ incidents → call.queued = true → .driven ∈ incidents := by
  induction h with
  | refl => exact ⟨hlive, fun call => hstart.tells.unqueued.driven⟩
  | @aside incidents more chapters before after live others on run course move ih =>
      obtain ⟨hothers, hdriven⟩ := ih
      have hright := (hstart.leads course.leads hknown).right
      have hlasts := ((Step.aside move.step).right hright).2
      have hmore := move.driven hright.tallied hothers
      refine ⟨move.step.storied hright.tallied hlasts hothers, fun call hcall hqueued => ?_⟩
      rcases List.mem_append.mp hcall with hold | hnew
      · exact List.mem_append_left _ (hdriven call hold hqueued)
      · exact List.mem_append_right _ (hmore call hnew hqueued)
  | @resume incidents past last before live on run course ih =>
      obtain ⟨hothers, hdriven⟩ := ih
      have hthis := hstart.leads course.leads hknown
      have hlasts := ((@Step.resume past last before live on run).right hthis.right).2
      obtain ⟨hturns, -⟩ := Page.storied_resumeRun (hthis.storied hknown rfl)
      refine ⟨hothers.lasts hlasts fun _ hin => hin, fun call hcall hqueued => ?_⟩
      rcases List.mem_append.mp hcall with hold | hnew
      · exact List.mem_append_left _ (hdriven call hold hqueued)
      · exact List.mem_append_right _ (hturns.driven hnew hqueued)

/-- As long as a collection is not prepared no component of it is called on behalf of a trigger, if each
of its components is prepared at once or nobody drives the queue on. -/
theorem triggers_wait_for_barrier {world : World} (h : world.Reached) {id : CollectionId}
    {cell : Collection} (hcell : world.page.collections.get? id = some cell)
    (hready : cell.state = .ready)
    (hcourse : Course (opening world id cell.components) incidents conduct)
    (hcalm : (∀ component ∈ cell.components, world.page.PreparesAtOnce component) ∨
      .driven ∉ incidents)
    (hearly : ¬conduct.Prepared) :
    ∀ call, .called call ∈ incidents → call.component ∈ cell.components → call.queued = false := by
  intro call hcall _
  have hright := h.right
  have hknown := (hright.tallied.gathered id cell hcell).2
  have hopening := known_opening hright hcell hready
  rcases hcalm with hquick | hundriven
  · have hpast := Leads.past hcourse.leads (past_opening hcell hready hquick)
    exact absurd ((hopening.leads hcourse.leads hknown).prepared hpast) hearly
  · have hlive : World.Storied ⟨(opening world id cell.components).page, world.live⟩ := by
      have hlasts := (hright.step (.start world.live (@Page.Begins.run world.page id))).2
      exact h.storied.lasts hlasts fun _ hin => hin
    cases hqueued : call.queued with
    | false => rfl
    | true => exact absurd ((hcourse.driven hopening hknown hlive).2 call hcall hqueued) hundriven

/-! ## A collection of which one component is eager and another slow -/

/-- It registers for the news at once. -/
def eager : HostComponent := { name := "eager", prepare := [.subscribe ["news"]] }

/-- The eager one is prepared first; the slow one has to wait for its data. -/
def mixed : List (String × HostComponent) := [("eager", eager), ("slow", slow)]

def gathering (page : Page) : Page :=
  { page with
    registries := mixed.foldl (fun registries (keyword, made) =>
      registries.register Page.rootRegistry keyword (.host fun _ => (made, .normal))) page.registries
    markup := mixed.foldl (fun markup (keyword, _) =>
      (markup.create (.element "p" [("core", keyword)])).1) page.markup }

/-- The page when both were extracted into a collection. -/
def gathered (page : Page) : Page :=
  (((gathering page).createCollection Page.rootScope Page.rootRegistry).1.extract 0 [0, 1]).1

theorem gathered_reached {page : Page} (h : Page.ofOptions {} = .ok page) :
    World.Reached ⟨gathered page, []⟩ := by
  have hwritten : Page.Aside page (gathering page) := ⟨rfl, rfl, rfl, Nat.le_refl _⟩
  have halive : (gathering page).scopes.isAlive Page.rootScope = true := by
    obtain ⟨patterns, -, rfl⟩ := Page.ofOptions_ok h
    rfl
  have hleads : World.Leads ⟨page, []⟩ ⟨gathering page, []⟩ := .single (.act [] (.aside hwritten))
  have hmade := World.Step.act [] (Page.Does.createCollection halive Page.rootRegistry)
  have hfilled := World.Step.act [] (@Page.Does.extract
    ((gathering page).createCollection Page.rootScope Page.rootRegistry).1 0 [0, 1])
  exact ⟨{}, page, h, (hleads.tail hmade).tail hfilled⟩

/-- The news are set. -/
def informed (page : Page) : Page :=
  (page.setSource Page.rootScope (.ofValue "news" (.string "rain"))).1

theorem course_informed {chapters : List Chapter} {before : Page} {live : List Activity}
    {on : Suspension} {run : Run} (hstart : start = ⟨chapters, before, live, .suspended on run⟩) :
    Course start (told start.turns ++ []) ⟨chapters, informed before, live, .suspended on run⟩ := by
  have hrefl := @Course.refl start
  rw [hstart] at hrefl ⊢
  exact hrefl.aside (.act live (.setSource _ _) (Page.feeds_changeScopes before _))

/-- Whether the run waits for the slow component while a drain calls the eager one and lets it in. -/
def callsEarly (page : Page) : Bool :=
  match opening ⟨gathered page, []⟩ 0 [0, 1] with
  | ⟨[first], before, [], .suspended _ _⟩ =>
    first.works.any (fun work => (outcome? first.turns work.2).isNone) &&
      ((Page.beginDrainTurns 1 (informed before)).filterMap Turn.call?).any fun call =>
        call.component == 0 && (call.queued &&
          (call.page.components.get? call.component).any Component.admits)
  | _ => false

/-- The run of the collection waits for the slow component. The eager one is registered by then, and when
the news are set and the queue is driven on it is called and let in. -/
theorem gathered_waits : ∃ page cell first before on run, Page.ofOptions {} = .ok page ∧
    (gathered page).collections.get? 0 = some cell ∧ cell.state = .ready ∧ cell.components = [0, 1] ∧
    opening ⟨gathered page, []⟩ 0 cell.components = ⟨[first], before, [], .suspended on run⟩ ∧
    (∃ work ∈ first.works, outcome? first.turns work.2 = none) ∧
    ∃ call ∈ (Page.beginDrainTurns 1 (informed before)).filterMap Turn.call?,
      call.component = 0 ∧ call.queued = true ∧
        (call.page.components.get? call.component).any Component.admits = true := by
  have hruns : ((Page.ofOptions {}).toOption.any fun page =>
      ((gathered page).collections.get? 0).any (fun cell =>
        cell.components == [0, 1] && cell.state == .ready) && callsEarly page) = true := by
    decide +kernel
  cases hpage : Page.ofOptions {} with
  | error error =>
      rw [hpage] at hruns
      cases hruns
  | ok page =>
      rw [hpage, Except.toOption, Option.any_some, Bool.and_eq_true] at hruns
      obtain ⟨hcollection, hruns⟩ := hruns
      obtain ⟨cell, hcell, hmembers⟩ := (Option.any_eq_true _ _).mp hcollection
      obtain ⟨hcomponents, hready⟩ := Bool.and_eq_true_iff.mp hmembers
      rw [callsEarly, ← beq_iff_eq.mp hcomponents] at hruns
      split at hruns
      · next first before on run hopening =>
          obtain ⟨hslow, hcalled⟩ := Bool.and_eq_true_iff.mp hruns
          obtain ⟨work, hwork, hleft⟩ := List.any_eq_true.mp hslow
          obtain ⟨call, hcall, hthis⟩ := List.any_eq_true.mp hcalled
          obtain ⟨heager, hlet⟩ := Bool.and_eq_true_iff.mp hthis
          obtain ⟨hqueued, hadmits⟩ := Bool.and_eq_true_iff.mp hlet
          exact ⟨page, cell, first, before, on, run, rfl, hcell, beq_iff_eq.mp hready,
            beq_iff_eq.mp hcomponents, hopening, ⟨work, hwork, Option.isNone_iff_eq_none.mp hleft⟩,
            call, hcall, beq_iff_eq.mp heager, hqueued, hadmits⟩
      · cases hruns

/-- Nobody drives the queue on, and somebody calls the eager component by hand. -/
theorem eager_undriven : ∃ page cell conduct incidents call, Page.ofOptions {} = .ok page ∧
    (gathered page).collections.get? 0 = some cell ∧
    Course (opening ⟨gathered page, []⟩ 0 cell.components) incidents conduct ∧
    ¬conduct.Prepared ∧ .called call ∈ incidents ∧ call.component ∈ cell.components ∧
    call.queued = false := by
  obtain ⟨page, cell, first, before, on, run, hpage, hcell, hready, hcomponents, hopening,
    ⟨work, hwork, hleft⟩, -⟩ := gathered_waits
  have hcourse := (course_informed hopening).aside (.start [] (.render 0 none))
  have hearly : ∀ page live, ¬Prepared ⟨[first], page, live, .suspended on run⟩ :=
    fun _ _ => not_prepared rfl hwork hleft
  have hcalled : .called ⟨0, none, false, informed before⟩ ∈
      told (opening ⟨gathered page, []⟩ 0 cell.components).turns ++ [] ++
        [.called ⟨0, none, false, informed before⟩] :=
    List.mem_append_right _ List.mem_cons_self
  have hmember : 0 ∈ cell.components := hcomponents ▸ List.mem_cons_self
  refine ⟨page, cell, _, _, _, hpage, hcell, hcourse, hearly _ _, hcalled, hmember, ?_⟩
  exact triggers_wait_for_barrier (gathered_reached hpage) hcell hready hcourse
    (.inr (by simp [told])) (hearly _ _) _ hcalled hmember

/-- The news are set while the collection is being prepared, and somebody drives the queue on: the eager
component is let in and starts to render, although the slow one is not prepared. -/
theorem eager_triggered_early : ∃ page cell conduct incidents call, Page.ofOptions {} = .ok page ∧
    World.Reached ⟨gathered page, []⟩ ∧ (gathered page).collections.get? 0 = some cell ∧
    cell.state = .ready ∧ Course (opening ⟨gathered page, []⟩ 0 cell.components) incidents conduct ∧
    ¬conduct.Prepared ∧ .called call ∈ incidents ∧ call.component ∈ cell.components ∧
    call.queued = true ∧ (call.page.components.get? call.component).any Component.admits = true := by
  obtain ⟨page, cell, first, before, on, run, hpage, hcell, hready, hcomponents, hopening,
    ⟨work, hwork, hleft⟩, call, hcall, heager, hqueued, hadmits⟩ := gathered_waits
  have hcourse := (course_informed hopening).aside (.start [] (.drain 1))
  have hearly : ∀ page live, ¬Prepared ⟨[first], page, live, .suspended on run⟩ :=
    fun _ _ => not_prepared rfl hwork hleft
  refine ⟨page, cell, _, _, call, hpage, gathered_reached hpage, hcell, hready, hcourse, hearly _ _, ?_,
    ?_, hqueued, hadmits⟩
  · exact List.mem_append_right _ (List.mem_cons_of_mem _ (List.mem_map_of_mem hcall))
  · rw [heager, hcomponents]
    exact List.mem_cons_self

end Conduct

end ReactiveMarkup
