import ReactiveMarkup.Proofs.Page.Calls

/-!
# Who calls on behalf of the queue

That a run calls nobody on behalf of the queue is known from its chapters: its works prepare or render,
and none of them is a job. The chapters can be told for every run that is under way, whoever began it, as
everything that happens elsewhere leaves them as they are. So a job of the queue calls a component only
when somebody drives the queue on.
-/

namespace ReactiveMarkup

open Relation

/-! ## Every run under way has its chapters -/

/-- The run of an activity, if it is one. -/
def Activity.run? : Activity → Option Run
  | .run rest => some rest
  | .mount rest => some rest.run
  | _ => none

/-- The chapters of a run under way can be told. -/
def Run.Storied (run : Run) (page : Page) : Prop :=
  ∃ start id components chapters on, (∀ id ∈ components, id < start.components.size) ∧
    Tells start id components chapters (page, .suspended on run)

/-- None of some turns begins a job of the queue. -/
def Unqueued (turns : List Turn) : Prop := ∀ turn ∈ turns, turn.state.job? = none

section

variable {start page after : Page} {id : CollectionId} {components : List ComponentId}
  {chapters : List Chapter} {reached : Page × Progress Run} {run : Run} {turns : List Turn}

/-- No call is told of turns that begin no job but those that nobody queued. -/
theorem Unqueued.queued_eq_false (h : Unqueued turns) {call : Call} (hcall : .called call ∈ told turns) :
    call.queued = false := by
  obtain ⟨other, hother, hsame⟩ := List.mem_map.mp hcall
  obtain rfl := Incident.called.inj hsame
  obtain ⟨turn, hturn, hturned⟩ := List.mem_filterMap.mp hother
  have hjob := h turn hturn
  rw [Turn.call?] at hturned
  split at hturned
  · rw [← Option.some.inj hturned]
  · next hstate =>
      rw [hstate] at hjob
      cases hjob
  · cases hturned

theorem Tale.unqueued {passed : List Priority} (h : Tale start id components page chapters passed) :
    Unqueued (chapters.flatMap Chapter.turns) := by
  intro turn hturn
  obtain ⟨chapter, hchapter, hin⟩ := List.mem_flatMap.mp hturn
  cases hstate : turn.state with
  | begun task => rfl
  | assigned assignment =>
      have hwork := List.mem_map_of_mem (f := Prod.fst)
        ((h.orderly chapter hchapter).mem_of_assigned hin hstate)
      rw [h.duties chapter hchapter] at hwork
      cases hpriority : chapter.priority? with
      | none =>
          rw [hpriority] at hwork
          obtain ⟨component, -, rfl⟩ := List.mem_map.mp hwork
          rfl
      | some priority =>
          rw [hpriority] at hwork
          obtain ⟨component, -, rfl⟩ := List.mem_map.mp hwork
          rfl

theorem Tells.unqueued (h : Tells start id components chapters reached) :
    Unqueued (chapters.flatMap Chapter.turns) := by
  obtain ⟨page, progress⟩ := reached
  cases progress with
  | suspended on run =>
      obtain ⟨past, last, passed, -, htale, -⟩ := h
      exact htale.unqueued
  | finished result =>
      obtain ⟨passed, htale, -⟩ := h
      exact htale.unqueued

theorem Run.Storied.lasts (h : run.Storied page) (hlasts : Page.Lasts page after) :
    run.Storied after := by
  obtain ⟨start, id, components, chapters, on, hknown, past, last, passed, hchapters, htale, hlater,
    hrun, hcomponents, hsettled, hfailure, hphase⟩ := h
  exact ⟨start, id, components, chapters, on, hknown, past, last, passed, hchapters,
    htale.lasts_trans hlasts, hlater, hrun, hcomponents, hsettled, hfailure, hphase.le hlasts.flights⟩

/-- A run that goes on, with the turns in which it does. -/
def GoesOnStoried (turns : List Turn) (reached : Page × Progress Run) : Prop :=
  Unqueued turns ∧ ∀ on run, reached.2 = .suspended on run → run.Storied reached.1

theorem Tells.storied (h : Tells start id components chapters reached)
    (hknown : ∀ id ∈ components, id < start.components.size)
    (hturns : turns ⊆ chapters.flatMap Chapter.turns) : GoesOnStoried turns reached := by
  refine ⟨fun turn hturn => h.unqueued turn (hturns hturn),
    fun on run hrun => ⟨start, id, components, chapters, on, hknown, ?_⟩⟩
  rw [← hrun]
  exact h

theorem storied_finished (page : Page) (result : Except Error Unit) :
    GoesOnStoried [] (page, .finished result) :=
  ⟨fun _ hturn => absurd hturn List.not_mem_nil, fun _ _ hrun => by cases hrun⟩

namespace Page

theorem storied_beginRun {busy : List ComponentId} (h : page.Tallied busy) (id : CollectionId) :
    GoesOnStoried (page.runTurns id) (page.beginRun id) := by
  cases hcell : page.collections.get? id with
  | none =>
      rw [runTurns, beginRun, hcell]
      exact storied_finished page _
  | some cell =>
      by_cases hready : cell.state = .ready
      · have hknown := (h.gathered id cell hcell).2
        have hturns : page.runTurns id = (page.beginChapters id cell.components).flatMap
            Chapter.turns := by
          obtain ⟨scope, registry, components, state⟩ := cell
          cases hready
          rw [runTurns, hcell]
        rw [hturns]
        exact (tells_beginRun hcell hready hknown).storied hknown fun _ hturn => hturn
      · have hturns : page.runTurns id = [] := by
          rw [runTurns, hcell]
          split
          · next hsame => exact absurd (congrArg Collection.state (Option.some.inj hsame)) hready
          · rfl
        rw [hturns, Conduct.refuses_of_begun hcell hready]
        exact storied_finished page _

theorem storied_resumeRun (h : run.Storied page) :
    GoesOnStoried (page.resumeRunTurns run) (page.resumeRun run) := by
  obtain ⟨start, id, components, chapters, on, hknown, htells⟩ := h
  have hthis := htells
  obtain ⟨past, last, passed, rfl, -⟩ := hthis
  refine (htells.resumeRun hknown).storied hknown fun turn hturn => ?_
  rw [List.flatMap_append]
  refine List.mem_append_right _ ?_
  rw [resumeChapters, List.flatMap_cons, Chapter.goOn, List.append_assoc]
  exact List.mem_append_right _ hturn

end Page

end

/-- The run of the activity that goes on, if it is one. -/
def Stage.run? : Stage → Option Run
  | .finished _ => none
  | .waiting _ activity => activity.run?

/-- What begins or goes on, with what is told of it: a run has its chapters, and the queue calls nobody
unless it is driven on. -/
structure Behaves (incidents : List Incident) (reached : Page × Stage) : Prop where
  storied : ∀ run, reached.2.run? = some run → run.Storied reached.1
  driven : ∀ call, .called call ∈ incidents → call.queued = true → .driven ∈ incidents

section

variable {page after : Page} {incidents : List Incident} {reached : Page × Stage} {turns : List Turn}

theorem behaves_of_driven (hrun : reached.2.run? = none) :
    Behaves (.driven :: incidents) reached where
  storied run hsome := by cases hrun.symm.trans hsome
  driven _ _ _ := List.mem_cons_self

theorem behaves_of_silent (hrun : reached.2.run? = none) : Behaves [] reached where
  storied run hsome := by cases hrun.symm.trans hsome
  driven _ hcall _ := absurd hcall List.not_mem_nil

theorem Unqueued.driven (h : Unqueued turns) {call : Call} (hcall : .called call ∈ told turns)
    (hqueued : call.queued = true) : .driven ∈ told turns := by
  rw [h.queued_eq_false hcall] at hqueued
  cases hqueued

theorem GoesOnStoried.behaves {progress : Progress Run} (h : GoesOnStoried turns (page, progress)) :
    Behaves (told turns) (page, .ofProgress .nothing .run progress) where
  storied run hrun := by
    cases progress with
    | finished result => cases result <;> cases hrun
    | suspended on rest =>
        obtain rfl := Option.some.inj hrun
        exact h.2 on _ rfl
  driven _ := h.1.driven

/-- Ending a mount leaves its run as it is. -/
theorem GoesOnStoried.closeMount {progress : Progress Run} (h : GoesOnStoried turns (page, progress))
    (collection : CollectionId) (roots : List NodeId) (size : Nat) :
    Behaves (told turns) ((page.closeMount collection roots size progress).1,
      .ofProgress (.number size) .mount (page.closeMount collection roots size progress).2) where
  storied run hrun := by
    cases progress with
    | finished result => cases result <;> cases hrun
    | suspended on rest =>
        obtain rfl := Option.some.inj hrun
        exact h.2 on _ rfl
  driven _ := h.1.driven

namespace Page

theorem run?_ofProgress {α : Type} {activity : α → Activity} (hnone : ∀ rest, (activity rest).run? = none)
    (answer : Answer) (progress : Progress α) :
    (Stage.ofProgress answer activity progress).run? = none := by
  cases progress with
  | finished result => cases result <;> rfl
  | suspended on rest => exact hnone rest

theorem run?_stageOfLoad (scope : ScopeId) (reached : Page × Progress Task) :
    (stageOfLoad scope reached).2.run? = none := by
  obtain ⟨after, progress⟩ := reached
  cases progress <;> rfl

theorem run?_evaluateQuery (scope : ScopeId) (wait : Bool) (page : Page) (query : Query Value) :
    (page.evaluateQuery scope wait query).2.run? = none := by
  induction query with
  | done value => rfl
  | lookup id mayWait next ih =>
      rw [evaluateQuery]
      split
      · exact ih _
      · split
        · split <;> rfl
        · exact ih none

theorem run?_startWait (page : Page) (scope : ScopeId) (id : String) :
    (page.startWait scope id).2.run? = none := by
  rw [startWait]
  split <;> rfl

theorem run?_serveFrom (fuel : Nat) (page : Page) (progress : Progress Drain) :
    (serveFrom fuel page progress).2.run? = none := by
  induction fuel generalizing page progress with
  | zero => cases progress <;> rfl
  | succ fuel ih =>
      cases progress with
      | suspended on rest => rfl
      | finished result =>
          rw [serveFrom]
          split
          · rfl
          · split
            · rfl
            · split
              · rfl
              · exact ih _ _

theorem run?_startService (fuel : Nat) (page : Page) : (startService fuel page).2.run? = none := by
  rw [startService]
  split
  · rfl
  · exact run?_serveFrom fuel _ _

theorem run?_resumeService (fuel : Nat) (page : Page) (service : Service) :
    (page.resumeService fuel service).2.run? = none := by
  cases service with
  | draining rest => exact run?_serveFrom fuel _ _
  | sleeping ticket =>
      rw [resumeService]
      split
      · rfl
      · exact run?_startService fuel _

theorem behaves_startMount {busy : List ComponentId} (h : page.Tallied busy)
    (halive : page.scopes.isAlive rootScope = true) (roots : List NodeId) :
    Behaves (told (page.mountTurns roots)) (page.startMount roots) := by
  have hheld : Tends page (roots.foldl holdNode page) := .foldl tends_holdNode page roots
  rw [← (foldl_holdNode page roots).scopes] at halive
  have hcreated := hheld.trans (tends_createCollection halive rootRegistry)
  rw [startMount, beginMount, mountTurns]
  dsimp only
  generalize (roots.foldl holdNode page).createCollection rootScope rootRegistry = created
    at hcreated ⊢
  obtain ⟨created, collection⟩ := created
  have hextracted := hcreated.trans (tends_extract created collection roots)
  dsimp only at hextracted ⊢
  generalize created.extract collection roots = extracted at hextracted ⊢
  obtain ⟨after, error | size⟩ := extracted
  · exact behaves_of_silent rfl
  · have htallied := hextracted.tallied busy h
    exact (storied_beginRun htallied collection).closeMount collection roots size

theorem Opens.behaves {busy : List ComponentId} (h : page.Opens incidents reached)
    (htallied : page.Tallied busy) : Behaves incidents reached := by
  cases h with
  | wait scope id => exact behaves_of_silent (run?_startWait page scope id)
  | evaluation alive wait token => exact behaves_of_silent (run?_evaluateQuery _ wait _ token.ask)
  | prepare component => exact behaves_of_silent (run?_ofProgress (fun _ => rfl) _ _)
  | render component cause =>
      refine ⟨fun run hsome => ?_, fun call hcall hqueued => ?_⟩
      · cases (run?_ofProgress (fun _ => rfl) _ _).symm.trans hsome
      · obtain rfl := Incident.called.inj (List.mem_singleton.mp hcall)
        cases hqueued
  | load alive provider id inbox keep => exact behaves_of_silent (run?_stageOfLoad _ _)
  | run collection => exact (storied_beginRun htallied collection).behaves
  | mount alive roots => exact behaves_startMount htallied alive roots
  | drain fuel => exact behaves_of_driven (run?_ofProgress (fun _ => rfl) _ _)
  | service fuel => exact behaves_of_driven (run?_startService fuel page)

theorem behaves_poll (fuel : Nat) {activity : Activity}
    (h : ∀ run, activity.run? = some run → run.Storied page) :
    Behaves (page.pollTold (fuel + 1) activity) (page.poll (fuel + 1) activity) := by
  cases activity with
  | wait promise =>
      refine behaves_of_silent ?_
      rw [poll]
      split <;> rfl
  | evaluate scope promise next =>
      refine behaves_of_silent ?_
      rw [poll]
      split
      · rfl
      · exact run?_evaluateQuery scope true page _
      · rfl
  | task rest => exact behaves_of_silent (run?_ofProgress (fun _ => rfl) _ _)
  | load scope rest => exact behaves_of_silent (run?_stageOfLoad scope _)
  | run rest => exact (storied_resumeRun (h rest rfl)).behaves
  | mount rest =>
      exact (storied_resumeRun (h rest.run rfl)).closeMount rest.run.collection rest.roots rest.size
  | drain rest => exact behaves_of_driven (run?_ofProgress (fun _ => rfl) _ _)
  | serve service => exact behaves_of_driven (run?_resumeService (fuel + 1) page service)

end Page

end

namespace World

variable {world later : World} {incidents : List Incident} {may : World → Prop}

/-- All runs under way have their chapters. -/
def Storied (world : World) : Prop :=
  ∀ activity ∈ world.live, ∀ run, activity.run? = some run → run.Storied world.page

theorem Storied.lasts {page after : Page} {live others : List Activity} (h : Storied ⟨page, live⟩)
    (hlasts : Page.Lasts page after) (hin : others ⊆ live) : Storied ⟨after, others⟩ :=
  fun activity hactivity run hrun => (h activity (hin hactivity) run hrun).lasts hlasts

theorem Storied.change {page : Page} {others : List Activity} {stage : Stage}
    (h : Storied ⟨page, others⟩) (hrun : ∀ run, stage.run? = some run → run.Storied page) :
    Storied ⟨page, stage.activities ++ others⟩ := by
  intro activity hactivity run hsome
  rcases List.mem_append.mp hactivity with hnew | hold
  · cases stage with
    | finished result => cases hnew
    | waiting awake rest =>
        obtain rfl := List.mem_singleton.mp hnew
        exact hrun run hsome
  · exact h activity hold run hsome

theorem Step.storied (h : Step world later) {busy : List ComponentId}
    (htallied : world.page.Tallied busy) (hlasts : Page.Lasts world.page later.page)
    (hstoried : world.Storied) : later.Storied := by
  cases h with
  | act live does => exact hstoried.lasts hlasts fun _ hin => hin
  | start live begins =>
      obtain ⟨incidents, hopens⟩ := begins.opens
      exact (hstoried.lasts hlasts fun _ hin => hin).change (hopens.behaves htallied).storied
  | poll among fuel =>
      have hbehaves := Page.behaves_poll fuel (hstoried _ (among.mem_iff.mpr List.mem_cons_self))
      exact (hstoried.lasts hlasts fun _ hin =>
        among.mem_iff.mpr (List.mem_cons_of_mem _ hin)).change hbehaves.storied
  | drop among =>
      exact hstoried.lasts hlasts fun _ hin => among.mem_iff.mpr (List.mem_cons_of_mem _ hin)

theorem Reached.storied (h : world.Reached) : world.Storied := by
  obtain ⟨options, page, hopened, hleads⟩ := h
  induction hleads with
  | refl => exact fun _ hin => absurd hin List.not_mem_nil
  | @tail middle later hleads hstep ih =>
      have hright : middle.Right := Reached.right ⟨options, page, hopened, hleads⟩
      exact hstep.storied hright.tallied (hright.step hstep).2 ih

/-- The queue calls nobody unless it is driven on. -/
theorem Move.driven (h : Move world incidents later) {busy : List ComponentId}
    (htallied : world.page.Tallied busy) (hstoried : world.Storied) :
    ∀ call, .called call ∈ incidents → call.queued = true → .driven ∈ incidents := by
  cases h with
  | act live does feeds => exact fun _ hcall => absurd hcall List.not_mem_nil
  | start live opens => exact (opens.behaves htallied).driven
  | poll among fuel =>
      exact (Page.behaves_poll fuel (hstoried _ (among.mem_iff.mpr List.mem_cons_self))).driven
  | drop among =>
      intro call hcall
      obtain ⟨job, -, hsame⟩ := List.mem_map.mp hcall
      cases hsame

end World

end ReactiveMarkup
