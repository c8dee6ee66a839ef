import ReactiveMarkup.Proofs.Page.Chapters
import ReactiveMarkup.Proofs.Page.Lifecycle

/-!
# The protocol of a run

A run is driven on in between other things that happen, so what it does is told here as a course, from the
beginning on, with the chapters that were opened and the turns of their works. Anything may happen in the
meantime, and whatever does happen in the world around it is a step of that world: components are
disposed or rendered by others, the collection is disposed, or asked to run again.

All that a run promises is read off its chapters.
-/

namespace ReactiveMarkup

open Relation

/-- A run on its course: the chapters so far, the page and what else is under way on it, and how far the
run has come. -/
structure Conduct where
  chapters : List Chapter
  page : Page
  live : List Activity
  progress : Progress Run

namespace Conduct

/-- A collection begins to run. -/
def opening (world : World) (id : CollectionId) (components : List ComponentId) : Conduct where
  chapters := world.page.beginChapters id components
  page := (world.page.beginRun id).1
  live := world.live
  progress := (world.page.beginRun id).2

/-- One thing that happens while a collection runs: the run is driven on, or anything else happens. -/
inductive Step : Conduct → Conduct → Prop
  | aside {chapters : List Chapter} {page after : Page} {live others : List Activity}
    {on : Suspension} {run : Run} (step : World.Step ⟨page, live⟩ ⟨after, others⟩) :
    Step ⟨chapters, page, live, .suspended on run⟩ ⟨chapters, after, others, .suspended on run⟩
  | resume {past : List Chapter} {last : Chapter} {page : Page} {live : List Activity}
    {on : Suspension} {run : Run} :
    Step ⟨past ++ [last], page, live, .suspended on run⟩
      ⟨past ++ page.resumeChapters run last, (page.resumeRun run).1, live, (page.resumeRun run).2⟩

/-- Whatever happens while a collection runs. -/
abbrev Leads : Conduct → Conduct → Prop := ReflTransGen Step

/-- The turns of a run. -/
def turns (conduct : Conduct) : List Turn := conduct.chapters.flatMap Chapter.turns

/-- What the works of a run ended with, in the order of the chapters and of the works in them. -/
def outcomes (conduct : Conduct) : List (Except Error Unit) :=
  conduct.chapters.flatMap Chapter.outcomes

end Conduct

/-! ## What else happens -/

namespace World

variable {world later : World}

theorem Right.perm {page : Page} {live others : List Activity} (h : Right ⟨page, live⟩)
    (hperm : live.Perm others) : Right ⟨page, others⟩ :=
  ⟨h.tallied.perm (hperm.flatMap_right _), fun activity hin => h.numbered activity (hperm.mem_iff.mpr hin)⟩

/-- What happens in a world happens as well when one more thing is under way. -/
theorem Step.frame {page after : Page} {live others : List Activity}
    (h : Step ⟨page, live⟩ ⟨after, others⟩) (more : List Activity) :
    ∃ together, Step ⟨page, more ++ live⟩ ⟨after, together⟩ ∧ together.Perm (more ++ others) := by
  cases h with
  | act live does => exact ⟨_, .act _ does, .refl _⟩
  | start live begins =>
      refine ⟨_, .start _ begins, ?_⟩
      rw [← List.append_assoc, ← List.append_assoc]
      exact List.perm_append_comm.append_right live
  | @poll page live rest activity among fuel =>
      have hfirst : (more ++ live).Perm (activity :: (more ++ rest)) :=
        (among.append_left more).trans List.perm_middle
      refine ⟨_, .poll hfirst fuel, ?_⟩
      rw [← List.append_assoc, ← List.append_assoc]
      exact List.perm_append_comm.append_right rest
  | @drop _ _ _ activity among =>
      have hfirst : (more ++ live).Perm (activity :: (more ++ others)) :=
        (among.append_left more).trans List.perm_middle
      exact ⟨_, .drop hfirst, .refl _⟩

end World

namespace Conduct

variable {conduct later : Conduct}

/-- The world a run is in, with the run itself. -/
def world (conduct : Conduct) : World where
  page := conduct.page
  live := (Stage.ofProgress .nothing .run conduct.progress).activities ++ conduct.live

theorem Step.right (h : Step conduct later) (hright : conduct.world.Right) :
    later.world.Right ∧ Page.Lasts conduct.page later.page := by
  cases h with
  | aside step =>
      obtain ⟨together, hstep, hperm⟩ := step.frame _
      obtain ⟨hlater, hlasts⟩ := hright.step hstep
      exact ⟨hlater.perm hperm, hlasts⟩
  | resume => exact hright.step (.poll (.refl _) 0)

variable {start : Page} {id : CollectionId} {components : List ComponentId}

/-- What is known of a run on its course. -/
structure Known (start : Page) (id : CollectionId) (components : List ComponentId)
    (conduct : Conduct) : Prop where
  right : conduct.world.Right
  tells : Tells start id components conduct.chapters (conduct.page, conduct.progress)

theorem Known.step (h : conduct.Known start id components) (hstep : Step conduct later)
    (hknown : ∀ id ∈ components, id < start.components.size) : later.Known start id components := by
  obtain ⟨hright, hlasts⟩ := hstep.right h.right
  refine ⟨hright, ?_⟩
  have htells := h.tells
  cases hstep with
  | aside step =>
      obtain ⟨past, last, passed, hchapters, htale, hlater, hrun, hcomponents, hsettled, hfailure,
        hphase⟩ := htells
      exact ⟨past, last, passed, hchapters, htale.lasts_trans hlasts, hlater, hrun, hcomponents,
        hsettled, hfailure, hphase.le hlasts.flights⟩
  | resume => exact htells.resumeRun hknown

theorem Known.leads (h : conduct.Known start id components) (hleads : Leads conduct later)
    (hknown : ∀ id ∈ components, id < start.components.size) : later.Known start id components := by
  induction hleads with
  | refl => exact h
  | tail _ hstep ih => exact ih.step hstep hknown

theorem known_opening {world : World} (h : world.Right) {cell : Collection}
    (hcell : world.page.collections.get? id = some cell) (hready : cell.state = .ready) :
    (opening world id cell.components).Known world.page id cell.components :=
  ⟨(h.step (.start world.live (.run id))).1,
    tells_beginRun hcell hready (h.tallied.gathered id cell hcell).2⟩

/-- After a disposal no chapter is opened. -/
theorem Step.length_of_disposed (h : Step conduct later) (hconduct : conduct.Known start id components)
    (hdisposed : conduct.page.isCollectionDisposed id = true) :
    later.chapters.length = conduct.chapters.length := by
  have htells := hconduct.tells
  cases h with
  | aside step => rfl
  | @resume past last page live on run =>
      obtain ⟨-, -, -, -, -, -, hrun, -⟩ := htells
      have hstill := (Page.played_resumePhase page run.phase).lasts.isCollectionDisposed hdisposed
      have hnone : (page.resumePhase run.phase).1.continueChapters
          { run with phase := (page.resumePhase run.phase).2.1 } = [] := by
        rw [Page.continueChapters]
        split
        · dsimp only
          rw [hrun]
          cases run.later with
          | nil => rfl
          | cons priority later => rw [Page.classChapters, if_pos hstill]
        · rfl
      have hlast : page.resumeChapters run last = [last.goOn page run.phase] :=
        congrArg (last.goOn page run.phase :: ·) hnone
      rw [hlast, List.length_append, List.length_append]
      rfl

end Conduct

/-! ## What a run promises -/

section

variable {start page : Page} {id : CollectionId} {components : List ComponentId}
  {chapters : List Chapter} {chapter : Chapter} {passed : List Priority} {component : ComponentId}

/-- The components that are rendered in a chapter are those of its class. -/
theorem Tale.mem_rendered (h : Tale start id components page chapters passed)
    (hchapter : chapter ∈ chapters)
    (hcomponent : component ∈ chapter.turns.filterMap Turn.rendered?) :
    ∃ priority ∈ passed, chapter.priority? = some priority ∧
      component ∈ start.ofPriority priority components := by
  obtain ⟨turn, hturn, hrendered⟩ := List.mem_filterMap.mp hcomponent
  have hwork := List.mem_map_of_mem (f := Prod.fst)
    ((h.orderly chapter hchapter).mem_of_assigned hturn (Turn.state_of_rendered hrendered))
  rw [h.duties chapter hchapter] at hwork
  have hplanned : chapter.priority? ∈ none :: passed.map some := h.plan ▸ List.mem_map_of_mem hchapter
  cases hpriority : chapter.priority? with
  | none =>
      rw [hpriority] at hwork
      obtain ⟨other, -, hsame⟩ := List.mem_map.mp hwork
      cases hsame
  | some priority =>
      rw [hpriority] at hwork hplanned
      obtain ⟨other, hother, hsame⟩ := List.mem_map.mp hwork
      obtain rfl := Assignment.render.inj hsame
      refine ⟨priority, ?_, rfl, hother⟩
      rcases List.mem_cons.mp hplanned with hnone | hpassed
      · cases hnone
      · obtain ⟨same, hin, hsome⟩ := List.mem_map.mp hpassed
        exact Option.some.inj hsome ▸ hin

theorem mem_ofPriority {priority : Priority} (h : component ∈ start.ofPriority priority components) :
    component ∈ components ∧
      ∃ cell, start.components.get? component = some cell ∧ cell.priority = priority := by
  obtain ⟨hin, hany⟩ := List.mem_filter.mp h
  obtain ⟨cell, hcell, hpriority⟩ := (Option.any_eq_true _ _).mp hany
  exact ⟨hin, cell, hcell, beq_iff_eq.mp hpriority⟩

/-- No component is rendered twice. -/
theorem Tale.nodup_rendered (h : Tale start id components page chapters passed)
    (hnodup : components.Nodup) (hpassed : passed.Nodup) :
    (chapters.flatMap fun chapter => chapter.turns.filterMap Turn.rendered?).Nodup := by
  refine List.nodup_flatMap.mpr ⟨fun chapter hchapter => ?_, ?_⟩
  · refine (h.orderly chapter hchapter).nodup_rendered ?_
    rw [h.duties chapter hchapter]
    cases chapter.priority? with
    | none => exact hnodup.map fun _ _ hsame => Assignment.prepare.inj hsame
    | some priority => exact (hnodup.filter _).map fun _ _ hsame => Assignment.render.inj hsame
  · have hdistinct : (chapters.map Chapter.priority?).Nodup := by
      rw [h.plan]
      refine List.nodup_cons.mpr ⟨fun hin => ?_, hpassed.map (Option.some_injective _)⟩
      obtain ⟨priority, -, hnone⟩ := List.mem_map.mp hin
      cases hnone
    refine (List.pairwise_map.mp hdistinct).imp_of_mem fun {first last} hfirst hlast hne => ?_
    intro component hone htwo
    obtain ⟨priority, -, hpriority, hin⟩ := h.mem_rendered hfirst hone
    obtain ⟨other, -, hother, hin'⟩ := h.mem_rendered hlast htwo
    obtain ⟨-, cell, hcell, rfl⟩ := mem_ofPriority hin
    obtain ⟨-, same, hsame, rfl⟩ := mem_ofPriority hin'
    rw [hcell] at hsame
    obtain rfl := Option.some.inj hsame
    exact hne (hpriority.trans hother.symm)

/-- A component of a class that has passed had its turn. -/
theorem Tale.renders (h : Tale start id components page chapters passed)
    (hsettled : ∀ chapter ∈ chapters, chapter.Settled) {priority : Priority} (hpassed : priority ∈ passed)
    (hcomponent : component ∈ start.ofPriority priority components) :
    ∃ chapter ∈ chapters, ∃ number result turn, (.render component, number) ∈ chapter.works ∧
      Life (.assigned (.render component)) (turnsOf number chapter.turns) (.done result) ∧
      turn ∈ turnsOf number chapter.turns ∧ turn.state = .assigned (.render component) ∧
      ∃ cell, turn.page.components.get? component = some cell ∧
        (cell.disposed = false → cell.isBusy = false → turn.Enters component) := by
  have hplanned : some priority ∈ chapters.map Chapter.priority? := by
    rw [h.plan]
    exact List.mem_cons_of_mem _ (List.mem_map_of_mem hpassed)
  obtain ⟨chapter, hchapter, hpriority⟩ := List.mem_map.mp hplanned
  have hduty : .render component ∈ chapter.works.map Prod.fst := by
    rw [h.duties chapter hchapter, hpriority]
    exact List.mem_map_of_mem hcomponent
  obtain ⟨⟨assignment, number⟩, hwork, rfl⟩ := List.mem_map.mp hduty
  obtain ⟨result, hlife⟩ := hsettled chapter hchapter _ hwork
  rcases hlife.begins with ⟨-, hfresh⟩ | ⟨first, rest, hturns, hfirst, -, -⟩
  · cases hfresh
  · have hturn : first ∈ turnsOf number chapter.turns := hturns ▸ List.mem_cons_self
    obtain ⟨-, cell, hcell, -⟩ := mem_ofPriority hcomponent
    obtain ⟨found, hfound, -⟩ :=
      (h.found chapter hchapter first (List.mem_filter.mp hturn).1).cells component cell hcell
    refine ⟨chapter, hchapter, number, result, first, hwork, hlife, hturn, hfirst, found, hfound,
      fun hkept hidle => ⟨hfirst, found, hfound, ?_⟩⟩
    rw [Component.admits, hkept, hidle]
    rfl

end

namespace Conduct

/-- What a run promises on its course. It began on a page `start` to run a collection `id` with its
components. -/
structure Promises (start : Page) (id : CollectionId) (components : List ComponentId)
    (conduct : Conduct) : Prop where
  /-- All components are prepared, then class after class is rendered. -/
  plan : ∃ passed, passed <+: Priority.runOrder ∧
    conduct.chapters.map Chapter.priority? = none :: passed.map some
  /-- The works of a chapter are those of its components, in their order. -/
  duties : ∀ chapter ∈ conduct.chapters,
    chapter.works.map Prod.fst = start.duties components chapter.priority?
  orderly : ∀ chapter ∈ conduct.chapters, chapter.Orderly
  /-- No chapter is opened before every work of the chapters before is over. -/
  barrier : ∀ chapter ∈ conduct.chapters.dropLast, chapter.Settled
  /-- No render of a component is started twice. -/
  once : (conduct.turns.filterMap Turn.rendered?).Nodup
  /-- Only components of a class are rendered. -/
  classed : ∀ component ∈ conduct.turns.filterMap Turn.rendered?, component ∈ components ∧
    ∃ cell, start.components.get? component = some cell ∧ cell.priority ≠ .none
  /-- No class is opened when the collection is disposed. -/
  kept : ∀ chapter ∈ conduct.chapters, chapter.priority?.isSome = true →
    chapter.opened.isCollectionDisposed id = false

/-- What a run has done when it is over. -/
structure Fulfils (start : Page) (id : CollectionId) (components : List ComponentId)
    (conduct : Conduct) (result : Except Error Unit) : Prop where
  settled : ∀ chapter ∈ conduct.chapters, chapter.Settled
  /-- It ends with the first error there was, in the order of the chapters and of the components. -/
  result : result = resultOf (conduct.outcomes.findSome? errorOf?)
  /-- If the collection was not disposed every component of a class was rendered to the end, unless it
  was disposed or busy when it had its first turn. -/
  rendered : conduct.page.isCollectionDisposed id = false → ∀ component ∈ components,
    ∀ cell, start.components.get? component = some cell → cell.priority ≠ .none →
      ∃ chapter ∈ conduct.chapters, ∃ number result turn,
        (.render component, number) ∈ chapter.works ∧
        Life (.assigned (.render component)) (turnsOf number chapter.turns) (.done result) ∧
        turn ∈ turnsOf number chapter.turns ∧ turn.state = .assigned (.render component) ∧
        ∃ found, turn.page.components.get? component = some found ∧
          (found.disposed = false → found.isBusy = false → turn.Enters component)

variable {start : Page} {id : CollectionId} {components : List ComponentId} {conduct : Conduct}

theorem Known.tale (h : conduct.Known start id components) : ∃ passed,
    Tale start id components conduct.page conduct.chapters passed ∧ passed <+: Priority.runOrder ∧
      ∀ chapter ∈ conduct.chapters.dropLast, chapter.Settled := by
  obtain ⟨-, htells⟩ := h
  obtain ⟨chapters, page, live, progress⟩ := conduct
  cases progress with
  | suspended on run =>
      obtain ⟨past, last, passed, rfl, htale, hlater, -, -, hsettled, -⟩ := htells
      refine ⟨passed, htale, ⟨_, hlater⟩, ?_⟩
      rw [List.dropLast_concat]
      exact hsettled
  | finished result =>
      obtain ⟨passed, htale, hpassed, hsettled, -⟩ := htells
      exact ⟨passed, htale, hpassed, fun chapter hin => hsettled chapter (List.dropLast_subset _ hin)⟩

theorem Known.promises (h : conduct.Known start id components) (hnodup : components.Nodup) :
    conduct.Promises start id components := by
  obtain ⟨passed, htale, hpassed, hsettled⟩ := h.tale
  have hturns : conduct.turns.filterMap Turn.rendered? =
      conduct.chapters.flatMap fun chapter => chapter.turns.filterMap Turn.rendered? :=
    List.filterMap_flatMap ..
  have horder : Priority.runOrder.Nodup := by decide
  constructor
  case plan => exact ⟨passed, hpassed, htale.plan⟩
  case duties => exact htale.duties
  case orderly => exact htale.orderly
  case barrier => exact hsettled
  case once =>
    rw [hturns]
    exact htale.nodup_rendered hnodup (horder.sublist hpassed.sublist)
  case classed =>
    intro component hin
    rw [hturns] at hin
    obtain ⟨chapter, hchapter, hrendered⟩ := List.mem_flatMap.mp hin
    obtain ⟨priority, hpriority, -, hclass⟩ := htale.mem_rendered hchapter hrendered
    obtain ⟨hcomponent, cell, hcell, rfl⟩ := mem_ofPriority hclass
    refine ⟨hcomponent, cell, hcell, fun hnone => ?_⟩
    have hrun := hpassed.subset hpriority
    rw [hnone] at hrun
    exact absurd hrun (by decide)
  case kept => exact htale.opened

theorem Known.fulfils (h : conduct.Known start id components) {result : Except Error Unit}
    (hresult : conduct.progress = .finished result) :
    conduct.Fulfils start id components result := by
  obtain ⟨-, htells⟩ := h
  obtain ⟨chapters, page, live, progress⟩ := conduct
  cases hresult
  obtain ⟨passed, htale, -, hsettled, hfirst, hall⟩ := htells
  refine ⟨hsettled, hfirst, fun hkept component hin cell hcell hclass => ?_⟩
  have hpriority : cell.priority ∈ passed := by
    rw [hall hkept]
    cases hsame : cell.priority with
    | none => exact absurd hsame hclass
    | high => decide
    | normal => decide
    | low => decide
  refine htale.renders hsettled hpriority (List.mem_filter.mpr ⟨hin, ?_⟩)
  rw [hcell, Option.any_some]
  exact beq_self_eq_true _

/-- A collection that began to run refuses to run again, whatever happens. -/
theorem refuses_of_begun {page : Page} {cell : Collection}
    (hcell : page.collections.get? id = some cell) (hbegun : cell.state ≠ .ready) :
    page.beginRun id = (page, .finished (.error
      (if page.isCollectionDisposed id then .collectionDisposed else .alreadyRun))) := by
  rw [Page.beginRun, Page.isCollectionDisposed, hcell, Option.any_some]
  cases hstate : cell.state with
  | ready => exact absurd hstate hbegun
  | running => simp [hstate]
  | ran => simp [hstate]
  | disposed => simp [hstate]

/-- A collection that is allowed to run has begun to. -/
theorem begun_beginRun {page : Page} {cell : Collection}
    (hcell : page.collections.get? id = some cell) (hready : cell.state = .ready) :
    ∃ later, (page.beginRun id).1.collections.get? id = some later ∧ later.state ≠ .ready := by
  have hchanged : (page.changeCollection id fun cell =>
      { cell with state := .running }).collections.get? id = some { cell with state := .running } := by
    rw [Page.changeCollection, Arena.get?_modify, if_pos rfl]
    exact congrArg (Option.map _) hcell
  have hheld := ((Page.tends_holdCollection (page.changeCollection id fun cell =>
    { cell with state := .running }) id).trans
      (.foldl Page.tends_holdComponent _ cell.components)).lasts
  obtain ⟨hphase, hnumbered⟩ := Page.accounts_beginPhase (page.running id cell.components)
    (cell.components.map .prepare)
  have hrun := (@Page.goesOn_continueRun _
    { collection := id, components := cell.components, phase := _, later := Priority.runOrder }
    hnumbered ((page.running id cell.components).beginPhase
      (cell.components.map .prepare)).2.2).1.lasts
  obtain ⟨later, hlater, hbecomes⟩ := ((hheld.trans hphase.lasts).trans hrun).collections id _ hchanged
  refine ⟨later, ?_, hbecomes.begun fun hready => by cases hready⟩
  rw [Page.beginRun, hcell]
  dsimp only
  rw [hready]
  exact hlater

/-- A collection runs in order, whatever its components do and whatever happens in the meantime. All of
them are prepared before any is rendered, and no class is rendered before the classes before it are done;
no component is rendered twice, and none that has no class. When the run is over its result is the first
error there was, and unless the collection was disposed every component of a class has been rendered. When
it is disposed no class follows any more. And it never runs again. -/
theorem run_in_order {world : World} (h : world.Reached) {cell : Collection}
    (hcell : world.page.collections.get? id = some cell) (hready : cell.state = .ready) :
    (∀ conduct, Leads (opening world id cell.components) conduct →
      conduct.Promises world.page id cell.components ∧
      (∀ result, conduct.progress = .finished result →
        conduct.Fulfils world.page id cell.components result) ∧
      (conduct.page.isCollectionDisposed id = true → ∀ later, Leads conduct later →
        later.chapters.length = conduct.chapters.length)) ∧
    ∀ later, World.Leads ⟨(world.page.startRun id).1,
        (world.page.startRun id).2.activities ++ world.live⟩ later →
      later.page.beginRun id = (later.page, .finished (.error
        (if later.page.isCollectionDisposed id then .collectionDisposed else .alreadyRun))) := by
  have hright := h.right
  obtain ⟨hnodup, hknown⟩ := hright.tallied.gathered id cell hcell
  refine ⟨fun conduct hconduct => ?_, fun later hlater => ?_⟩
  · have hthis := (known_opening hright hcell hready).leads hconduct hknown
    refine ⟨hthis.promises hnodup, fun result hresult => hthis.fulfils hresult,
      fun hdisposed later hlater => ?_⟩
    have hboth : later.page.isCollectionDisposed id = true ∧
        later.chapters.length = conduct.chapters.length := by
      induction hlater with
      | refl => exact ⟨hdisposed, rfl⟩
      | @tail middle later hmiddle hstep ih =>
          have hbetween := hthis.leads hmiddle hknown
          exact ⟨(hstep.right hbetween.right).2.isCollectionDisposed ih.1,
            (hstep.length_of_disposed hbetween ih.1).trans ih.2⟩
    exact hboth.2
  · obtain ⟨begun, hbegun, hstate⟩ := begun_beginRun hcell hready
    have hstarted := (hright.step (.start world.live (@Page.Begins.run world.page id))).1
    obtain ⟨last, hlast, hbecomes⟩ := (hlater.lasts hstarted).2.collections id begun hbegun
    exact refuses_of_begun hlast (hbecomes.begun hstate)

/-! ## A run that has to wait and fails -/

/-- It waits for data before it is ready to be rendered, and then it fails. -/
def slow : HostComponent :=
  { name := "slow", prepare := [.await "data"], render := [.fail (.provider "gone")] }

/-- The slow one is of low priority, a plain one of high priority, an idle one of none. -/
def cast : List (String × HostComponent × Priority) :=
  [("slow", slow, .low), ("plain", { name := "plain" }, .high), ("idle", { name := "idle" }, .none)]

/-- A page with an element for each of them. -/
def written (page : Page) : Page :=
  { page with
    registries := cast.foldl (fun registries (keyword, made) =>
      registries.register Page.rootRegistry keyword (.host fun _ => made)) page.registries
    markup := cast.foldl (fun markup (keyword, _) =>
      (markup.create (.element "p" [("core", keyword)])).1) page.markup }

/-- The page when the elements were extracted into a collection. -/
def staged (page : Page) : Page :=
  (((written page).createCollection Page.rootScope Page.rootRegistry).1.extract 0 [0, 1, 2]).1

theorem staged_reached {page : Page} (h : Page.ofOptions {} = .ok page) :
    World.Reached ⟨staged page, []⟩ := by
  have hwritten : Page.Aside page (written page) := ⟨rfl, rfl, rfl, Nat.le_refl _⟩
  have halive : (written page).scopes.isAlive Page.rootScope = true := by
    obtain ⟨patterns, -, rfl⟩ := Page.ofOptions_ok h
    rfl
  have hleads : World.Leads ⟨page, []⟩ ⟨written page, []⟩ := .single (.act [] (.aside hwritten))
  have hmade := World.Step.act [] (Page.Does.createCollection halive Page.rootRegistry)
  have hfilled := World.Step.act [] (@Page.Does.extract
    ((written page).createCollection Page.rootScope Page.rootRegistry).1 0 [0, 1, 2])
  exact ⟨{}, page, h, (hleads.tail hmade).tail hfilled⟩

/-- Whether the run waits for the slow one and, when the data is there, renders the plain one first and ends
with the error of the slow one. -/
def endsInOrder (page : Page) : Bool :=
  match opening ⟨staged page, []⟩ 0 [0, 1, 2] with
  | ⟨[last], before, _, .suspended _ run⟩ =>
    match (before.openGate "data").resumeRun run with
    | (_, .finished (.error (.provider message))) => message == "gone" &&
      (((before.openGate "data").resumeChapters run last).flatMap Chapter.turns).filterMap
        Turn.rendered? == [1, 0]
    | _ => false
  | _ => false

/-- While the data is missing nothing is rendered. When it is there the plain component is rendered first;
the slow one fails, and the idle one is left alone. -/
theorem slow_run_in_order : ∃ page conduct, Page.ofOptions {} = .ok page ∧
    Leads (opening ⟨staged page, []⟩ 0 [0, 1, 2]) conduct ∧
    conduct.progress = .finished (.error (.provider "gone")) ∧
    conduct.turns.filterMap Turn.rendered? = [1, 0] ∧
    conduct.Promises (staged page) 0 [0, 1, 2] ∧
    conduct.Fulfils (staged page) 0 [0, 1, 2] (.error (.provider "gone")) := by
  have hruns : ((Page.ofOptions {}).toOption.any fun page =>
      ((staged page).collections.get? 0).any (fun cell =>
        cell.components == [0, 1, 2] && cell.state == .ready) && endsInOrder page) = true := by
    decide +kernel
  cases hpage : Page.ofOptions {} with
  | error error =>
      rw [hpage] at hruns
      cases hruns
  | ok page =>
      rw [hpage, Except.toOption, Option.any_some, Bool.and_eq_true] at hruns
      obtain ⟨hcollection, hruns⟩ := hruns
      obtain ⟨cell, hcell, hmembers⟩ := (Option.any_eq_true _ _).mp hcollection
      obtain ⟨hcomponents, hready⟩ := Bool.and_eq_true_iff.mp hmembers
      obtain ⟨hcourse, -⟩ := run_in_order (staged_reached hpage) hcell (beq_iff_eq.mp hready)
      rw [beq_iff_eq.mp hcomponents] at hcourse
      rw [endsInOrder] at hruns
      split at hruns
      · next last before live on run hopening =>
          rw [hopening] at hcourse
          split at hruns
          · next after message hresume =>
              obtain ⟨hmessage, hrendered⟩ := Bool.and_eq_true_iff.mp hruns
              obtain rfl := beq_iff_eq.mp hmessage
              have hlist := beq_iff_eq.mp hrendered
              have hopened : before.Does (before.openGate "data") :=
                .aside ⟨rfl, rfl, rfl, Nat.le_refl _⟩
              have haside := @Step.aside [last] _ _ _ _ on run (.act live hopened)
              have hleads := (ReflTransGen.single haside).tail (@Step.resume [] last _ _ _ _)
              rw [hresume] at hleads
              obtain ⟨hpromises, hfulfils, -⟩ := hcourse _ hleads
              exact ⟨page, ⟨_, _, _, _⟩, rfl, hopening ▸ hleads, rfl, hlist, hpromises,
                hfulfils _ rfl⟩
          · cases hruns
      · cases hruns

end Conduct

end ReactiveMarkup
