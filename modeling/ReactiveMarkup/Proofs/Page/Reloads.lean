import ReactiveMarkup.Proofs.Page.Findings
import ReactiveMarkup.Proofs.Page.Upholding

/-!
# Reloads

A load command asks its provider again whenever a source is set that its parameters read. Here is said when
its data is that of the parameters there are now: after everything that happens in a world, when nobody is
left in the queue who would render the command, the last load that started was given what the parameters
come to, unless a reload was lost since it started. A reload is lost when a job of the queue finds the
command busy, or is dropped before it begins.

The command is watched from one move of the world to the next. What happens in a move keeps the watch, so
every course of moves does.
-/

namespace ReactiveMarkup

namespace World

/-- The jobs of all that is under way that have not begun. -/
def jobs (world : World) : List Job := world.live.flatMap Activity.jobs

theorem jobs_activities (stage : Stage) (live : List Activity) :
    (stage.activities ++ live).flatMap Activity.jobs = stage.jobs ++ live.flatMap Activity.jobs := by
  cases stage <;> rfl

end World

namespace Watch

open Page

variable {watch : Watch} {page after : Page} {world later : World} {given : Option Fields}
  {jobs : List Job} {incidents : List Incident}

/-! ## What a host does -/

theorem still_record (component : ComponentId) (page : Page) (event : Event) :
    Still component page (page.record event) :=
  .of_tends (tends_record page event) rfl rfl fun h => h

theorem still_dispose (component : ComponentId) (page : Page) : Still component page page.dispose := by
  have hunmounted : Still component page { page with mounts := [] } :=
    .of_tends (tends_aside ⟨rfl, rfl, rfl, Nat.le_refl _⟩) rfl rfl fun h => h
  have hdisposed := hunmounted.trans (.foldl still_disposeCollection _ page.mounts)
  have hreleased := hdisposed.trans (.foldl still_releaseCollection _ page.mounts)
  have hclosed := hreleased.trans (still_closeQueue _)
  exact hclosed.trans (still_heeds (Scopes.minds_dispose _ rootScope).heeds
    (Scopes.sameSources_dispose _ rootScope))

/-- Whatever a host does at once, when it has a hold on the component and takes no job out of the queue. -/
theorem Upheld.does (h : watch.Upheld given page jobs) (hdoes : page.Does after)
    (hfeeds : page.Feeds after) (hheld : watch.component ∈ page.heldComponents) :
    watch.Upheld given after jobs := by
  cases hdoes with
  | aside aside => exact h.still (.of_aside aside hfeeds fun _ _ _ => hheld)
  | createScope alive settings =>
      exact h.still (still_heeds (Scopes.heeds_grow alive settings)
        ((Scopes.sameSources_grow page.scopes _ settings).trans (.of_scopes rfl)))
  | holdScope alive => exact h.still (still_holdScope alive)
  | releaseScope scope => exact h.still (still_releaseScope page scope)
  | disposeScope scope =>
      exact h.still (still_heeds (Scopes.minds_dispose page.scopes scope).heeds
        (Scopes.sameSources_dispose page.scopes scope))
  | setSource scope source => exact h.setSource scope source
  | previewSource scope source =>
      exact (h.still (still_record watch.component page _)).setSource scope source
  | receiveSource scope source =>
      exact h.changeScopes (Scopes.minds_receive page.scopes scope source) fun hsturdy _ hname =>
        Scopes.heralds_receive watch.scope hname watch.component hsturdy scope source
  | putSource scope source =>
      exact h.changeScopes (Scopes.minds_putAndAnnounce page.scopes scope source)
        fun hsturdy _ hname =>
          Scopes.heralds_putAndAnnounce watch.scope hname watch.component hsturdy scope source
  | createHandler name actions =>
      have hminds : Scopes.Minds page.scopes
          { page.scopes with hosts := page.scopes.hosts.push { name, actions } } :=
        Scopes.minds_of_scopes rfl rfl
      exact h.still (still_heeds hminds.heeds (.of_scopes rfl))
  | addHandler scope id handler onlyHere =>
      refine h.still (still_changeScopes ?_ ?_)
      · split
        · exact Scopes.minds_addLocalHandler _ scope id (fun _ hsame => by cases hsame)
            fun _ hsame => by cases hsame
        · exact Scopes.minds_addHandler _ scope id (fun _ hsame => by cases hsame)
            fun _ hsame => by cases hsame
      · exact Scopes.sameSources_register page.scopes scope id (.host handler) onlyHere
  | removeHandler scope id handler =>
      exact h.still (still_changeScopes (Scopes.minds_removeHandler _ scope id
        (fun _ hsame => by cases hsame) fun _ hsame => by cases hsame)
        (Scopes.sameSources_removeHandler page.scopes scope id (.host handler)))
  | createComponent there node host priority =>
      exact h.still (still_createComponent there node host priority)
  | createCommand there registry keyword node =>
      exact h.still (still_createCommand there registry keyword node)
  | createCollection alive registry => exact h.still (still_createCollection alive registry)
  | extract collection roots =>
      exact h.still (still_extract page watch.component collection roots).1
  | subscribe component ids => exact h.still (still_subscribe page component ids)
  | disposeComponent component => exact h.still (still_disposeComponent page component)
  | disposeCollection collection => exact h.still (still_disposeCollection page collection)
  | releaseCollection collection => exact h.still (still_releaseCollection page collection)
  | dispose => exact h.still (still_dispose watch.component page)

/-! ## What happens in a world -/

theorem Upheld.move (h : watch.Upheld given world.page world.jobs) (hright : world.Right)
    (hmove : World.Move world incidents later) (hheld : watch.component ∈ world.page.heldComponents) :
    watch.Upheld (incidents.foldl watch.hears given) later.page later.jobs := by
  cases hmove with
  | act live does feeds => exact h.does does feeds hheld
  | start live opens =>
      rw [World.jobs, World.jobs_activities]
      exact h.opens opens hheld
  | poll among fuel =>
      rw [World.jobs, World.jobs_activities]
      exact Upheld.poll fuel (h.perm (among.flatMap_right Activity.jobs))
        (hright.numbered _ (among.mem_iff.mpr List.mem_cons_self))
  | drop among => exact Upheld.drop _ (h.perm (among.flatMap_right Activity.jobs))

/-- Somebody has a hold on the component. -/
def Held (watch : Watch) (world : World) : Prop := watch.component ∈ world.page.heldComponents

theorem Upheld.course (h : watch.Upheld none world.page world.jobs) (hright : world.Right)
    (hcourse : World.Course watch.Held world incidents later) :
    later.Right ∧ watch.Held later ∧
      watch.Upheld (incidents.foldl watch.hears none) later.page later.jobs := by
  induction hcourse with
  | refl allowed => exact ⟨hright, allowed, h⟩
  | tail _ move allowed ih =>
      obtain ⟨hmiddle, hheld, hupheld⟩ := ih
      rw [List.foldl_append]
      exact ⟨(hmiddle.step move.step).1, allowed, hupheld.move hmiddle move hheld⟩

/-! ## The last load -/

/-- What must not happen after a load for its data to stay that of the parameters: the command is not called
in vain by a job, and no job that would call it is dropped. It is not let in either, as that is a load of
its own. -/
def Keeps (watch : Watch) : Incident → Prop
  | .called call => call.component = watch.component → call.isLetIn = false ∧ call.queued = false
  | .dropped (.render component _) => component ≠ watch.component
  | _ => True

/-- A call that starts a load: the command is let in while its scope lives. -/
structure Loads (watch : Watch) (call : Call) : Prop where
  component : call.component = watch.component
  letIn : call.isLetIn = true
  alive : call.page.scopes.isAlive watch.scope = true

/-- Starts a load that is given some parameters. -/
def startLoad (watch : Watch) (given : Fields) (page : Page) : Page × Progress Task :=
  let entered := (page.holdComponent watch.component).changeComponent watch.component fun cell =>
    { cell with inFlight := cell.inFlight + 1 }
  let (asked, load) := (entered.holdScope watch.scope).ask {
    receiver := .command watch.component watch.scope
    provider := watch.command.provider
    id := watch.command.name
    parameters := given
    attempts := some (Attempts.ofLimit watch.command.retries) }
  let (reached, progress) := asked.continueLoad load
  reached.closeTask (some watch.component) true progress

/-- A load is given what the parameters come to when it starts. -/
theorem Loads.render {call : Call} (h : watch.Loads call)
    (hthere : ∃ cell, call.page.components.get? watch.component = some cell ∧
      cell.scope = watch.scope ∧ cell.behaviour = .load watch.command) :
    call.page.render call.component call.cause =
      watch.startLoad (watch.parameters call.page) call.page := by
  obtain ⟨cell, hcell, hscope, hbehaviour⟩ := hthere
  have hadmits : cell.admits = true := by
    have hletIn := h.letIn
    rwa [Call.isLetIn, h.component, hcell] at hletIn
  have halive : ((call.page.holdComponent watch.component).changeComponent watch.component
      fun cell => { cell with inFlight := cell.inFlight + 1 }).scopes.isAlive cell.scope = true :=
    hscope ▸ h.alive
  rw [h.component, Page.render, hcell]
  dsimp only
  rw [if_pos hadmits, beginRender, hbehaviour]
  dsimp only
  rw [if_pos halive, hscope]
  rfl

theorem hears_of_keeps {incident : Incident} (h : watch.Keeps incident) :
    watch.hears given incident = given := by
  cases incident with
  | called call =>
      rw [hears]
      split
      · next hthis =>
          obtain ⟨hrefused, hunqueued⟩ := h hthis
          rw [hrefused, hunqueued]
          rfl
      · rfl
  | driven => rfl
  | dropped job =>
      cases job with
      | host steps => rfl
      | render component cause => exact if_neg h

theorem foldl_hears_of_keeps (h : ∀ incident ∈ incidents, watch.Keeps incident) :
    incidents.foldl watch.hears given = given := by
  induction incidents with
  | nil => rfl
  | cons incident rest ih =>
      rw [List.foldl_cons, hears_of_keeps (h incident List.mem_cons_self)]
      exact ih fun other hother => h other (List.mem_cons_of_mem _ hother)

/-- Once nobody waits to render a load command, its last load was given what its parameters come to now, if
no job found the command busy since, and none for it was dropped. -/
theorem last_load_current (hreached : world.Reached)
    (hthere : ∃ cell, world.page.components.get? watch.component = some cell ∧
      cell.scope = watch.scope ∧ cell.behaviour = .load watch.command)
    {past rest : List Incident} {call : Call}
    (hcourse : World.Course watch.Held world (past ++ .called call :: rest) later)
    (hloads : watch.Loads call) (hregistered : watch.isRegistered call.page = true)
    (hkeeps : ∀ incident ∈ rest, watch.Keeps incident)
    (hquiet : watch.Quiet later.page later.jobs) :
    call.page.render call.component call.cause =
      watch.startLoad (watch.parameters later.page) call.page := by
  have hright := hreached.right
  have hstands : watch.Stands world.page := ⟨⟨_, hright.tallied⟩, hthere⟩
  obtain ⟨-, -, hupheld⟩ := hstands.upheld.course hright hcourse
  have hgiven : watch.hears (past.foldl watch.hears none) (.called call) =
      some (watch.parameters call.page) := by
    rw [hears, if_pos hloads.component, if_pos hloads.letIn, if_pos hregistered]
  rw [List.foldl_append, List.foldl_cons, hgiven, foldl_hears_of_keeps hkeeps] at hupheld
  rw [hupheld.current _ rfl hquiet]
  have hfound := hcourse.finds hright (List.mem_append_right past List.mem_cons_self)
  exact hloads.render (hstands.there_later hfound)

/-! ## A command that loads the data of a region -/

/-- A page with a load command whose parameter is a region. Its provider may wait at a gate. -/
def furnished (gate : Option String) (page : Page) : Page :=
  { page with
    providers := page.providers.register Providers.defaultName (.plan [{ deliveries := [[]], gate }])
    markup := (page.markup.create (.element "div"
      [("core", "source"), ("name", "db"), ("region", "[##ui.filter.region##]")])).1 }

/-- The command was made, and is registered for the region. -/
def prepared (gate : Option String) (page : Page) : Page × Stage :=
  ((furnished gate page).createCommand rootScope rootRegistry "source" 0).1.startPrepare 0

/-- It is rendered for the first time. -/
def asked (gate : Option String) (page : Page) : Page × Stage :=
  (prepared gate page).1.startRender 0 none

def region : Source := .ofValue "ui.filter" (.object [("region", .string "eu")])

/-- Then a region is chosen. -/
def chosen (gate : Option String) (page : Page) : Page :=
  ((asked gate page).1.setSource rootScope region).1

def drained (gate : Option String) (page : Page) : Page × Stage := startDrain 1 (chosen gate page)

/-- The command of the first component. -/
def find (page : Page) : Option Watch :=
  (page.loadCommand? 0).map fun found => ⟨0, found.1.scope, found.2⟩

theorem there_of_find (h : find page = some watch) : watch.component = 0 ∧
    ∃ cell, page.components.get? watch.component = some cell ∧ cell.scope = watch.scope ∧
      cell.behaviour = .load watch.command := by
  obtain ⟨⟨cell, command⟩, hfound, rfl⟩ := Option.map_eq_some_iff.mp h
  refine ⟨rfl, cell, ?_⟩
  rw [loadCommand?] at hfound
  split at hfound
  · next there hthere =>
      split at hfound
      · next hbehaviour =>
          cases hfound
          exact ⟨hthere, rfl, hbehaviour⟩
      · cases hfound
  · cases hfound

/-- The world of the command when it is registered. -/
def watched (gate : Option String) (page : Page) : World where
  page := (prepared gate page).1
  live := (prepared gate page).2.activities

/-- The world when the queue was driven on. -/
def driven (gate : Option String) (page : Page) : World where
  page := (drained gate page).1
  live := (drained gate page).2.activities ++ ((asked gate page).2.activities ++ (watched gate page).live)

theorem watched_reached (gate : Option String) (h : Page.ofOptions {} = .ok page) :
    (watched gate page).Reached := by
  have hfurnished : Aside page (furnished gate page) := ⟨rfl, rfl, rfl, Nat.le_refl _⟩
  have hthere : rootScope < (furnished gate page).scopes.scopes.size := by
    obtain ⟨patterns, -, rfl⟩ := Page.ofOptions_ok h
    exact Nat.one_pos
  have hmade : World.Leads ⟨page, []⟩ ⟨_, []⟩ :=
    .tail (.single (.act [] (.aside hfurnished)))
      (.act [] (.createCommand hthere rootRegistry "source" 0))
  have hprepared : World.Step ⟨((furnished gate page).createCommand rootScope rootRegistry "source" 0).1, []⟩
      ⟨(prepared gate page).1, (prepared gate page).2.activities ++ []⟩ := .start [] (.prepare 0)
  rw [List.append_nil] at hprepared
  exact ⟨{}, page, h, hmade.tail hprepared⟩

/-- The first load, the choice of a region, and what the queue has to do about it. -/
theorem course_chosen {start : World} {asked drained : Page × Stage} {chosen : Page}
    (hasked : asked = start.page.startRender 0 none)
    (hchosen : chosen = (asked.1.setSource rootScope region).1)
    (hdrained : drained = startDrain 1 chosen)
    (hheld : ∀ page ∈ [start.page, asked.1, chosen, drained.1], watch.component ∈ page.heldComponents) :
    World.Course watch.Held start
      ([.called ⟨0, none, false, start.page⟩, .driven] ++ told (beginDrainTurns 1 chosen))
      ⟨drained.1, drained.2.activities ++ (asked.2.activities ++ start.live)⟩ := by
  have hfirst : World.Move start [.called ⟨0, none, false, start.page⟩]
      ⟨asked.1, asked.2.activities ++ start.live⟩ := hasked ▸ .start start.live (.render 0 none)
  have hset : World.Move ⟨asked.1, asked.2.activities ++ start.live⟩ []
      ⟨chosen, asked.2.activities ++ start.live⟩ :=
    hchosen ▸ .act _ (.setSource rootScope region) (feeds_changeScopes _ _)
  have hdriven : World.Move ⟨chosen, asked.2.activities ++ start.live⟩
      (.driven :: told (beginDrainTurns 1 chosen))
      ⟨drained.1, drained.2.activities ++ (asked.2.activities ++ start.live)⟩ :=
    hdrained ▸ .start _ (.drain 1)
  simp only [List.forall_mem_cons] at hheld
  obtain ⟨hstart, hasked, hchosen, hdrained, -⟩ := hheld
  have hbegun : World.Course watch.Held start [] start := .refl hstart
  have hcourse := ((hbegun.tail hfirst hasked).tail hset hchosen).tail hdriven hdrained
  rw [List.nil_append, List.append_nil] at hcourse
  exact hcourse

/-- Whether somebody has a hold on the command whenever something has happened to it. -/
def isHeld (gate : Option String) (page : Page) : Bool :=
  [(watched gate page).page, (asked gate page).1, chosen gate page, (drained gate page).1].all
    (·.heldComponents.contains 0)

theorem course_driven {gate : Option String} (hcomponent : watch.component = 0)
    (hheld : isHeld gate page = true) :
    World.Course watch.Held (watched gate page)
      ([.called ⟨0, none, false, (watched gate page).page⟩, .driven] ++
        told (beginDrainTurns 1 (chosen gate page)))
      (driven gate page) := by
  refine course_chosen rfl rfl rfl fun page hpage => ?_
  rw [hcomponent]
  exact List.contains_iff_mem.mp (List.all_eq_true.mp hheld page hpage)

/-- Whether the command is quiet and nothing is under way. -/
def isQuiet (watch : Watch) (world : World) : Bool :=
  !world.page.queue.closed && world.page.heldComponents.contains watch.component &&
    (world.page.components.get? watch.component).all (!·.disposed) &&
    world.page.scopes.isAlive watch.scope &&
    (world.page.scopes.lineage watch.scope).all (!world.page.scopes.isDisposed ·) &&
    world.page.queue.jobs.isEmpty && world.live.isEmpty

theorem quiet_of_isQuiet (h : watch.isQuiet world = true) :
    watch.Quiet world.page world.jobs ∧ world.live = [] := by
  simp only [isQuiet, Bool.and_eq_true, Bool.not_eq_true', List.contains_iff_mem,
    List.all_eq_true, Option.all_eq_true, List.isEmpty_iff] at h
  obtain ⟨⟨⟨⟨⟨⟨hopen, hheld⟩, hkept⟩, halive⟩, hintact⟩, hnone⟩, hidle⟩ := h
  refine ⟨⟨hopen, hheld, hkept, halive, hintact, fun cause hjob => ?_⟩, hidle⟩
  rw [hnone, World.jobs, hidle] at hjob
  cases hjob

/-- Whether parameters are a region that is chosen, or none. -/
def areRegion (region : Option String) : Fields → Bool
  | [(name, .string text)] => name == "region" && region == some text
  | [(name, .null)] => name == "region" && region == none
  | _ => false

theorem eq_of_areRegion {region : Option String} {fields : Fields} (h : areRegion region fields = true) :
    fields = [("region", (region.map .string).getD .null)] := by
  rw [areRegion.eq_def] at h
  split at h
  · obtain ⟨rfl, rfl⟩ := (Bool.and_eq_true_iff.mp h).imp eq_of_beq eq_of_beq
    rfl
  · obtain ⟨rfl, rfl⟩ := (Bool.and_eq_true_iff.mp h).imp eq_of_beq eq_of_beq
    rfl
  · cases h

/-- Whether a job renders the command again for the region, and all is done. -/
def followsUp (page : Page) : Bool :=
  match find (watched none page).page,
      (beginDrainTurns 1 (chosen none page)).filterMap Turn.call? with
  | some watch, [call] =>
    isHeld none page && call.component == 0 && call.queued && call.isLetIn &&
      call.page.scopes.isAlive watch.scope && watch.isRegistered call.page &&
      watch.isQuiet (driven none page) &&
      areRegion (some "eu") (watch.parameters (driven none page).page)
  | _, _ => false

/-- A provider that answers at once is asked again with the region that was chosen. -/
theorem region_reloads : ∃ (page : Page) (watch : Watch) (past : List Incident) (call : Call)
    (later : World), Page.ofOptions {} = .ok page ∧ (watched none page).Reached ∧
    World.Course watch.Held (watched none page) (past ++ [.called call]) later ∧
    call.queued = true ∧ watch.Loads call ∧ watch.isRegistered call.page = true ∧
    watch.Quiet later.page later.jobs ∧ watch.parameters later.page = [("region", .string "eu")] ∧
    call.page.render call.component call.cause =
      watch.startLoad (watch.parameters later.page) call.page := by
  have hruns : ((Page.ofOptions {}).toOption.any followsUp) = true := by decide +kernel
  cases hpage : Page.ofOptions {} with
  | error error =>
      rw [hpage] at hruns
      cases hruns
  | ok page =>
      rw [hpage, Except.toOption, Option.any_some] at hruns
      unfold followsUp at hruns
      split at hruns
      · next watch call hfind hcalls =>
          simp only [Bool.and_eq_true, beq_iff_eq] at hruns
          obtain ⟨⟨⟨⟨⟨⟨⟨hheld, hcomponent⟩, hqueued⟩, hletIn⟩, halive⟩, hregistered⟩, hquiet⟩, hregion⟩ :=
            hruns
          obtain ⟨hfirst, hthere⟩ := there_of_find hfind
          have hcourse := course_driven hfirst hheld
          rw [told, hcalls, List.map_singleton] at hcourse
          have hloads : watch.Loads call := ⟨hcomponent.trans hfirst.symm, hletIn, halive⟩
          have hcurrent := last_load_current (watched_reached none hpage) hthere hcourse hloads
            hregistered (fun _ hin => absurd hin List.not_mem_nil) (quiet_of_isQuiet hquiet).1
          exact ⟨page, watch, _, call, _, rfl, watched_reached none hpage, hcourse, hqueued, hloads,
            hregistered, (quiet_of_isQuiet hquiet).1, eq_of_areRegion hregion, hcurrent⟩
      · cases hruns

/-- The world when the gate was opened and a load went on. -/
def answered (world : World) (task : Task) : World where
  page := ((world.page.openGate "data").poll 1 (.task task)).1
  live := ((world.page.openGate "data").poll 1 (.task task)).2.activities

theorem course_answered {task : Task} {start : World}
    (h : World.Course watch.Held start incidents world) (hlive : world.live = [.task task])
    (hheld : watch.component ∈ world.page.heldComponents)
    (hlater : watch.component ∈ (answered world task).page.heldComponents) :
    World.Course watch.Held start incidents (answered world task) := by
  obtain ⟨page, live⟩ := world
  obtain rfl : live = [.task task] := hlive
  have hopened : World.Move ⟨page, [.task task]⟩ [] ⟨page.openGate "data", [.task task]⟩ :=
    .act _ (.aside ⟨rfl, rfl, rfl, Nat.le_refl _⟩) (.of_queue rfl (Nat.le_refl _))
  have hpolled : World.Move ⟨page.openGate "data", [.task task]⟩ []
      ⟨(answered ⟨page, [.task task]⟩ task).page,
        (answered ⟨page, [.task task]⟩ task).live ++ []⟩ := .poll (.refl _) 0
  rw [List.append_nil] at hpolled
  have hcourse := (h.tail hopened hheld).tail hpolled hlater
  rw [List.append_nil, List.append_nil] at hcourse
  exact hcourse

/-- Whether the job that was to render the command again finds it busy, and all is done when the first load
is over. -/
def losesReload (page : Page) : Bool :=
  match find (watched (some "data") page).page, (driven (some "data") page).live with
  | some watch, [.task task] =>
    isHeld (some "data") page && (driven (some "data") page).page.heldComponents.contains 0 &&
      ((beginDrainTurns 1 (chosen (some "data") page)).filterMap Turn.call?).all (!·.isLetIn) &&
      Call.isLetIn ⟨0, none, false, (watched (some "data") page).page⟩ &&
      (watched (some "data") page).page.scopes.isAlive watch.scope &&
      watch.isRegistered (watched (some "data") page).page &&
      areRegion none (watch.parameters (watched (some "data") page).page) &&
      watch.isQuiet (answered (driven (some "data") page) task) &&
      areRegion (some "eu") (watch.parameters (answered (driven (some "data") page) task).page)
  | _, _ => false

/-- The region is chosen while the first load waits for its data: the queue is drained and no load is under
way in the end, but the last load that started was given no region. -/
theorem busy_reload_lost : ∃ (page : Page) (watch : Watch) (call : Call) (rest : List Incident)
    (later : World), Page.ofOptions {} = .ok page ∧ (watched (some "data") page).Reached ∧
    World.Course watch.Held (watched (some "data") page) (.called call :: rest) later ∧
    watch.Loads call ∧ watch.isRegistered call.page = true ∧
    (∀ other, .called other ∈ rest → ¬watch.Loads other) ∧
    later.live = [] ∧ watch.Quiet later.page later.jobs ∧
    call.page.render call.component call.cause = watch.startLoad [("region", .null)] call.page ∧
    watch.parameters later.page = [("region", .string "eu")] := by
  have hruns : ((Page.ofOptions {}).toOption.any losesReload) = true := by decide +kernel
  cases hpage : Page.ofOptions {} with
  | error error =>
      rw [hpage] at hruns
      cases hruns
  | ok page =>
      rw [hpage, Except.toOption, Option.any_some] at hruns
      unfold losesReload at hruns
      split at hruns
      · next watch task hfind hlive =>
          simp only [Bool.and_eq_true, List.contains_iff_mem, List.all_eq_true,
            Bool.not_eq_true'] at hruns
          obtain ⟨⟨⟨⟨⟨⟨⟨⟨hheld, hkept⟩, hrefused⟩, hletIn⟩, halive⟩, hregistered⟩, hnone⟩, hquiet⟩,
            hregion⟩ := hruns
          obtain ⟨hfirst, hthere⟩ := there_of_find hfind
          obtain ⟨hcalm, hidle⟩ := quiet_of_isQuiet hquiet
          have hcourse := course_answered (course_driven hfirst hheld) hlive (hfirst ▸ hkept) hcalm.held
          rw [List.cons_append, List.singleton_append] at hcourse
          have hloads : watch.Loads ⟨0, none, false, (watched (some "data") page).page⟩ :=
            ⟨hfirst.symm, hletIn, halive⟩
          refine ⟨page, watch, _, _, _, rfl, watched_reached _ hpage, hcourse, hloads, hregistered,
            fun other hother hload => ?_, hidle, hcalm, ?_, eq_of_areRegion hregion⟩
          · rcases List.mem_cons.mp hother with hsame | htold
            · cases hsame
            · obtain ⟨call, hcall, hsame⟩ := List.mem_map.mp htold
              obtain rfl := Incident.called.inj hsame
              exact Bool.false_ne_true ((hrefused call hcall).symm.trans hload.letIn)
          · rw [hloads.render hthere, eq_of_areRegion hnone]
            rfl
      · cases hruns

end Watch

end ReactiveMarkup
