import ReactiveMarkup.Proofs.Page.Reloads

/-!
# What comes of a load

A load asks its provider, and asks again when the provider fails, as long as attempts are left. While it
goes on a record is kept of it: every trial, with all that was handed over in it and how it ended. The record
is told from the runs themselves, those after a wait included, whatever happened to the page meanwhile.

What is handed over is published, all members in their order, or nothing is. The fault of a load outlives the
trial it was found in: a miscount in a trial that failed is what a load ends with that succeeds later on.
-/

namespace ReactiveMarkup

/-- Result sets that are handed to a command, with the page before and after. -/
structure Handover where
  before : Page
  sets : ResultSets
  after : Page
  accepted : Bool

/-- One time a provider is asked: what it hands over, and how its answer ends, unless it waits. -/
structure Trial where
  handovers : List Handover
  result : Option (Except Error Unit)

/-- A trial that ended with a failure. -/
def Trial.Failed (trial : Trial) : Prop := ∃ failure, trial.result = some (.error failure)

namespace Page

/-- What an answer hands over until it ends or has to wait. -/
def handovers : Page → Load → List ProviderStep → List Handover
  | _, _, [] => []
  | page, load, .report :: rest =>
    handovers (page.record (.requested load.id load.parameters)) load rest
  | page, load, .await gate :: rest =>
    if page.gates.isOpen gate then handovers page load rest else []
  | page, load, .pause 0 :: rest => handovers page load rest
  | _, _, .pause (_ + 1) :: _ => []
  | page, load, .deliver sets reported :: rest =>
    let (after, load, accepted) := page.accept load sets
    let noted := if reported then after.record (.answered accepted) else after
    ⟨page, sets, after, accepted⟩ :: if accepted then handovers noted load rest else []
  | page, load, .insist sets reported :: rest =>
    let (after, load, accepted) := page.accept load sets
    let noted := if reported then after.record (.answered accepted) else after
    ⟨page, sets, after, accepted⟩ :: handovers noted load rest
  | _, _, .fail _ :: _ => []

/-- The trials of a load that goes on, the latest one first. It has handed something over in the trial under
way, and some trials of it have failed. -/
def trials : Nat → Page → Load → List Handover → List Trial → List Trial
  | more, page, load, given, failed =>
    let given := given ++ page.handovers load load.rest
    match page.runAnswer load load.rest with
    | (_, _, .suspended _ _) => ⟨given, none⟩ :: failed
    | (_, _, .finished (.ok _)) => ⟨given, some (.ok ())⟩ :: failed
    | (page, load, .finished (.error failure)) =>
      let failed := ⟨given, some (.error failure)⟩ :: failed
      match load.attempts with
      | none => failed
      | some attempts =>
        match attempts.afterFailure failure, more with
        | .error _, _ => failed
        | .ok _, 0 => failed
        | .ok attempts, more + 1 =>
          let (page, load) := page.ask { load with attempts := some attempts }
          trials more page load [] failed

/-- The trials of a load from where it goes on. -/
def trialsOn (page : Page) (load : Load) (given : List Handover) (failed : List Trial) : List Trial :=
  page.trials ((load.attempts.map Attempts.limit).getD 0) load given failed

end Page

namespace Watch

open Page

variable {watch : Watch} {page before after waiting later : Page} {load : Load}
  {given handovers : List Handover} {failed trials : List Trial} {handover : Handover}

/-- The command is there. -/
def There (watch : Watch) (page : Page) : Prop :=
  ∃ cell, page.components.get? watch.component = some cell ∧ cell.scope = watch.scope ∧
    cell.behaviour = .load watch.command

def isDisposed (watch : Watch) (page : Page) : Bool :=
  (page.components.get? watch.component).any Component.disposed

/-- The page when the render is counted, and the load that its provider was asked for. -/
def request (watch : Watch) (page : Page) : Page × Load :=
  let entered := (page.holdComponent watch.component).changeComponent watch.component fun cell =>
    { cell with inFlight := cell.inFlight + 1 }
  (entered.holdScope watch.scope).ask {
    receiver := .command watch.component watch.scope
    provider := watch.command.provider
    id := watch.command.name
    parameters := watch.parameters page
    attempts := some (Attempts.ofLimit watch.command.retries) }

/-- A load of a command up to some moment, with its trials. It starts with a call that is let in, and goes on
whenever its task is resumed, on whatever has become of the page. -/
inductive Loading (watch : Watch) : List Trial → Page × Progress Task → Prop
  | call {call : Call} (there : watch.There call.page) (loads : watch.Loads call) :
    Loading watch ((watch.request call.page).1.trialsOn (watch.request call.page).2 [] [])
      (call.page.render call.component call.cause)
  | resume {given : List Handover} {failed : List Trial} {waiting later : Page} {on : Suspension}
    {task : Task} {load : Load}
    (earlier : Loading watch (⟨given, none⟩ :: failed) (waiting, .suspended on task))
    (work : task.work = .load load) (lasts : Lasts waiting later) :
    Loading watch (later.trialsOn load given failed) (later.resume task)

/-- What a command makes of a handover: a disposed one nothing, and one that is not publishes all its members
or, if there is not one result set for each, none. -/
inductive Treats (watch : Watch) : Handover → Prop
  | late {page : Page} {sets : ResultSets} (disposed : watch.isDisposed page = true) :
    Treats watch ⟨page, sets, page, false⟩
  | miscounted {page : Page} {sets : ResultSets} (kept : watch.isDisposed page = false)
    (wrong : sets.length ≠ watch.command.members.length) : Treats watch ⟨page, sets, page, false⟩
  | published {page : Page} {sets : ResultSets} (kept : watch.isDisposed page = false)
    (right : sets.length = watch.command.members.length) :
    Treats watch ⟨page, sets, page.publish watch.scope (watch.command.sources sets), true⟩

/-- Whether a handover that is not late has not one result set for each member. -/
def miscounts (watch : Watch) (handover : Handover) : Bool :=
  !watch.isDisposed handover.before && handover.sets.length != watch.command.members.length

/-- What was wrong with the last handover that was miscounted. -/
def fault? (watch : Watch) (handovers : List Handover) : Option Error :=
  (handovers.filter watch.miscounts).getLast?.map fun handover =>
    .memberCount watch.command.name watch.command.members.length handover.sets.length

theorem fault?_append (earlier later : List Handover) :
    watch.fault? (earlier ++ later) = (watch.fault? later).or (watch.fault? earlier) := by
  rw [fault?, fault?, fault?, List.filter_append, List.getLast?_append]
  cases (later.filter watch.miscounts).getLast? <;> rfl

theorem fault?_eq_none_iff : watch.fault? handovers = none ↔
    ∀ handover ∈ handovers, watch.miscounts handover = false := by
  rw [fault?, Option.map_eq_none_iff, List.getLast?_eq_none_iff, List.filter_eq_nil_iff]
  simp only [Bool.not_eq_true]

theorem exists_of_fault? {error : Error} (h : watch.fault? handovers = some error) :
    ∃ handover ∈ handovers, watch.miscounts handover = true ∧
      error = .memberCount watch.command.name watch.command.members.length handover.sets.length := by
  obtain ⟨handover, hlast, rfl⟩ := Option.map_eq_some_iff.mp h
  obtain ⟨hin, hmiscounts⟩ := List.mem_filter.mp (List.mem_of_getLast? hlast)
  exact ⟨handover, hin, hmiscounts, rfl⟩

/-! ## One handover -/

theorem There.lasts (h : watch.There before) (hlasts : Lasts before after) : watch.There after := by
  obtain ⟨cell, hcell, hscope, hbehaviour⟩ := h
  obtain ⟨later, hlater, hbecomes⟩ := hlasts.cells _ cell hcell
  refine ⟨later, hlater, hbecomes.scope.trans hscope, ?_⟩
  rw [← Behaviour.steady_eq_load, hbecomes.steady, hbehaviour]
  rfl

theorem There.loadCommand? (h : watch.There page) : ∃ cell,
    page.loadCommand? watch.component = some (cell, watch.command) ∧
      watch.isDisposed page = cell.disposed := by
  obtain ⟨cell, hcell, -, hbehaviour⟩ := h
  refine ⟨cell, ?_, ?_⟩
  · rw [Page.loadCommand?, hcell]
    dsimp only
    rw [hbehaviour]
  · rw [isDisposed, hcell, Option.any_some]

/-- What handovers make of a load: it remembers the last one of them that was miscounted. -/
structure Answered (watch : Watch) (load : Load) (handovers : List Handover) (page : Page)
    (reached : Load) : Prop where
  there : watch.There page
  receiver : reached.receiver = load.receiver
  attempts : reached.attempts = load.attempts
  fault : reached.fault = (watch.fault? handovers).or load.fault
  treated : ∀ handover ∈ handovers, watch.Treats handover

theorem There.accept (h : watch.There page)
    (hreceiver : load.receiver = .command watch.component watch.scope) (sets : ResultSets) :
    watch.Answered load [⟨page, sets, (page.accept load sets).1, (page.accept load sets).2.2⟩]
      (page.accept load sets).1 (page.accept load sets).2.1 := by
  have hthere := h.lasts (works_accept page load sets).tends.lasts
  obtain ⟨receiver, provider, id, parameters, attempts, fault, rest⟩ := load
  obtain rfl : receiver = .command watch.component watch.scope := hreceiver
  obtain ⟨cell, hcommand, hdisposed⟩ := h.loadCommand?
  -- The fault is remembered of a handover that is miscounted, and of no other.
  have hsingle : ∀ after accepted, watch.fault? [⟨page, sets, after, accepted⟩] =
      if watch.miscounts ⟨page, sets, after, accepted⟩ then
        some (.memberCount watch.command.name watch.command.members.length sets.length)
      else none := fun after accepted => by
    rw [fault?, List.filter_cons]
    split <;> rfl
  have hmiscounts : ∀ after accepted, watch.miscounts ⟨page, sets, after, accepted⟩ =
      (!cell.disposed && sets.length != watch.command.members.length) := fun _ _ => by
    rw [miscounts, hdisposed]
  revert hthere
  rw [Page.accept]
  dsimp only
  rw [hcommand]
  dsimp only
  cases hlate : cell.disposed with
  | true =>
      rw [hlate] at hdisposed hmiscounts
      exact fun hthere => ⟨hthere, rfl, rfl, by rw [hsingle, hmiscounts]; rfl,
        List.forall_mem_singleton.mpr (.late hdisposed)⟩
  | false =>
      rw [hlate] at hdisposed hmiscounts
      rw [if_neg Bool.false_ne_true]
      split
      · next hwrong =>
          exact fun hthere => ⟨hthere, rfl, rfl, by rw [hsingle, hmiscounts, hwrong]; rfl,
            List.forall_mem_singleton.mpr (.miscounted hdisposed (bne_iff_ne.mp hwrong))⟩
      · next hright =>
          have hcount := Bool.eq_false_of_not_eq_true hright
          exact fun hthere => ⟨hthere, rfl, rfl, by rw [hsingle, hmiscounts, hcount]; rfl,
            List.forall_mem_singleton.mpr (.published hdisposed (bne_eq_false_iff_eq.mp hcount))⟩

/-! ## One answer -/

theorem Answered.nothing (h : watch.There page) (load : Load) : watch.Answered load [] page load :=
  ⟨h, rfl, rfl, rfl, fun _ hin => absurd hin List.not_mem_nil⟩

theorem Answered.noted {reached : Load} (h : watch.Answered load handovers page reached)
    (reported : Bool) (event : Event) :
    watch.Answered load handovers (if reported then page.record event else page) reached :=
  { h with there := h.there.lasts (Works.noted .refl reported event).tends.lasts }

theorem Answered.cons {middle last : Load} (h : watch.Answered load [handover] before middle)
    (h' : watch.Answered middle handovers after last) :
    watch.Answered load (handover :: handovers) after last where
  there := h'.there
  receiver := h'.receiver.trans h.receiver
  attempts := h'.attempts.trans h.attempts
  fault := by
    have hboth : watch.fault? (handover :: handovers) =
        (watch.fault? handovers).or (watch.fault? [handover]) := fault?_append [handover] handovers
    rw [h'.fault, h.fault, hboth, Option.or_assoc]
  treated := List.forall_mem_cons.mpr ⟨h.treated _ List.mem_cons_self, h'.treated⟩

theorem There.runAnswer (h : watch.There page)
    (hreceiver : load.receiver = .command watch.component watch.scope) (steps : List ProviderStep) :
    watch.Answered load (page.handovers load steps) (page.runAnswer load steps).1
      (page.runAnswer load steps).2.1 := by
  induction steps generalizing page load with
  | nil => exact .nothing h load
  | cons step rest ih =>
      cases step with
      | report => exact ih (h.lasts (works_record page _).tends.lasts) hreceiver
      | await gate =>
          rw [Page.runAnswer, Page.handovers]
          split
          · exact ih h hreceiver
          · exact .nothing h load
      | pause turns =>
          cases turns with
          | zero => exact ih h hreceiver
          | succ turns => exact .nothing h load
      | deliver sets reported =>
          have hhanded := (h.accept hreceiver sets).noted reported
            (.answered (page.accept load sets).2.2)
          rw [Page.runAnswer, Page.handovers]
          dsimp only
          split
          · exact hhanded.cons (ih hhanded.there (hhanded.receiver.trans hreceiver))
          · exact hhanded
      | insist sets reported =>
          have hhanded := (h.accept hreceiver sets).noted reported
            (.answered (page.accept load sets).2.2)
          rw [Page.runAnswer, Page.handovers]
          exact hhanded.cons (ih hhanded.there (hhanded.receiver.trans hreceiver))
      | fail error => exact .nothing h load

/-! ## A load -/

/-- How often a provider may be asked. -/
def limit (watch : Watch) : Nat := max watch.command.retries 1

/-- All that was handed over, the earliest first. -/
def handed (given : List Handover) (failed : List Trial) : List Handover :=
  failed.reverse.flatMap Trial.handovers ++ given

theorem handed_fail (given : List Handover) (failed : List Trial) (result : Option (Except Error Unit)) :
    handed [] (⟨given, result⟩ :: failed) = handed given failed := by
  rw [handed, handed, List.reverse_cons, List.flatMap_append, List.append_nil, List.flatMap_singleton]

/-- What is known of trials. -/
structure Told (watch : Watch) (given : List Handover) (failed : List Trial) : Prop where
  few : failed.length < watch.limit
  lost : ∀ trial ∈ failed, trial.Failed
  treated : ∀ handover ∈ handed given failed, watch.Treats handover

/-- A load with its trials: it counts them, and remembers the last miscount in any of them. -/
structure Carries (watch : Watch) (given : List Handover) (failed : List Trial) (load : Load) :
    Prop extends watch.Told given failed where
  receiver : load.receiver = .command watch.component watch.scope
  attempts : load.attempts = some ⟨watch.limit, failed.length + 1⟩
  fault : load.fault = watch.fault? (handed given failed)

/-- What trials say about how far a load has come. -/
def Ends (watch : Watch) (trials : List Trial) : Progress Load → Prop
  | .suspended _ load => ∃ given failed, trials = ⟨given, none⟩ :: failed ∧
      watch.Carries given failed load
  | .finished result => ∃ given failed, watch.Told given failed ∧
      (trials = ⟨given, some (.ok ())⟩ :: failed ∧
          result = (match watch.fault? (handed given failed) with
            | some fault => .error fault
            | none => .ok ()) ∨
        ∃ failure, trials = ⟨given, some (.error failure)⟩ :: failed ∧
          trials.length = watch.limit ∧
          result = .error (.providerExhausted watch.limit failure.message))

theorem Carries.runAnswer (h : watch.Carries given failed load) (hthere : watch.There page)
    (steps : List ProviderStep) :
    watch.There (page.runAnswer load steps).1 ∧
      watch.Carries (given ++ page.handovers load steps) failed (page.runAnswer load steps).2.1 := by
  have hanswered := hthere.runAnswer h.receiver steps
  refine ⟨hanswered.there, ⟨h.few, h.lost, ?_⟩, hanswered.receiver.trans h.receiver,
    hanswered.attempts.trans h.attempts, ?_⟩
  · rw [handed, ← List.append_assoc]
    exact List.forall_mem_append.mpr ⟨h.treated, hanswered.treated⟩
  · rw [hanswered.fault, h.fault, ← fault?_append, handed, handed, List.append_assoc]

/-- What is left of an answer is no matter of the trials. -/
theorem Carries.rest (h : watch.Carries given failed load) (steps : List ProviderStep) :
    watch.Carries given failed { load with rest := steps } := { h with }

/-- A trial that failed is counted, and the provider is asked again. -/
theorem Carries.again (h : watch.Carries given failed load) (failure : Error)
    (hmore : failed.length + 1 < watch.limit) (page : Page) :
    watch.Carries [] (⟨given, some (.error failure)⟩ :: failed)
      (page.ask { load with attempts := some ⟨watch.limit, failed.length + 1 + 1⟩ }).2 := by
  have hnext : watch.Carries [] (⟨given, some (.error failure)⟩ :: failed)
      { load with attempts := some ⟨watch.limit, failed.length + 1 + 1⟩ } :=
    { few := hmore
      lost := List.forall_mem_cons.mpr ⟨⟨failure, rfl⟩, h.lost⟩
      treated := handed_fail given failed _ ▸ h.treated
      receiver := h.receiver
      attempts := rfl
      fault := handed_fail given failed _ ▸ h.fault }
  rw [Page.ask]
  split
  · exact hnext.rest []
  · exact hnext.rest _

theorem There.runLoad (more : Nat) (hthere : watch.There page) (h : watch.Carries given failed load)
    (henough : watch.limit ≤ more + failed.length) :
    watch.Ends (page.trials more load given failed) (page.runLoad more load).2 := by
  induction more using Nat.strongRecOn generalizing page given failed load with
  | ind more ih =>
      obtain ⟨hafter, hcarries⟩ := h.runAnswer hthere load.rest
      rw [Page.trials, Page.runLoad]
      dsimp only
      generalize given ++ page.handovers load load.rest = given at hcarries ⊢
      generalize page.runAnswer load load.rest = reached at hafter hcarries ⊢
      obtain ⟨after, reached, ⟨result⟩ | ⟨on, rest⟩⟩ := reached
      · cases result with
        | ok _ => exact ⟨given, failed, hcarries.toTold, .inl ⟨rfl, hcarries.fault ▸ rfl⟩⟩
        | error failure =>
            dsimp only at hafter hcarries ⊢
            rw [hcarries.attempts]
            dsimp only [Attempts.afterFailure]
            by_cases hmore : failed.length + 1 < watch.limit
            · obtain ⟨more, rfl⟩ : ∃ fewer, more = fewer + 1 := ⟨more - 1, by omega⟩
              rw [if_pos hmore]
              dsimp only
              refine ih more (Nat.lt_succ_self more) ?_ ?_ ?_
              · exact hafter.lasts (works_ask after _).tends.lasts
              · exact hcarries.again failure hmore after
              · rw [List.length_cons]
                omega
            · rw [if_neg hmore]
              have hcount : failed.length + 1 = watch.limit := by
                have hfew := hcarries.few
                omega
              exact ⟨given, failed, hcarries.toTold, .inr ⟨failure, rfl, hcount, rfl⟩⟩
      · exact ⟨given, failed, rfl, hcarries.rest rest⟩

/-- What trials say about where a task has come to. -/
def Reaches (watch : Watch) (trials : List Trial) : Page × Progress Task → Prop
  | (_, .finished result) => watch.Ends trials (.finished result)
  | (page, .suspended on task) => watch.There page ∧
      ∃ load, task.work = .load load ∧ watch.Ends trials (.suspended on load)

theorem There.continueLoad (hthere : watch.There page) (h : watch.Carries given failed load)
    (component : Option ComponentId) (renders : Bool) :
    watch.Reaches (page.trialsOn load given failed)
      ((page.continueLoad load).1.closeTask component renders (page.continueLoad load).2) := by
  have hends := hthere.runLoad watch.limit h (Nat.le_add_right _ _)
  have hlater := hthere.lasts (works_runLoad watch.limit page load).tends.lasts
  rw [Page.continueLoad, Page.trialsOn, h.attempts, Option.map_some, Option.getD_some]
  generalize page.runLoad watch.limit load = reached at hends hlater ⊢
  obtain ⟨after, result | ⟨on, rest⟩⟩ := reached
  · exact hends
  · exact ⟨hlater, rest, rfl, hends⟩

theorem There.request (hthere : watch.There page)
    (hadmits : (page.components.get? watch.component).any Component.admits = true)
    (halive : page.scopes.isAlive watch.scope = true) :
    watch.There (watch.request page).1 ∧ watch.Carries [] [] (watch.request page).2 := by
  constructor
  · obtain ⟨cell, hcell, -⟩ := id hthere
    rw [hcell] at hadmits
    have hentered := (tends_holdComponent page watch.component).lasts.trans
      (@accounts_enter (page.holdComponent watch.component) watch.component cell hcell hadmits).lasts
    exact ((hthere.lasts hentered).lasts (tends_holdScope (by exact halive)).lasts).lasts
      (works_ask _ _).tends.lasts
  · have hfirst : watch.Carries [] [] {
        receiver := .command watch.component watch.scope
        provider := watch.command.provider
        id := watch.command.name
        parameters := watch.parameters page
        attempts := some (Attempts.ofLimit watch.command.retries) } :=
      { few := Nat.lt_of_lt_of_le Nat.one_pos (Nat.le_max_right _ _)
        lost := fun _ hin => absurd hin List.not_mem_nil
        treated := fun _ hin => absurd hin List.not_mem_nil
        receiver := rfl
        attempts := rfl
        fault := rfl }
    rw [Watch.request, Page.ask]
    dsimp only
    split
    · exact hfirst.rest []
    · exact hfirst.rest _

theorem Loading.reaches {reached : Page × Progress Task} (h : watch.Loading trials reached) :
    watch.Reaches trials reached := by
  induction h with
  | @call call there loads =>
      obtain ⟨hrequested, hcarries⟩ := there.request (loads.component ▸ loads.letIn) loads.alive
      rw [loads.render there]
      exact hrequested.continueLoad hcarries (some watch.component) true
  | @resume given failed waiting later on task load earlier work lasts ih =>
      obtain ⟨hthere, waits, hwork, given', failed', htrials, hcarries⟩ := ih
      obtain ⟨hgiven, rfl⟩ := List.cons.inj htrials
      obtain rfl := congrArg Trial.handovers hgiven
      obtain rfl := Work.load.inj (work.symm.trans hwork)
      rw [Page.resume, work]
      exact (hthere.lasts lasts).continueLoad hcarries task.component task.renders

/-! ## What a load comes to -/

theorem ids_sources {sets : ResultSets} (h : sets.length = watch.command.members.length) :
    (watch.command.sources sets).map Source.id =
      watch.command.members.map fun member => Unicode.lower (watch.command.name ++ "." ++ member.name) := by
  have hids : (watch.command.sources sets).map Source.id = ((watch.command.members.zip sets).map
      Prod.fst).map fun member => Unicode.lower (watch.command.name ++ "." ++ member.name) := by
    rw [LoadCommand.sources, List.map_map, List.map_map]
    rfl
  rw [hids, List.map_fst_zip (Nat.le_of_eq h.symm)]

theorem rows_sources {sets : ResultSets} (h : sets.length = watch.command.members.length) :
    (watch.command.sources sets).map Source.rows = sets := by
  have hrows : (watch.command.sources sets).map Source.rows =
      (watch.command.members.zip sets).map Prod.snd := by
    rw [LoadCommand.sources, List.map_map]
    refine List.map_congr_left fun entry _ => ?_
    change (entry.2.map fun row => ({ row } : Entry)).map Entry.row = entry.2
    rw [List.map_map]
    exact List.map_id _
  rw [hrows, List.map_snd_zip (Nat.le_of_eq h)]

theorem fault?_handed (h : ∀ trial ∈ failed, ∀ handover ∈ trial.handovers,
    watch.miscounts handover = false) : watch.fault? (handed given failed) = watch.fault? given := by
  have hnone : watch.fault? (failed.reverse.flatMap Trial.handovers) = none :=
    fault?_eq_none_iff.mpr fun handover hin => by
      obtain ⟨trial, htrial, hin⟩ := List.mem_flatMap.mp hin
      exact h trial (List.mem_reverse.mp htrial) handover hin
  rw [handed, fault?_append, hnone, Option.or_none]

theorem Ends.told {progress : Progress Load} (h : watch.Ends trials progress) :
    ∃ given result failed, trials = ⟨given, result⟩ :: failed ∧ watch.Told given failed := by
  cases progress with
  | suspended on load =>
      obtain ⟨given, failed, htrials, hcarries⟩ := h
      exact ⟨given, _, failed, htrials, hcarries.toTold⟩
  | finished result =>
      obtain ⟨given, failed, htold, ⟨htrials, -⟩ | ⟨failure, htrials, -⟩⟩ := h
      · exact ⟨given, _, failed, htrials, htold⟩
      · exact ⟨given, _, failed, htrials, htold⟩

theorem Reaches.told {reached : Page × Progress Task} (h : watch.Reaches trials reached) :
    ∃ given result failed, trials = ⟨given, result⟩ :: failed ∧ watch.Told given failed := by
  obtain ⟨page, result | ⟨on, task⟩⟩ := reached
  · have hends : watch.Ends trials (.finished result) := h
    exact hends.told
  · obtain ⟨-, load, -, hends⟩ := h
    exact hends.told

/-- A provider is asked as often as the command allows at most, and not again after it succeeded. While the
command is not disposed, what is handed to it is published in the order of its members when there is a result
set for each, and nothing is published otherwise; nothing is published later either. If there was no miscount
in a trial that was made again, the load succeeds if a trial did and nothing in it was miscounted; otherwise it
ends with the last failure when all attempts are used up, or with a miscount in the trial that succeeded. -/
theorem load_outcome {reached : Page × Progress Task} (hloading : watch.Loading trials reached) :
    trials.length ≤ max watch.command.retries 1 ∧
    (∀ trial ∈ trials.tail, trial.Failed) ∧
    (∀ trial ∈ trials, ∀ handover ∈ trial.handovers, watch.Treats handover) ∧
    (∀ sets : ResultSets, sets.length = watch.command.members.length →
      (watch.command.sources sets).map Source.id = watch.command.members.map (fun member =>
        Unicode.lower (watch.command.name ++ "." ++ member.name)) ∧
      (watch.command.sources sets).map Source.rows = sets) ∧
    ∀ result, reached.2 = .finished result →
      (∀ trial ∈ trials.tail, ∀ handover ∈ trial.handovers, watch.miscounts handover = false) →
      (result = .ok () ↔ ∃ trial ∈ trials, trial.result = some (.ok ()) ∧
        ∀ handover ∈ trial.handovers, watch.miscounts handover = false) ∧
      (result = .ok () ∨
        (∃ trial failure, trials.head? = some trial ∧ trial.result = some (.error failure) ∧
          trials.length = max watch.command.retries 1 ∧
          result = .error (.providerExhausted (max watch.command.retries 1) failure.message)) ∨
        ∃ trial ∈ trials, trial.result = some (.ok ()) ∧ ∃ handover ∈ trial.handovers,
          watch.miscounts handover = true ∧ result = .error (.memberCount watch.command.name
            watch.command.members.length handover.sets.length)) := by
  have hreaches := hloading.reaches
  obtain ⟨given, ended, failed, rfl, htold⟩ := hreaches.told
  refine ⟨htold.few, htold.lost, ?_, fun sets hcount => ⟨ids_sources hcount, rows_sources hcount⟩,
    fun result hresult hright => ?_⟩
  · rw [List.forall_mem_cons]
    have htreated := List.forall_mem_append.mp htold.treated
    exact ⟨htreated.2, fun trial htrial handover hin =>
      htreated.1 handover (List.mem_flatMap.mpr ⟨trial, List.mem_reverse.mpr htrial, hin⟩)⟩
  · obtain ⟨page, progress⟩ := reached
    obtain rfl : progress = .finished result := hresult
    rw [List.tail_cons] at hright
    -- No trial but the latest one has succeeded.
    have hlatest : ∀ trial ∈ failed, trial.result ≠ some (.ok ()) := fun trial hin hok => by
      obtain ⟨failure, hfailure⟩ := htold.lost trial hin
      cases hok.symm.trans hfailure
    obtain ⟨_, _, -, ⟨htrials, hresult⟩ | ⟨failure, htrials, hcount, rfl⟩⟩ := hreaches
    · obtain ⟨hsame, rfl⟩ := List.cons.inj htrials
      cases hsame
      rw [fault?_handed hright] at hresult
      cases hfault : watch.fault? given with
      | none =>
          rw [hfault] at hresult
          exact ⟨iff_of_true hresult ⟨_, List.mem_cons_self, rfl, fault?_eq_none_iff.mp hfault⟩,
            .inl hresult⟩
      | some fault =>
          rw [hfault] at hresult
          obtain ⟨handover, hin, hmiscounts, rfl⟩ := exists_of_fault? hfault
          refine ⟨iff_of_false (hresult ▸ fun hok => by cases hok) ?_,
            .inr (.inr ⟨_, List.mem_cons_self, rfl, handover, hin, hmiscounts, hresult⟩)⟩
          rintro ⟨trial, htrial, hok, hnone⟩
          rcases List.mem_cons.mp htrial with rfl | htrial
          · rw [hnone handover hin] at hmiscounts
            cases hmiscounts
          · exact hlatest trial htrial hok
    · obtain ⟨hsame, rfl⟩ := List.cons.inj htrials
      cases hsame
      refine ⟨iff_of_false (fun hok => by cases hok) ?_,
        .inr (.inl ⟨_, failure, rfl, rfl, hcount, rfl⟩)⟩
      rintro ⟨trial, htrial, hok, -⟩
      rcases List.mem_cons.mp htrial with rfl | htrial
      · cases hok
      · exact hlatest trial htrial hok

/-! ## A command that is asked for users -/

/-- A page with a load command that has one member, and a provider with a plan. -/
def supplied (attempts : List Attempt) (page : Page) : Page :=
  let (markup, command) := page.markup.create (.element "div" [("core", "source"), ("name", "db")])
  let (markup, member) := markup.create (.element "member" [("name", "users")])
  (Page.createCommand { page with
    providers := page.providers.register Providers.defaultName (.plan attempts)
    markup := markup.append command member } rootScope rootRegistry "source" command).1

/-- The trials of the first load. -/
def firstTrials (watch : Watch) (page : Page) : List Trial :=
  (watch.request page).1.trialsOn (watch.request page).2 [] []

/-- Whether a trial succeeded and nothing in it was miscounted. -/
def isRight (watch : Watch) (trial : Trial) : Bool :=
  trial.result.any Except.toBool && trial.handovers.all (!watch.miscounts ·)

theorem right_of_isRight {trial : Trial} (h : watch.isRight trial = true) :
    trial.result = some (.ok ()) ∧ ∀ handover ∈ trial.handovers, watch.miscounts handover = false := by
  obtain ⟨hresult, hhandovers⟩ := Bool.and_eq_true_iff.mp h
  refine ⟨?_, fun handover hin => Bool.not_eq_true' _ ▸ List.all_eq_true.mp hhandovers handover hin⟩
  obtain ⟨handovers, _ | error | result⟩ := trial
  · cases hresult
  · cases hresult
  · rfl

/-- Whether the first load is started, and has a trial that was right. -/
def endsRight (watch : Watch) (page : Page) : Bool :=
  Call.isLetIn ⟨0, none, false, page⟩ && page.scopes.isAlive watch.scope &&
    (watch.firstTrials page).any watch.isRight

theorem loading_of_endsRight (hfind : find page = some watch) (h : watch.endsRight page = true) :
    watch.Loading (watch.firstTrials page) (page.render 0 none) ∧
      ∃ trial ∈ watch.firstTrials page, trial.result = some (.ok ()) ∧
        ∀ handover ∈ trial.handovers, watch.miscounts handover = false := by
  simp only [endsRight, Bool.and_eq_true, List.any_eq_true] at h
  obtain ⟨⟨hletIn, halive⟩, trial, hin, hright⟩ := h
  obtain ⟨hfirst, hthere⟩ := there_of_find hfind
  have hloads : watch.Loads ⟨0, none, false, page⟩ := ⟨hfirst.symm, hletIn, halive⟩
  exact ⟨@Loading.call watch ⟨0, none, false, page⟩ hthere hloads, trial, hin, right_of_isRight hright⟩

/-- A provider that is down once and hands over the users when it is asked again. -/
def downOnce : List Attempt := [{ failure := some (.provider "down") }, { deliveries := [[[]]] }]

/-- Whether the first load is over, with a trial that was right and none before it that was miscounted. -/
def recovers (page : Page) : Bool :=
  match find (supplied downOnce page), ((supplied downOnce page).render 0 none).2 with
  | some watch, .finished _ => watch.endsRight (supplied downOnce page) &&
    (watch.firstTrials (supplied downOnce page)).tail.all fun trial => trial.handovers.all (!watch.miscounts ·)
  | _, _ => false

/-- A load is over without an error after its provider was down once. -/
theorem down_once_recovers : ∃ (page : Page) (watch : Watch), Page.ofOptions {} = .ok page ∧
    find (supplied downOnce page) = some watch ∧
    watch.Loading (watch.firstTrials (supplied downOnce page)) ((supplied downOnce page).render 0 none) ∧
    ((supplied downOnce page).render 0 none).2 = .finished (.ok ()) := by
  have hruns : ((Page.ofOptions {}).toOption.any recovers) = true := by decide +kernel
  cases hpage : Page.ofOptions {} with
  | error error =>
      rw [hpage] at hruns
      cases hruns
  | ok page =>
      rw [hpage, Except.toOption, Option.any_some] at hruns
      unfold recovers at hruns
      split at hruns
      · next watch result hfind hresult =>
          simp only [Bool.and_eq_true, List.all_eq_true, Bool.not_eq_true'] at hruns
          obtain ⟨hends, hnone⟩ := hruns
          obtain ⟨hloading, hright⟩ := loading_of_endsRight hfind hends
          obtain ⟨-, -, -, -, hcomes⟩ := load_outcome hloading
          refine ⟨page, watch, rfl, hfind, hloading, hresult.trans ?_⟩
          rw [(hcomes result hresult hnone).1.mpr hright]
      · cases hruns

/-- A provider that hands over one result set too many before it fails, and is right when it is asked again. -/
def wrongOnce : List Attempt :=
  [{ deliveries := [[[], []]], failure := some (.provider "down") }, { deliveries := [[[]]] }]

/-- Whether the first load ends with a miscount although a trial was right. -/
def remembersMiscount (page : Page) : Bool :=
  match find (supplied wrongOnce page), ((supplied wrongOnce page).render 0 none).2 with
  | some watch, .finished (.error (.memberCount ..)) => watch.endsRight (supplied wrongOnce page)
  | _, _ => false

/-- A load ends with a miscount though nothing was miscounted in the trial that succeeded: the miscount was in
the trial before it, which failed. -/
theorem miscount_outlives_trial : ∃ (page : Page) (watch : Watch) (trials : List Trial)
    (reached : Page × Progress Task) (name : String) (expected actual : Nat),
    Page.ofOptions {} = .ok page ∧ find (supplied wrongOnce page) = some watch ∧
    watch.Loading trials reached ∧
    (∃ trial ∈ trials, trial.result = some (.ok ()) ∧
      ∀ handover ∈ trial.handovers, watch.miscounts handover = false) ∧
    reached.2 = .finished (.error (.memberCount name expected actual)) := by
  have hruns : ((Page.ofOptions {}).toOption.any remembersMiscount) = true := by decide +kernel
  cases hpage : Page.ofOptions {} with
  | error error =>
      rw [hpage] at hruns
      cases hruns
  | ok page =>
      rw [hpage, Except.toOption, Option.any_some] at hruns
      unfold remembersMiscount at hruns
      split at hruns
      · next watch name expected actual hfind hresult =>
          obtain ⟨hloading, hright⟩ := loading_of_endsRight hfind hruns
          exact ⟨page, watch, _, _, name, expected, actual, rfl, hfind, hloading, hright, hresult⟩
      · cases hruns

end Watch

end ReactiveMarkup
