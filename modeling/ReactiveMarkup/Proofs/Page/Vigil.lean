import ReactiveMarkup.Proofs.Page.Stillness

/-!
# Keeping watch over a load command

A load command is registered for the sources that its parameters read. What is set in a scope calls everybody
registered for it who sees it, so the parameters come to something else only where a job to render the
command comes into the queue. `Watch` is a command that is watched, and `Upheld` says what the watch is for:
as long as nobody waits to render the command, its parameters come to what its last load was given.

A reload may be lost: a job that finds the command busy is gone without a load, and so is one that is dropped.
`hears` goes along with what is told and forgets what the last load was given when that happens. With that
every turn of anybody keeps the watch, which is shown here, and so does everything that turns make up, which
is shown in the modules that follow.
-/

namespace ReactiveMarkup

/-- A load command, with the component it belongs to and the scope it was made in. -/
structure Watch where
  component : ComponentId
  scope : ScopeId
  command : LoadCommand

namespace Watch

open Page Relation

variable {watch : Watch} {page before middle after : Page} {given : Option Fields}
  {jobs others gone left last : List Job} {owner : Option ComponentId}

/-- The ids of the sources that the parameters of the command read. -/
def names (watch : Watch) : List String := watch.command.dependencies.map Unicode.lower

/-- What the parameters come to on a page. -/
def parameters (watch : Watch) (page : Page) : Fields :=
  watch.command.resolveParameters (page.scopes.find? watch.scope)

/-- Whether the component is registered for all that the parameters read. -/
def isRegistered (watch : Watch) (page : Page) : Bool :=
  (page.components.get? watch.component).any fun cell => watch.names.all cell.triggers.contains

/-- What the last load was given, as far as no reload was lost since: a call of the queue may be refused,
and a job may be dropped. -/
def hears (watch : Watch) (given : Option Fields) : Incident → Option Fields
  | .called call =>
    if call.component = watch.component then
      if call.isLetIn then
        if watch.isRegistered call.page then some (watch.parameters call.page) else none
      else if call.queued then none else given
    else given
  | .dropped (.render component _) => if component = watch.component then none else given
  | _ => given

/-- The component is there. -/
structure Stands (watch : Watch) (page : Page) : Prop where
  balanced : page.Balanced
  there : ∃ cell, page.components.get? watch.component = some cell ∧ cell.scope = watch.scope ∧
    cell.behaviour = .load watch.command

/-- The component is registered for all that the parameters read, as long as it is not disposed. -/
def Registered (watch : Watch) (page : Page) : Prop :=
  ∀ cell, page.components.get? watch.component = some cell → cell.disposed = false →
    watch.names ⊆ cell.triggers

/-- The command lives, and nobody waits to render it. -/
structure Quiet (watch : Watch) (page : Page) (jobs : List Job) : Prop where
  opened : page.queue.closed = false
  held : watch.component ∈ page.heldComponents
  kept : ∀ cell, page.components.get? watch.component = some cell → cell.disposed = false
  alive : page.scopes.isAlive watch.scope = true
  intact : page.scopes.Intact watch.scope
  calm : ∀ cause, .render watch.component cause ∉ page.queue.jobs ++ jobs

/-- When the command is quiet, its parameters come to what the last load was given. -/
structure Upheld (watch : Watch) (given : Option Fields) (page : Page) (jobs : List Job) : Prop where
  stands : watch.Stands page
  registered : given.isSome = true → watch.Registered page
  current : ∀ parameters, given = some parameters → watch.Quiet page jobs →
    watch.parameters page = parameters

theorem find?_lower (scopes : Scopes) (scope : ScopeId) (id : String) :
    scopes.find? scope (Unicode.lower id) = scopes.find? scope id := by
  simp only [Scopes.find?, Scopes.local?, Unicode.lower_lower]

/-- The parameters come to the same where the sources they read are the same. -/
theorem parameters_congr (h : ∀ name ∈ watch.names,
    after.scopes.find? watch.scope name = before.scopes.find? watch.scope name) :
    watch.parameters after = watch.parameters before := by
  rw [parameters, parameters, LoadCommand.resolveParameters, LoadCommand.resolveParameters]
  refine congrArg Fields.ofList (List.map_congr_left fun parameter hparameter => ?_)
  obtain ⟨name, token⟩ := parameter
  refine congrArg (Prod.mk name) (token.value_congr fun id hid => ?_)
  have hread : id ∈ watch.command.dependencies := List.mem_flatMap.mpr ⟨_, hparameter, hid⟩
  rw [← find?_lower after.scopes, ← find?_lower before.scopes]
  exact h _ (List.mem_map_of_mem hread)

/-! ## What time cannot undo -/

theorem Stands.there_later (h : watch.Stands before) (hlasts : Lasts before after) :
    ∃ cell, after.components.get? watch.component = some cell ∧ cell.scope = watch.scope ∧
      cell.behaviour = .load watch.command := by
  obtain ⟨cell, hcell, hscope, hbehaviour⟩ := h.there
  obtain ⟨later, hlater, hbecomes⟩ := hlasts.cells _ cell hcell
  refine ⟨later, hlater, hbecomes.scope.trans hscope, ?_⟩
  rw [← Behaviour.steady_eq_load, hbecomes.steady, hbehaviour]
  rfl

theorem Stands.lasts (h : watch.Stands before) (hlasts : Lasts before after)
    (hbalanced : after.Balanced) : watch.Stands after := ⟨hbalanced, h.there_later hlasts⟩

theorem Stands.standing (h : watch.Stands page) :
    page.scopes.Standing ∧ watch.scope < page.scopes.scopes.size := by
  obtain ⟨busy, htallied⟩ := h.balanced
  obtain ⟨cell, hcell, hscope, -⟩ := h.there
  exact ⟨htallied.standing, hscope ▸ (htallied.booked _ cell hcell).placed⟩

theorem Registered.lasts (h : watch.Registered before) (hstands : watch.Stands before)
    (hlasts : Lasts before after) : watch.Registered after := by
  obtain ⟨cell, hcell, -⟩ := hstands.there
  obtain ⟨later, hlater, hbecomes⟩ := hlasts.cells _ cell hcell
  intro last hlast hkept
  obtain rfl := Option.some.inj (hlater.symm.trans hlast)
  exact List.Subset.trans (h cell hcell (hbecomes.kept hkept)) (hbecomes.triggers hkept)

/-- A command that is quiet was quiet before. -/
theorem Stands.quiet_of_later (h : watch.Stands before) (hdrifts : Drifts watch.component before after)
    (hquiet : watch.Quiet after jobs) : watch.Quiet before jobs := by
  obtain ⟨cell, hcell, -⟩ := h.there
  obtain ⟨later, hlater, hbecomes⟩ := hdrifts.lasts.cells _ cell hcell
  obtain ⟨hstanding, hlt⟩ := h.standing
  constructor
  case opened => exact hdrifts.feeds.open_of_open hquiet.opened
  case held => exact hdrifts.held cell hcell hquiet.held
  case kept =>
    intro other hother
    obtain rfl := Option.some.inj (hcell.symm.trans hother)
    exact hbecomes.kept (hquiet.kept later hlater)
  case alive => exact hdrifts.ages.alive hstanding _ hlt hquiet.alive
  case intact => exact hdrifts.ages.intact_of_later hstanding hlt hquiet.intact
  case calm =>
    intro cause hjob
    refine hquiet.calm cause ((List.mem_append.mp hjob).elim (fun hold => ?_)
      (List.mem_append_right _))
    exact List.mem_append_left _ ((hdrifts.feeds.jobs hquiet.opened).subset hold)

/-- Where nothing is promised there is nothing to keep. -/
theorem Stands.upheld (h : watch.Stands page) : watch.Upheld none page jobs :=
  ⟨h, fun hsome => (by cases hsome), fun _ hsome => (by cases hsome)⟩

theorem Upheld.mono (h : watch.Upheld given page jobs)
    (hjobs : ∀ cause, .render watch.component cause ∈ jobs → .render watch.component cause ∈ others) :
    watch.Upheld given page others := by
  refine ⟨h.stands, h.registered, fun parameters hgiven hquiet => h.current parameters hgiven ?_⟩
  refine { hquiet with calm := fun cause hjob => hquiet.calm cause ?_ }
  exact (List.mem_append.mp hjob).elim (List.mem_append_left _) fun hin =>
    List.mem_append_right _ (hjobs cause hin)

/-- A change after which the parameters come to the same, or the command is not quiet. -/
theorem Upheld.drift (h : watch.Upheld given before jobs) (hdrifts : Drifts watch.component before after)
    (hview : given.isSome = true → watch.Quiet before jobs → watch.Quiet after jobs →
      watch.parameters after = watch.parameters before) : watch.Upheld given after jobs where
  stands := h.stands.lasts hdrifts.lasts (hdrifts.balanced h.stands.balanced)
  registered hsome := (h.registered hsome).lasts h.stands hdrifts.lasts
  current parameters hgiven hquiet := by
    have hbefore := h.stands.quiet_of_later hdrifts hquiet
    exact (hview (by rw [hgiven]; rfl) hbefore hquiet).trans (h.current parameters hgiven hbefore)

theorem Upheld.still (h : watch.Upheld given before jobs) (hstill : Still watch.component before after) :
    watch.Upheld given after jobs := by
  refine h.drift hstill.toDrifts fun _ _ _ => parameters_congr fun name _ => ?_
  obtain ⟨hstanding, hlt⟩ := h.stands.standing
  exact hstill.ages.find?_eq hstill.sources hstanding hlt name

/-! ## Sources that are set -/

/-- A component that is called is sent a job, if it lives. -/
theorem mem_attend {deliveries : List Delivery} {component : ComponentId} {source : Source}
    (hcalled : .triggered component source ∈ deliveries) (hheld : component ∈ page.heldComponents)
    (hopen : (deliveries.foldl attendTo page).queue.closed = false) :
    .render component source ∈ (deliveries.foldl attendTo page).queue.jobs := by
  induction deliveries generalizing page with
  | nil => cases hcalled
  | cons delivery rest ih =>
      have hrest := Feeds.foldl feeds_attendTo (page.attendTo delivery) rest
      rcases List.mem_cons.mp hcalled with rfl | hlater
      · have hstill := hrest.open_of_open hopen
        refine (hrest.jobs hopen).subset ?_
        have halive : page.isComponentAlive component = true := List.contains_iff_mem.mpr hheld
        have hbefore := (feeds_attendTo page (.triggered component source)).open_of_open hstill
        rw [attendTo, if_pos halive, enqueue, if_neg (Bool.eq_false_iff.mp hbefore)]
        change _ ∈ (page.queue.push _).jobs
        rw [Queue.push, if_neg (Bool.eq_false_iff.mp hbefore)]
        exact List.mem_append_right _ List.mem_cons_self
      · refine ih hlater ?_ hopen
        cases delivery with
        | handled handler other => exact hheld
        | triggered other cause =>
            rw [attendTo]
            split
            · rw [enqueue]
              split
              · exact hheld
              · exact List.mem_cons_of_mem _ hheld
            · exact hheld

/-- What is set calls the command, or its parameters come to the same. -/
theorem Upheld.changeScopes {α : Type} {f : Scopes → Scopes × α} (h : watch.Upheld given page jobs)
    (hminds : Scopes.Minds page.scopes (f page.scopes).1)
    (hheralds : page.scopes.Sturdy → ∀ name, Unicode.lower name = name →
      Scopes.Heralds watch.scope name watch.component page.scopes (f page.scopes).1) :
    watch.Upheld given (page.changeScopes f).1 jobs := by
  refine h.drift (drifts_changeScopes hminds) fun hsome hbefore hafter =>
    parameters_congr fun name hname => ?_
  obtain ⟨busy, htallied⟩ := h.stands.balanced
  obtain ⟨cell, hcell, hscope, -⟩ := h.stands.there
  have hbooked := htallied.booked _ cell hcell
  have hmem := h.registered hsome cell hcell (hbefore.kept cell hcell) hname
  have hscopes : (page.changeScopes f).1.scopes = { (f page.scopes).1 with deliveries := [] } := by
    rw [Page.changeScopes]
    dsimp only
    rw [attend, scopes_attendTo_all]
  have hintact : (f page.scopes).1.Intact watch.scope := by
    have htaken : Scopes.Minds (f page.scopes).1 { (f page.scopes).1 with deliveries := [] } :=
      Scopes.minds_of_scopes rfl rfl
    refine Scopes.Intact.of_later htaken ?_
    rw [← hscopes]
    exact hafter.intact
  have hexpects : page.scopes.Expects watch.scope name watch.component := by
    refine ⟨htallied.standing.ordered, htallied.linked, hbefore.alive, ?_⟩
    have hkept := hbefore.intact _ (Scopes.mem_lineage_self page.scopes watch.scope)
    have honce := hbooked.enrolled (hscope ▸ hbefore.alive) (hscope ▸ hkept) name
    rw [hscope, if_pos hmem] at honce
    exact List.count_pos_iff.mp (Nat.lt_of_lt_of_eq Nat.one_pos honce.symm)
  rcases (hheralds ⟨htallied.standing.ordered, htallied.linked⟩ name
    (hbooked.small name hmem)).heard hexpects hintact with ⟨source, hcalled⟩ | hsame
  · -- The job is in the queue, so the command is not quiet.
    have hheld : watch.component ∈
        { page with scopes := { (f page.scopes).1 with deliveries := [] } }.heldComponents :=
      hbefore.held
    exact absurd (List.mem_append_left _ (mem_attend hcalled hheld hafter.opened))
      (hafter.calm source)
  · rw [hscopes, ← hsame.find]
    exact Scopes.find?_of_scopes (by rfl) _ _

theorem Upheld.setSource (h : watch.Upheld given page jobs) (scope : ScopeId) (source : Source) :
    watch.Upheld given (page.setSource scope source).1 jobs :=
  h.changeScopes (Scopes.minds_set page.scopes scope source) fun hsturdy _ hname =>
    Scopes.heralds_set watch.scope hname watch.component hsturdy scope source

/-! ## Turns -/

theorem Upheld.act (h : watch.Upheld given before jobs) (hact : Act before after) :
    watch.Upheld given after jobs := by
  have htends := hact.tends
  cases hact with
  | aside apart =>
      exact h.still (.of_tends htends apart.scopes apart.queue fun hheld =>
        apart.heldComponents ▸ hheld)
  | set scope source => exact h.setSource scope source
  | subscribe component ids => exact h.still (still_subscribe before component ids)
  | enqueue steps => exact h.still (still_enqueue before steps)
  | close => exact h.still (still_closeQueue before)
  | holdScope alive => exact h.still (still_holdScope alive)
  | releaseScope scope => exact h.still (still_releaseScope before scope)
  | remember there shows kept command => exact h.still (.of_tends htends rfl rfl fun hheld => hheld)

theorem Upheld.works (h : watch.Upheld given before jobs) (hworks : Works before after) :
    watch.Upheld given after jobs := by
  induction hworks with
  | refl => exact h
  | tail _ hact ih => exact ih.act hact

/-- A render that ends was on the books, or it was none. -/
theorem balanced_leave (h : page.Balanced) (id : ComponentId) :
    (page.changeComponent id fun cell => { cell with inFlight := cell.inFlight - 1 }).Balanced := by
  obtain ⟨busy, htallied⟩ := h
  by_cases hin : id ∈ busy
  · exact ⟨_, (accounts_leave page id).tallied (busy.erase id)
      (htallied.perm (List.perm_cons_erase hin))⟩
  · have hcells : page.components.modify id (fun cell =>
        { cell with inFlight := cell.inFlight - 1 }) = page.components := by
      refine Scopes.modify_eq_self fun cell hcell => ?_
      have hidle := (htallied.booked id cell hcell).flying
      rw [List.count_eq_zero.mpr hin] at hidle
      rw [hidle, Nat.zero_sub, ← hidle]
    refine ⟨busy, ?_⟩
    rw [changeComponent, hcells]
    exact htallied

theorem Upheld.ending (h : watch.Upheld given before jobs) (hending : Ending before after) :
    watch.Upheld given after jobs := by
  cases hending with
  | release id => exact h.still (still_releaseComponent before id)
  | leave id =>
      exact h.still ⟨⟨(accounts_leave before id).lasts, fun hbalanced => balanced_leave hbalanced id,
        .refl _, .of_queue rfl (Nat.le_refl _), fun _ _ hheld => hheld⟩, .refl _⟩

theorem Upheld.endings (h : watch.Upheld given before jobs) (hendings : Endings before after) :
    watch.Upheld given after jobs := by
  induction hendings with
  | refl => exact h
  | tail _ hending ih => exact ih.ending hending

theorem balanced_enter {id : ComponentId} {cell : Component} (h : page.Balanced)
    (hcell : page.components.get? id = some cell) (hadmits : cell.admits = true) :
    ((page.holdComponent id).changeComponent id fun cell =>
      { cell with inFlight := cell.inFlight + 1 }).Balanced := by
  obtain ⟨busy, htallied⟩ := h
  have hentered := (tends_holdComponent page id).then
    (@accounts_enter (page.holdComponent id) id cell hcell hadmits)
  exact ⟨id :: busy, hentered.tallied busy htallied⟩

/-- What work takes up for a component changes nothing that is set. -/
theorem takesUp_lasts (h : TakesUp before owner after) :
    Lasts before after ∧ (before.Balanced → after.Balanced) ∧ after.scopes = before.scopes := by
  cases h with
  | nothing => exact ⟨.refl before, fun h => h, rfl⟩
  | @hold id owned =>
      exact ⟨(tends_holdComponent before id).lasts, (tends_holdComponent before id).balanced, rfl⟩
  | @enter id cell owned there admits =>
      exact ⟨(tends_holdComponent before id).lasts.trans
        (@accounts_enter (before.holdComponent id) id cell there admits).lasts,
        fun hbalanced => balanced_enter hbalanced there admits, rfl⟩

theorem Upheld.takesUp (h : watch.Upheld given before jobs) (htakes : TakesUp before owner after)
    (howner : owner ≠ some watch.component) : watch.Upheld given after jobs := by
  obtain ⟨hlasts, hbalanced, hscopes⟩ := takesUp_lasts htakes
  refine h.still ⟨⟨hlasts, hbalanced, hscopes ▸ .refl _, ?_, fun _ _ hheld => ?_⟩, hscopes ▸ .refl _⟩
  · exact htakes.feeds
  · have hother : ∀ id, owner = some id → watch.component ∈ id :: before.heldComponents →
        watch.component ∈ before.heldComponents := fun id howned hin =>
      (List.mem_cons.mp hin).resolve_left fun hsame => howner (hsame ▸ howned)
    cases htakes with
    | nothing => exact hheld
    | hold owned => exact hother _ owned hheld
    | enter owned there admits => exact hother _ owned hheld

/-- Work for anybody else. -/
theorem Upheld.advances (h : watch.Upheld given before jobs) (hadvances : Advances owner before after)
    (howner : owner ≠ some watch.component) : watch.Upheld given after jobs := by
  obtain ⟨begun, middle, htakes, hworks, hends⟩ := hadvances
  exact ((h.takesUp htakes howner).works hworks).endings hends

/-- A render that is let in asks with what the parameters come to then. -/
theorem Stands.letIn (h : watch.Stands before) (hadvances : Advances owner before after) :
    watch.Upheld (if watch.isRegistered before then some (watch.parameters before) else none)
      after jobs := by
  obtain ⟨begun, middle, htakes, hworks, hends⟩ := hadvances
  obtain ⟨hlasts, hbalanced, hscopes⟩ := takesUp_lasts htakes
  have hbegun := h.lasts hlasts (hbalanced h.balanced)
  suffices hupheld : watch.Upheld
      (if watch.isRegistered before then some (watch.parameters before) else none) begun jobs from
    (hupheld.works hworks).endings hends
  split
  · next hregistered =>
      refine ⟨hbegun, fun _ => ?_, fun parameters hgiven _ => ?_⟩
      · refine Registered.lasts (fun cell hcell _ name hname => ?_) h hlasts
        rw [isRegistered, hcell, Option.any_some] at hregistered
        exact List.contains_iff_mem.mp (List.all_eq_true.mp hregistered name hname)
      · rw [← Option.some.inj hgiven, Watch.parameters, Watch.parameters, hscopes]
  · exact hbegun.upheld

/-- A call, whoever it is for. A job that is refused is gone. -/
theorem Upheld.called (h : watch.Upheld given page jobs) (id : ComponentId) (cause : Option Source)
    (queued : Bool) (hjobs : ∀ cause, .render watch.component cause ∈ jobs →
      id = watch.component ∧ queued = true ∨ .render watch.component cause ∈ others) :
    watch.Upheld (watch.hears given (.called ⟨id, cause, queued, page⟩)) (page.render id cause).1
      others := by
  rw [hears]
  split
  · next hid =>
      change id = watch.component at hid
      subst hid
      split
      · exact h.stands.letIn (advances_render page _ cause)
      · next hrefused =>
          have hunchanged : (page.render watch.component cause).1 = page := by
            obtain ⟨cell, hcell, -⟩ := h.stands.there
            rw [Call.isLetIn, hcell] at hrefused
            rw [render, hcell]
            exact congrArg Prod.fst (if_neg hrefused)
          rw [hunchanged]
          cases queued with
          | true => exact h.stands.upheld
          | false =>
              exact h.mono fun cause hjob => (hjobs cause hjob).resolve_left fun hqueued =>
                Bool.false_ne_true hqueued.2
  · next hother =>
      refine (h.mono fun cause hjob => ?_).advances (advances_render page id cause) fun hsame =>
        hother (Option.some.inj hsame)
      exact (hjobs cause hjob).resolve_left fun hqueued => hother hqueued.1

theorem Stands.prepare (h : watch.Stands page) :
    Still watch.component page (page.prepare watch.component).1 := by
  obtain ⟨cell, hcell, -, hbehaviour⟩ := h.there
  rw [Page.prepare, hcell]
  dsimp only
  rw [hbehaviour]
  exact still_subscribe page watch.component _

/-- A turn of a work, be it a job or not. -/
theorem Upheld.turn {turn : Turn} (h : watch.Upheld given turn.page (turn.state.job?.toList ++ jobs)) :
    watch.Upheld ((told [turn]).foldl watch.hears given) turn.after jobs := by
  obtain ⟨number, state, page⟩ := turn
  have hadvances := advances_advance page state
  cases state with
  | begun task => exact h.advances hadvances fun hsame => by cases hsame
  | assigned assignment =>
      cases assignment with
      | prepare id =>
          by_cases hid : id = watch.component
          · subst hid
            exact h.still h.stands.prepare
          · exact h.advances hadvances fun hsame => hid (Option.some.inj hsame)
      | render id => exact h.called id none false fun cause hin => .inr hin
      | job job =>
          cases job with
          | host steps =>
              refine Upheld.advances (h.mono fun cause hin => ?_) hadvances fun hsame => by cases hsame
              exact (List.mem_cons.mp hin).resolve_left fun hsame => by cases hsame
          | render id cause =>
              refine (h.called id (some cause) true fun other hin => ?_).still
                (still_releaseComponent _ id)
              refine (List.mem_cons.mp hin).imp_left fun hsame => ?_
              exact ⟨(Job.render.inj hsame).1.symm, rfl⟩

/-- Turns one after another, none of which is known to be a job. -/
theorem Upheld.played {turns : List Turn} (h : watch.Upheld given before jobs)
    (hplayed : Played before turns after) :
    watch.Upheld ((told turns).foldl watch.hears given) after jobs := by
  induction hplayed generalizing given with
  | none between => exact h.still between.still
  | @turn before after turn turns between _ ih =>
      have hfound := (h.still between.still).mono fun cause hin =>
        List.mem_append_right turn.state.job?.toList hin
      have hrest := ih hfound.turn
      rw [← List.foldl_append, ← told_append] at hrest
      exact hrest

end Watch

end ReactiveMarkup
