import Mathlib.Logic.Relation
import ReactiveMarkup.Page.Fleet

/-!
# What work can do to a page

A turn of a work is long: steps of a host, requests with all their deliveries, renders. But there are
only a few things it can do to a page, and it does them one after another: these are the acts. What a
work holds and counts it takes up before the first of them and lets go of after the last one, so in
between nothing that is held gets lost.

So whatever every act keeps, and taking up and letting go keep, every turn keeps.
-/

namespace ReactiveMarkup

/-- Nothing that is disposed is rendered. -/
theorem Component.kept_of_admits {cell : Component} (hadmits : cell.admits = true) :
    cell.disposed = false := by
  have hkept := (Bool.and_eq_true_iff.mp hadmits).1
  rwa [Bool.not_eq_true'] at hkept

/-- The component for which a work begins, if it begins for one. -/
def FlightState.owner? : FlightState → Option ComponentId
  | .assigned (.prepare component) => some component
  | .assigned (.render component) => some component
  | .assigned (.job (.render component _)) => some component
  | _ => none

namespace Page

open Relation

variable {page before middle after : Page}

/-- The markup, the log, the providers and the inboxes may differ, and nothing else. -/
structure Apart (before after : Page) : Prop where
  scopes : after.scopes = before.scopes
  components : after.components = before.components
  collections : after.collections = before.collections
  queue : after.queue = before.queue
  heldComponents : after.heldComponents = before.heldComponents
  flights : after.flights = before.flights

/-- One thing that work does to a page. -/
inductive Act : Page → Page → Prop
  | aside {before after : Page} (apart : Apart before after) : Act before after
  | set (page : Page) (scope : ScopeId) (source : Source) : Act page (page.setSource scope source).1
  | subscribe (page : Page) (component : ComponentId) (ids : List String) :
    Act page (page.subscribe component ids).1
  | enqueue (page : Page) (steps : List HostStep) : Act page (page.enqueue (.host steps))
  | close (page : Page) : Act page page.closeQueue
  | holdScope {page : Page} {scope : ScopeId} (alive : page.scopes.isAlive scope = true) :
    Act page (page.holdScope scope)
  | releaseScope (page : Page) (scope : ScopeId) : Act page (page.releaseScope scope)
  /-- A component that is not disposed remembers what it showed. -/
  | remember {page : Page} {id : ComponentId} {cell : Component} {shown : ShowCommand}
    (there : page.components.get? id = some cell) (shows : cell.behaviour = .faces shown)
    (kept : cell.disposed = false) (command : ShowCommand) :
    Act page (page.changeComponent id fun cell => { cell with behaviour := .faces command })

/-- What a work takes up for a component when it begins, if it takes up anything. -/
inductive TakesUp (page : Page) (owner : Option ComponentId) : Page → Prop
  | nothing : TakesUp page owner page
  | hold {id : ComponentId} (owned : owner = some id) : TakesUp page owner (page.holdComponent id)
  /-- A render is counted. -/
  | enter {id : ComponentId} {cell : Component} (owned : owner = some id)
    (there : page.components.get? id = some cell) (admits : cell.admits = true) :
    TakesUp page owner ((page.holdComponent id).changeComponent id fun cell =>
      { cell with inFlight := cell.inFlight + 1 })

/-- One thing that work does to let go. -/
inductive Ending : Page → Page → Prop
  /-- A render is counted no more. -/
  | leave (page : Page) (id : ComponentId) :
    Ending page (page.changeComponent id fun cell => { cell with inFlight := cell.inFlight - 1 })
  | release (page : Page) (id : ComponentId) : Ending page (page.releaseComponent id)

/-- What work does until it ends or has to wait. -/
abbrev Works : Page → Page → Prop := ReflTransGen Act

abbrev Endings : Page → Page → Prop := ReflTransGen Ending

theorem Works.foldl {α : Type} {step : Page → α → Page}
    (hstep : ∀ page item, Works page (step page item)) (page : Page) (items : List α) :
    Works page (items.foldl step page) := by
  induction items generalizing page with
  | nil => exact .refl
  | cons item rest ih => exact (hstep page item).trans (ih _)

theorem works_record (page : Page) (event : Event) : Works page (page.record event) :=
  .single (.aside ⟨rfl, rfl, rfl, rfl, rfl, rfl⟩)

theorem works_runSteps (page : Page) (owner : Option ComponentId) (cause : Option Source)
    (steps : List HostStep) : Works page (page.runSteps owner cause steps).1 := by
  induction steps generalizing page with
  | nil => exact .refl
  | cons step rest ih =>
      cases step with
      | note entry => exact (works_record page _).trans (ih _)
      | noteCause entry => exact (works_record page _).trans (ih _)
      | await gate =>
          rw [runSteps]
          split
          · exact ih page
          · exact .refl
      | pause turns =>
          cases turns with
          | zero => exact ih page
          | succ turns => exact .refl
      | subscribe ids =>
          cases owner with
          | some component => exact .head (.subscribe page component ids) (ih _)
          | none => exact ih page
      | set scope id value =>
          rw [runSteps]
          split
          · exact .head (.set page scope _) (ih _)
          · exact ih page
      | enqueue steps => exact .head (.enqueue page steps) (ih _)
      | close => exact .head (.close page) (ih _)
      | fail error => exact .refl

/-! ## Requests -/

theorem works_ask (page : Page) (load : Load) : Works page (page.ask load).1 := by
  rw [ask]
  split
  · exact .refl
  · exact .single (.aside ⟨rfl, rfl, rfl, rfl, rfl, rfl⟩)

theorem works_accept (page : Page) (load : Load) (sets : ResultSets) :
    Works page (page.accept load sets).1 := by
  rw [accept]
  split
  · exact .single (.aside ⟨rfl, rfl, rfl, rfl, rfl, rfl⟩)
  · next id scope _ =>
      split
      · exact .refl
      · split
        · exact .refl
        · split
          · exact .refl
          · exact .foldl (fun page source => .single (.set page scope source)) page _

/-- Whether something is taken note of makes no difference. -/
theorem Works.noted (h : Works before after) (reported : Bool) (event : Event) :
    Works before (if reported then after.record event else after) := by
  split
  · exact h.trans (works_record after event)
  · exact h

theorem works_runAnswer (page : Page) (load : Load) (steps : List ProviderStep) :
    Works page (page.runAnswer load steps).1 := by
  induction steps generalizing page load with
  | nil => exact .refl
  | cons step rest ih =>
      cases step with
      | report => exact (works_record page _).trans (ih _ load)
      | await gate =>
          rw [runAnswer]
          split
          · exact ih page load
          · exact .refl
      | pause turns =>
          cases turns with
          | zero => exact ih page load
          | succ turns => exact .refl
      | deliver sets reported =>
          have haccepted := works_accept page load sets
          rw [runAnswer]
          generalize page.accept load sets = reached at haccepted ⊢
          obtain ⟨accepting, load', accepted⟩ := reached
          have hnoted := haccepted.noted reported (.answered accepted)
          dsimp only
          split
          · exact hnoted.trans (ih _ load')
          · exact hnoted
      | insist sets reported =>
          have hnoted := (works_accept page load sets).noted reported
            (.answered (page.accept load sets).2.2)
          rw [runAnswer]
          exact hnoted.trans (ih _ _)
      | fail error => exact .refl

theorem works_runLoad (more : Nat) (page : Page) (load : Load) :
    Works page (page.runLoad more load).1 := by
  induction more using Nat.strongRecOn generalizing page load with
  | ind more ih =>
      have hanswered := works_runAnswer page load load.rest
      rw [runLoad]
      generalize page.runAnswer load load.rest = reached at hanswered ⊢
      obtain ⟨after, reached, progress⟩ := reached
      dsimp only at hanswered ⊢
      split
      · next hsame =>
          cases hsame
          exact hanswered
      · next hsame =>
          cases hsame
          exact hanswered
      · next hsame =>
          cases hsame
          split
          · exact hanswered
          · split
            · exact hanswered
            · exact hanswered
            · next more _ =>
                exact hanswered.trans ((works_ask _ _).trans (ih more (Nat.lt_succ_self more) _ _))

theorem works_continueLoad (page : Page) (load : Load) :
    Works page (page.continueLoad load).1 := by
  have hloaded := works_runLoad ((load.attempts.map Attempts.limit).getD 0) page load
  rw [continueLoad]
  generalize page.runLoad ((load.attempts.map Attempts.limit).getD 0) load = reached at hloaded ⊢
  obtain ⟨after, progress⟩ := reached
  cases progress with
  | suspended on rest => exact hloaded
  | finished result =>
      dsimp only
      cases load.receiver with
      | command id scope => exact hloaded.tail (.releaseScope after scope)
      | inbox id keep => exact hloaded

/-! ## Renders -/

/-- What is rendered at once. A component that shows faces remembers what it showed, and it is not
disposed while it does. -/
theorem works_renderNow {id : ComponentId} {cell current : Component}
    (hcurrent : page.components.get? id = some current)
    (hsame : current.behaviour = cell.behaviour) (hkept : current.disposed = false) :
    Works page (page.renderNow id cell).1 := by
  have hmarkup : ∀ markup, Works page { page with markup } :=
    fun markup => .single (.aside ⟨rfl, rfl, rfl, rfl, rfl, rfl⟩)
  rw [renderNow]
  split
  · split
    · exact hmarkup _
    · exact .refl
  · split
    · exact hmarkup _
    · exact .refl
  · split
    · split
      · exact hmarkup _
      · exact .refl
    · exact .refl
  · next command hbehaviour =>
      split
      · split
        · exact .refl
        · split
          · exact .refl
          · next markup command' output _ =>
              have hremembered := fun markup => @Act.remember { page with markup } id current command
                hcurrent (hsame.trans hbehaviour) hkept command'
              exact (hmarkup _).tail (hremembered _)
      · exact .refl
  · exact .refl
  · exact .refl

theorem works_beginRender {id : ComponentId} {cell current : Component}
    (hcurrent : page.components.get? id = some current)
    (hsame : current.behaviour = cell.behaviour) (hkept : current.disposed = false)
    (cause : Option Source) : Works page (page.beginRender id cell cause).1 := by
  have hnow := works_renderNow hcurrent hsame hkept
  rw [beginRender]
  split
  · exact works_runSteps page _ _ _
  · split
    · next halive =>
        exact .head (.holdScope halive) ((works_ask _ _).trans (works_continueLoad _ _))
    · exact .refl
  · exact hnow

/-! ## Turns -/

/-- What becomes of a page when work for a component begins or goes on, and lets go if it is over. -/
def Advances (owner : Option ComponentId) (before after : Page) : Prop :=
  ∃ begun middle, TakesUp before owner begun ∧ Works begun middle ∧ Endings middle after

variable {owner : Option ComponentId}

theorem Works.advances (h : Works before after) : Advances owner before after :=
  ⟨before, after, .nothing, h, .refl⟩

theorem Advances.tail (h : Advances owner before middle) (hend : Ending middle after) :
    Advances owner before after := by
  obtain ⟨begun, last, htakes, hworks, hends⟩ := h
  exact ⟨begun, last, htakes, hworks, hends.tail hend⟩

theorem endings_releaseTask (page : Page) (component : Option ComponentId) (renders : Bool) :
    Endings page (page.releaseTask component renders) := by
  cases component with
  | none => exact .refl
  | some id =>
      cases renders with
      | true => exact .tail (.single (.leave page id)) (.release _ id)
      | false => exact .single (.release page id)

theorem endings_closeTask (page : Page) (component : Option ComponentId) (renders : Bool)
    (progress : Progress Work) : Endings page (page.closeTask component renders progress).1 := by
  cases progress with
  | finished result => exact endings_releaseTask page component renders
  | suspended on work => exact .refl

theorem advances_render (page : Page) (id : ComponentId) (cause : Option Source) :
    Advances (some id) page (page.render id cause).1 := by
  rw [render]
  split
  · exact Works.advances .refl
  · next cell hcell =>
      split
      · next hadmits =>
          have hcurrent : ((page.holdComponent id).changeComponent id fun cell =>
              { cell with inFlight := cell.inFlight + 1 }).components.get? id =
                some { cell with inFlight := cell.inFlight + 1 } := by
            rw [changeComponent, Arena.get?_modify, if_pos rfl]
            exact congrArg (Option.map _) hcell
          have hkept := Component.kept_of_admits hadmits
          have hbegun := @works_beginRender _ id cell _ hcurrent rfl hkept cause
          exact ⟨_, _, .enter rfl hcell hadmits, hbegun, endings_closeTask _ (some id) true _⟩
      · exact Works.advances .refl

theorem advances_prepare (page : Page) (id : ComponentId) :
    Advances (some id) page (page.prepare id).1 := by
  rw [prepare]
  split
  · exact Works.advances .refl
  · split
    · have hsteps := fun steps => works_runSteps (page.holdComponent id) (some id) none steps
      exact ⟨_, _, .hold rfl, hsteps _, endings_closeTask _ (some id) false _⟩
    · exact Works.advances (.single (.subscribe page id _))

theorem advances_load (page : Page) (provider : ProviderId) (id : String) (inbox : InboxId)
    (keep : Bool) : Advances none page (page.load provider id inbox keep).1 :=
  ⟨page, _, .nothing, (works_ask page _).trans (works_continueLoad _ _), endings_closeTask _ none false _⟩

theorem advances_resume (page : Page) (task : Task) : Advances none page (page.resume task).1 := by
  rw [resume]
  split
  · exact ⟨page, _, .nothing, works_runSteps page _ _ _, endings_closeTask _ _ _ _⟩
  · exact ⟨page, _, .nothing, works_continueLoad page _, endings_closeTask _ _ _ _⟩

theorem advances_advance (page : Page) (state : FlightState) :
    Advances state.owner? page (page.advance state).1 := by
  cases state with
  | begun task => exact advances_resume page task
  | assigned assignment =>
      cases assignment with
      | prepare component => exact advances_prepare page component
      | render component => exact advances_render page component none
      | job job =>
          cases job with
          | render component cause =>
              exact (advances_render page component (some cause)).tail (.release _ component)
          | host steps =>
              exact ⟨page, _, .nothing, works_runSteps page none none steps,
                endings_closeTask _ none false _⟩

end Page

end ReactiveMarkup
