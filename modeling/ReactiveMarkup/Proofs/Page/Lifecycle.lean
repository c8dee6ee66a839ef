import ReactiveMarkup.Proofs.Page.Convergence
import ReactiveMarkup.Proofs.Page.Making

/-!
# The life of a component

A world is a page and all that is under way on it. It changes when a host does something that is over at
once, begins something, drives one of the things under way on, or drops one; what there is under way has
its turns in any order. However all this comes about, the books of every component are right: it is
being rendered as often as it says, it is registered in its scope for the ids it says, once each, and
after it was disposed neither is ever the case again, but for the renders that had started before.

That handlers of a whole scope are removed by hand is left out: this strikes components off behind their
backs.
-/

namespace ReactiveMarkup

open Relation

/-- What is left under way of an activity. -/
def Stage.activities : Stage → List Activity
  | .finished _ => []
  | .waiting _ activity => [activity]

namespace Page

/-- What a host does and is over at once. It has whatever it works on in its hands: it takes no hold on
a scope that is dead, and makes nothing in a scope that does not exist. -/
inductive Does : Page → Page → Prop
  /-- Markup, keywords, providers, gates, the queue, holds on nodes and components. -/
  | aside {page after : Page} (aside : Aside page after) : Does page after
  | createScope {page : Page} {parent : ScopeId} (alive : page.scopes.isAlive parent = true)
    (settings : Fields) : Does page (page.createScope parent settings).1
  | holdScope {page : Page} {scope : ScopeId} (alive : page.scopes.isAlive scope = true) :
    Does page (page.holdScope scope)
  | releaseScope {page : Page} (scope : ScopeId) : Does page (page.releaseScope scope)
  | disposeScope {page : Page} (scope : ScopeId) : Does page (page.disposeScope scope)
  | setSource {page : Page} (scope : ScopeId) (source : Source) :
    Does page (page.setSource scope source).1
  | previewSource {page : Page} (scope : ScopeId) (source : Source) :
    Does page (page.previewSource scope source).1
  | receiveSource {page : Page} (scope : ScopeId) (source : Source) :
    Does page (page.receiveSource scope source)
  | putSource {page : Page} (scope : ScopeId) (source : Source) :
    Does page (page.putSource scope source)
  | createHandler {page : Page} (name : String) (actions : List HandlerAction) :
    Does page (page.createHandler name actions).1
  | addHandler {page : Page} (scope : ScopeId) (id : String) (handler : HandlerId)
    (onlyHere : Bool) : Does page (page.addHandler scope id handler onlyHere).1
  | removeHandler {page : Page} (scope : ScopeId) (id : String) (handler : HandlerId) :
    Does page (page.removeHandler scope id handler).1
  | createComponent {page : Page} {scope : ScopeId} (there : scope < page.scopes.scopes.size)
    (node : NodeId) (host : HostComponent) (priority : Priority) :
    Does page (page.createComponent scope node host priority).1
  | createCommand {page : Page} {scope : ScopeId} (there : scope < page.scopes.scopes.size)
    (registry : RegistryId) (keyword : String) (node : NodeId) :
    Does page (page.createCommand scope registry keyword node).1
  | createCollection {page : Page} {scope : ScopeId} (alive : page.scopes.isAlive scope = true)
    (registry : RegistryId) : Does page (page.createCollection scope registry).1
  | extract {page : Page} (collection : CollectionId) (roots : List NodeId) :
    Does page (page.extract collection roots).1
  | subscribe {page : Page} (component : ComponentId) (ids : List String) :
    Does page (page.subscribe component ids).1
  | disposeComponent {page : Page} (component : ComponentId) :
    Does page (page.disposeComponent component)
  | disposeCollection {page : Page} (collection : CollectionId) :
    Does page (page.disposeCollection collection)
  | releaseCollection {page : Page} (collection : CollectionId) :
    Does page (page.releaseCollection collection)
  | dispose {page : Page} : Does page page.dispose

/-- What a host begins, and how far it comes at once. -/
inductive Begins : Page → Page × Stage → Prop
  | wait {page : Page} (scope : ScopeId) (id : String) : Begins page (page.startWait scope id)
  | evaluation {page : Page} {scope : ScopeId} (alive : page.scopes.isAlive scope = true)
    (wait : Bool) (token : Token) : Begins page (page.startEvaluation scope wait token)
  | prepare {page : Page} (component : ComponentId) : Begins page (page.startPrepare component)
  | render {page : Page} (component : ComponentId) (cause : Option Source) :
    Begins page (page.startRender component cause)
  | load {page : Page} {scope : ScopeId} (alive : page.scopes.isAlive scope = true)
    (provider : ProviderId) (id : String) (inbox : InboxId) (keep : Bool) :
    Begins page (page.startLoad scope provider id inbox keep)
  | run {page : Page} (collection : CollectionId) : Begins page (page.startRun collection)
  | mount {page : Page} (alive : page.scopes.isAlive rootScope = true) (roots : List NodeId) :
    Begins page (page.startMount roots)
  | drain {page : Page} (fuel : Nat) : Begins page (page.startDrain fuel)
  | service {page : Page} (fuel : Nat) : Begins page (page.startService fuel)

variable {page after : Page} {id : ComponentId} {cell : Component}

theorem Does.tends (h : Does page after) : Tends page after := by
  cases h with
  | aside aside => exact tends_aside aside
  | createScope alive settings => exact tends_heeds (Scopes.heeds_grow alive settings)
  | holdScope alive => exact tends_holdScope alive
  | releaseScope scope => exact tends_releaseScope page scope
  | disposeScope scope => exact tends_heeds (Scopes.minds_dispose page.scopes scope).heeds
  | setSource scope source => exact tends_setSource page scope source
  | previewSource scope source => exact (tends_record page _).trans (tends_setSource _ scope source)
  | receiveSource scope source => exact tends_changeScopes (Scopes.minds_receive _ scope source)
  | putSource scope source => exact tends_changeScopes (Scopes.minds_putAndAnnounce _ scope source)
  | createHandler name actions =>
      have hminds : Scopes.Minds page.scopes
          { page.scopes with hosts := page.scopes.hosts.push { name, actions } } :=
        Scopes.minds_of_scopes rfl rfl
      exact tends_heeds hminds.heeds
  | addHandler scope id handler onlyHere =>
      refine tends_changeScopes ?_
      split
      · exact Scopes.minds_addLocalHandler _ scope id nofun nofun
      · exact Scopes.minds_addHandler _ scope id nofun nofun
  | removeHandler scope id handler =>
      exact tends_changeScopes (Scopes.minds_removeHandler _ scope id nofun nofun)
  | createComponent there node host priority => exact tends_createComponent there node host priority
  | createCommand there registry keyword node =>
      exact tends_createCommand there registry keyword node
  | createCollection alive registry => exact tends_createCollection alive registry
  | extract collection roots => exact tends_extract page collection roots
  | subscribe component ids => exact tends_subscribe page component ids
  | disposeComponent component => exact tends_disposeComponent page component
  | disposeCollection collection => exact tends_disposeCollection page collection
  | releaseCollection collection => exact tends_releaseCollection page collection
  | dispose =>
      have hunmounted : Tends page { page with mounts := [] } :=
        tends_aside ⟨rfl, rfl, rfl, Nat.le_refl _⟩
      have hdisposed := (hunmounted.trans (.foldl tends_disposeCollection _ page.mounts)).trans
        (.foldl tends_releaseCollection _ page.mounts)
      exact (hdisposed.trans (tends_closeQueue _)).trans
        (tends_heeds (Scopes.minds_dispose _ rootScope).heeds)

theorem Begins.reaches {reached : Page × Stage} (h : Begins page reached) :
    Reaches page [] reached := by
  cases h with
  | wait scope id => exact reaches_startWait page scope id
  | evaluation alive wait token =>
      exact .then (tends_holdScope alive) (reaches_evaluateQuery _ wait _ token.ask)
  | prepare component => exact (goesOn_task (accounts_prepare page component)).stageOf
  | render component cause => exact (goesOn_task (accounts_render page component cause)).stageOf
  | load alive provider id inbox keep =>
      exact reaches_stageOfLoad _
        ((tends_holdScope alive).then (accounts_load _ provider id inbox keep))
  | run collection => exact (goesOn_beginRun page collection).stageOf
  | mount alive roots => exact (goesOn_beginMount alive roots).ofProgress _
  | drain fuel => exact (goesOn_beginDrain fuel page).stageOf
  | service fuel => exact reaches_startService fuel page

/-! ## What disposing does -/

theorem get?_disposeComponent (hcell : page.components.get? id = some cell) :
    (page.disposeComponent id).components.get? id =
      some { cell with triggers := [], disposed := true, behaviour := cell.behaviour.forget } := by
  rw [disposeComponent, hcell]
  dsimp only
  rw [changeComponent, Arena.get?_modify, if_pos rfl]
  exact congrArg (Option.map _) hcell

/-- Disposing a component that has nothing left to be disposed changes nothing. -/
theorem disposeComponent_eq_self (hcell : page.components.get? id = some cell)
    (hdisposed : cell.disposed = true) (hsilent : cell.triggers = [])
    (hforgot : cell.behaviour.forget = cell.behaviour) : page.disposeComponent id = page := by
  have hcells : page.components.modify id (fun cell =>
      { cell with triggers := [], disposed := true, behaviour := cell.behaviour.forget }) =
        page.components := by
    refine Scopes.modify_eq_self fun other hother => ?_
    obtain rfl := Option.some.inj (hcell.symm.trans hother)
    rw [hforgot, ← hsilent, ← hdisposed]
  rw [disposeComponent, hcell]
  dsimp only
  rw [hdisposed, Bool.true_or, if_pos rfl, changeComponent, hcells]

theorem disposeComponent_twice (page : Page) (id : ComponentId) :
    (page.disposeComponent id).disposeComponent id = page.disposeComponent id := by
  cases hcell : page.components.get? id with
  | none =>
      have hnothing : page.disposeComponent id = page := by rw [disposeComponent, hcell]
      rw [hnothing, hnothing]
  | some cell =>
      exact disposeComponent_eq_self (get?_disposeComponent hcell) rfl rfl (forget_forget _)

theorem render_of_disposed (hcell : page.components.get? id = some cell)
    (hdisposed : cell.disposed = true) (cause : Option Source) :
    page.render id cause = (page, .done) := by
  have hrefused : ¬cell.admits = true := fun hadmits => by
    rw [Component.kept_of_admits hadmits] at hdisposed
    cases hdisposed
  rw [render, hcell]
  exact if_neg hrefused

end Page

/-- A page and the activities that are under way on it. -/
structure World where
  page : Page
  live : List Activity

namespace World

variable {world later : World} {id : ComponentId} {cell : Component}

/-- The components that are being rendered, each once for every render of it that had to wait and
is neither finished nor dropped. -/
def rendering (world : World) : List ComponentId := world.live.flatMap Activity.rendering

/-- One thing that happens in a world. An activity that is polled has fuel. -/
inductive Step : World → World → Prop
  | act {page after : Page} (live : List Activity) (does : page.Does after) :
    Step ⟨page, live⟩ ⟨after, live⟩
  | start {page : Page} {reached : Page × Stage} (live : List Activity)
    (begins : page.Begins reached) :
    Step ⟨page, live⟩ ⟨reached.1, reached.2.activities ++ live⟩
  | poll {page : Page} {live others : List Activity} {activity : Activity}
    (among : live.Perm (activity :: others)) (fuel : Nat) :
    Step ⟨page, live⟩ ⟨(page.poll (fuel + 1) activity).1,
      (page.poll (fuel + 1) activity).2.activities ++ others⟩
  | drop {page : Page} {live others : List Activity} {activity : Activity}
    (among : live.Perm (activity :: others)) : Step ⟨page, live⟩ ⟨page.drop activity, others⟩

/-- Whatever happens from one world to another. -/
abbrev Leads : World → World → Prop := ReflTransGen Step

/-- A world that a new page leads to. -/
def Reached (world : World) : Prop :=
  ∃ options page, Page.ofOptions options = .ok page ∧ Leads ⟨page, []⟩ world

/-- The books are right. -/
structure Right (world : World) : Prop where
  tallied : world.page.Tallied world.rendering
  numbered : ∀ activity ∈ world.live, activity.Numbered world.page.flights

theorem rendering_activities (stage : Stage) :
    stage.activities.flatMap Activity.rendering = stage.rendering := by
  cases stage with
  | finished result => rfl
  | waiting awake activity => exact List.append_nil _

theorem numbered_activities {stage : Stage} {bound : FlightId} (h : stage.Numbered bound) :
    ∀ activity ∈ stage.activities, activity.Numbered bound := by
  cases stage with
  | finished result => exact fun _ hin => absurd hin List.not_mem_nil
  | waiting awake activity =>
      intro other hother
      obtain rfl := List.mem_singleton.mp hother
      exact h

/-- Some activities make place for others. -/
theorem Right.change {page after : Page} {live others : List Activity}
    (h : Right ⟨page, live⟩) (gone left : List Activity) (hlive : live.Perm (gone ++ others))
    (haccounts : Page.Accounts page (gone.flatMap Activity.rendering) after
      (left.flatMap Activity.rendering))
    (hnumbered : ∀ activity ∈ left, activity.Numbered after.flights) :
    Right ⟨after, left ++ others⟩ where
  tallied := by
    have hbefore := h.tallied.perm (hlive.flatMap_right Activity.rendering)
    rw [List.flatMap_append] at hbefore
    rw [rendering, List.flatMap_append]
    exact haccounts.tallied _ hbefore
  numbered activity hin := by
    rcases List.mem_append.mp hin with hnew | hold
    · exact hnumbered activity hnew
    · exact (h.numbered activity (hlive.mem_iff.mpr (List.mem_append_right _ hold))).le
        haccounts.lasts.flights

/-- Whatever happens, the books stay right, and nothing is undone that lasts. -/
theorem Right.step (h : Right world) (hstep : Step world later) :
    Right later ∧ Page.Lasts world.page later.page := by
  cases hstep with
  | act live does =>
      exact ⟨h.change [] [] (.refl _) does.tends fun _ hin => absurd hin List.not_mem_nil,
        does.tends.lasts⟩
  | start live begins =>
      obtain ⟨haccounts, hnumbered⟩ := begins.reaches
      rw [← rendering_activities] at haccounts
      exact ⟨h.change [] _ (.refl _) haccounts (numbered_activities hnumbered), haccounts.lasts⟩
  | poll among fuel =>
      obtain ⟨haccounts, hnumbered⟩ :=
        Page.reaches_poll fuel (h.numbered _ (among.mem_iff.mpr List.mem_cons_self))
      rw [← rendering_activities] at haccounts
      rw [← List.flatMap_singleton Activity.rendering] at haccounts
      exact ⟨h.change [_] _ among haccounts (numbered_activities hnumbered), haccounts.lasts⟩
  | @drop page live others activity among =>
      have haccounts := Page.accounts_drop page activity
      rw [← List.flatMap_singleton Activity.rendering activity] at haccounts
      exact ⟨h.change [activity] [] among haccounts fun _ hin => absurd hin List.not_mem_nil,
        haccounts.lasts⟩

theorem Leads.lasts (h : Leads world later) (hright : Right world) :
    Right later ∧ Page.Lasts world.page later.page := by
  induction h with
  | refl => exact ⟨hright, .refl _⟩
  | tail _ hstep ih =>
      obtain ⟨hafter, hlasts⟩ := ih.1.step hstep
      exact ⟨hafter, ih.2.trans hlasts⟩

theorem right_opened {options : Options} {page : Page} (h : Page.ofOptions options = .ok page) :
    Right ⟨page, []⟩ := by
  obtain ⟨patterns, -, rfl⟩ := Page.ofOptions_ok h
  have hopened := Moment.orderly_first options.settings
  have hnone : ∀ scope name, (Moment.first options.settings).scopes.handlers scope name = [] :=
    fun scope name => (Scopes.handlers_grow none options.settings scope).trans (by
      rw [Scopes.handlers, Scopes.look_of_ge (Nat.zero_le scope)]
      rfl)
  have hempty : Scopes.Ordered {} := fun scope parent hparent => by
    rw [Scopes.parent?, Scopes.look_of_ge (Nat.zero_le scope)] at hparent
    cases hparent
  have hlinked := Scopes.linked_empty.grow hempty none options.settings
  refine ⟨⟨⟨hopened.order, hopened.held⟩, hlinked, ?_, ?_, ?_, ?_, fun id _ scope name _ => ?_⟩, ?_⟩
  · exact fun _ _ hcell => by cases hcell
  · exact fun _ _ hcell => by cases hcell
  · exact fun _ hin => absurd hin List.not_mem_nil
  · exact fun _ _ hcell => by cases hcell
  · change ((Moment.first options.settings).scopes.handlers scope name).count _ = 0
    rw [hnone]
    rfl
  · exact fun _ hin => absurd hin List.not_mem_nil

theorem Reached.right (h : world.Reached) : Right world := by
  obtain ⟨options, page, hopened, hleads⟩ := h
  exact (hleads.lasts (right_opened hopened)).1

/-- A component is being rendered as often as it counts, once at most if it does not allow more. While
its scope is alive and not disposed it is registered there exactly once for each of its ids and for no
other. Disposing it takes the ids away, and doing so again changes nothing. From then on, whatever
happens, it has no ids, no render of it starts, and the renders under way only become fewer. -/
theorem component_lifecycle (h : world.Reached)
    (hcell : world.page.components.get? id = some cell) :
    (cell.inFlight = world.rendering.count id ∧
      (cell.behaviour.allowsMany = false → cell.inFlight ≤ 1)) ∧
    (world.page.scopes.isAlive cell.scope = true →
      world.page.scopes.isDisposed cell.scope = false →
        ∀ name, (world.page.scopes.handlers cell.scope name).count (.trigger id) =
          if name ∈ cell.triggers then 1 else 0) ∧
    (∃ disposed, (world.page.disposeComponent id).components.get? id = some disposed ∧
      disposed.disposed = true ∧ disposed.triggers = []) ∧
    (world.page.disposeComponent id).disposeComponent id = world.page.disposeComponent id ∧
    (cell.disposed = true → ∀ later, Leads world later →
      ∃ after, later.page.components.get? id = some after ∧ after.disposed = true ∧
        after.triggers = [] ∧ after.inFlight ≤ cell.inFlight ∧
        later.page.disposeComponent id = later.page ∧
        ∀ cause, later.page.render id cause = (later.page, .done)) := by
  have hright := h.right
  have hbooked := hright.tallied.booked id cell hcell
  refine ⟨⟨hbooked.flying, hbooked.single⟩, hbooked.enrolled,
    ⟨_, Page.get?_disposeComponent hcell, rfl, rfl⟩, Page.disposeComponent_twice _ id,
    fun hdisposed later hleads => ?_⟩
  obtain ⟨hlater, hlasts⟩ := hleads.lasts hright
  obtain ⟨after, hafter, hbecomes⟩ := hlasts.cells id cell hcell
  obtain ⟨hstill, hfewer⟩ := hbecomes.disposed hdisposed
  obtain ⟨hsilent, hforgot⟩ := (hlater.tallied.booked id after hafter).gone hstill
  exact ⟨after, hafter, hstill, hsilent, hfewer,
    Page.disposeComponent_eq_self hafter hstill hsilent hforgot,
    Page.render_of_disposed hafter hstill⟩

/-- A component that waits for data before it shows anything. -/
def badge : HostComponent := { name := "badge", render := [.await "data"] }

/-- The badge, registered for one source under two spellings. -/
def badged (page : Page) : Page :=
  ((page.createComponent Page.rootScope 0 badge .normal).1.subscribe 0 ["DB.Items", "db.items"]).1

/-- The badge waits for data. -/
def busy (page : Page) : World where
  page := ((badged page).startRender 0 none).1
  live := ((badged page).startRender 0 none).2.activities

theorem busy_reached {page : Page} (h : Page.ofOptions {} = .ok page) : (busy page).Reached := by
  have hthere : Page.rootScope < page.scopes.scopes.size := by
    obtain ⟨patterns, -, rfl⟩ := Page.ofOptions_ok h
    exact Nat.one_pos
  have hmade : Leads ⟨page, []⟩ ⟨badged page, []⟩ :=
    .tail (.single (.act [] (.createComponent hthere 0 badge .normal))) (.act [] (.subscribe 0 _))
  have hbusy := Step.start [] (@Page.Begins.render (badged page) 0 none)
  rw [List.append_nil] at hbusy
  exact ⟨{}, page, h, hmade.tail hbusy⟩

/-- The badge is busy with one render and registered once. After it is disposed it is neither, however
the data arrives. -/
theorem busy_badge_disposed : ∃ page, Page.ofOptions {} = .ok page ∧ (busy page).Reached ∧
    (busy page).rendering.count 0 = 1 ∧
    ((busy page).page.scopes.handlers Page.rootScope "db.items").count (.trigger 0) = 1 ∧
    ((busy page).page.scopes.handlers Page.rootScope "DB.Items").count (.trigger 0) = 0 ∧
    ∀ later, Leads ⟨(busy page).page.disposeComponent 0, (busy page).live⟩ later →
      ∃ after, later.page.components.get? 0 = some after ∧ after.triggers = [] ∧
        after.inFlight ≤ 1 ∧ ∀ cause, later.page.render 0 cause = (later.page, .done) := by
  have hruns : ((Page.ofOptions {}).toOption.any fun page =>
      ((busy page).page.components.get? 0).any fun cell =>
        cell.inFlight == 1 && cell.triggers == ["db.items"] && cell.scope == Page.rootScope &&
          (busy page).page.scopes.isAlive Page.rootScope &&
          !(busy page).page.scopes.isDisposed Page.rootScope) = true := by
    decide +kernel
  cases hpage : Page.ofOptions {} with
  | error error =>
      rw [hpage] at hruns
      cases hruns
  | ok page =>
      rw [hpage] at hruns
      rw [Except.toOption, Option.any_some] at hruns
      obtain ⟨cell, hcell, hruns⟩ := (Option.any_eq_true _ _).mp hruns
      simp only [Bool.and_eq_true, beq_iff_eq, Bool.not_eq_true'] at hruns
      obtain ⟨⟨⟨⟨hflying, htriggers⟩, hscope⟩, halive⟩, hkept⟩ := hruns
      have hreached := busy_reached hpage
      obtain ⟨⟨hcount, -⟩, honce, -⟩ := component_lifecycle hreached hcell
      rw [hscope, htriggers] at honce
      have hdisposed : World.Reached ⟨(busy page).page.disposeComponent 0, (busy page).live⟩ := by
        obtain ⟨options, opened, hopened, hleads⟩ := hreached
        exact ⟨options, opened, hopened, hleads.tail (.act _ (.disposeComponent 0))⟩
      have hgone := (component_lifecycle hdisposed (Page.get?_disposeComponent hcell)).2.2.2.2 rfl
      refine ⟨page, rfl, hreached, hcount.symm.trans hflying,
        (honce halive hkept _).trans (if_pos List.mem_cons_self),
        (honce halive hkept _).trans (if_neg (by decide)), fun later hlater => ?_⟩
      obtain ⟨after, hafter, -, hsilent, hfewer, -, hrefused⟩ := hgone later hlater
      exact ⟨after, hafter, hsilent, Nat.le_trans hfewer (Nat.le_of_eq hflying), hrefused⟩

end World

end ReactiveMarkup
