import ReactiveMarkup.Proofs.Face.Kinds
import ReactiveMarkup.Proofs.Page.Sources

/-!
# What renders keep

A render of a binding writes its text and is over at once, so the binding is never busy when it is
asked to render again. Other components change nothing that is bound, except that a load publishes
sources, maybe after waiting. Whatever happens, the page is sound when a task is over, and also while
it waits, with what it still holds in the ledger.
-/

namespace ReactiveMarkup

/-- The ledger with what a waiting task owes. -/
def Ledger.lend (ledger : Ledger) (task : Task) : Ledger :=
  { ledger with owed := task.component.toList ++ ledger.owed, loads := ledger.loads + 1 }

namespace Page

variable {page before middle after : Page} {ledger other : Ledger} {component : ComponentId}

/-- A task that waits: a load of a component of a collection. -/
structure Errand (page : Page) (task : Task) : Prop where
  component : ∃ component, task.component = some component ∧ page.Collected component
  load : ∃ load id, task.work = .load load ∧ load.receiver = .command id rootScope

def Answers (before : Page) (ledger : Ledger) : Page × Progress Work → Prop
  | (after, .finished _) => Kept before after ledger
  | (after, .suspended _ work) =>
    Kept before after { ledger with loads := ledger.loads + 1 } ∧
      ∃ load id, work = .load load ∧ load.receiver = .command id rootScope

def Ends (before : Page) (ledger : Ledger) : Page × Progress Task → Prop
  | (after, .finished _) => Kept before after ledger
  | (after, .suspended _ task) => Kept before after (ledger.lend task) ∧ after.Errand task

theorem Errand.stays {task : Task} (h : before.Errand task) (hstays : Stays before after) :
    after.Errand task := by
  obtain ⟨component, hcomponent, hin⟩ := h.component
  exact ⟨⟨component, hcomponent, hstays.collected_iff.mpr hin⟩, h.load⟩

theorem Kept.answers (h : Kept before middle other) {reached : Page × Progress Work}
    (hreached : Answers middle ledger reached) : Answers before ledger reached := by
  obtain ⟨after, progress⟩ := reached
  cases progress with
  | finished result => exact h.trans hreached
  | suspended on work => exact ⟨h.trans hreached.1, hreached.2⟩

theorem Kept.ends (h : Kept before middle other) {reached : Page × Progress Task}
    (hreached : Ends middle ledger reached) : Ends before ledger reached := by
  obtain ⟨after, progress⟩ := reached
  cases progress with
  | finished result => exact h.trans hreached
  | suspended on task => exact ⟨h.trans hreached.1, hreached.2⟩

/-! ## Loads -/

theorem Sound.record (h : page.Sound ledger) (event : Event) :
    Kept page (page.record event) ledger :=
  h.beside ⟨rfl, rfl, rfl, rfl, rfl, ⟨rfl, rfl⟩, rfl, rfl, Nat.le_refl _⟩

/-- Whether something is taken note of makes no difference. -/
theorem Kept.noted (h : Kept before after ledger) (reported : Bool) (event : Event) :
    Kept before (if reported then after.record event else after) ledger := by
  split
  · exact h.trans (h.sound.record event)
  · exact h

theorem Sound.publish (h : page.Sound ledger) (sources : List Source) :
    Kept page (page.publish rootScope sources) ledger := by
  induction sources generalizing page with
  | nil => exact .refl h
  | cons source rest ih =>
      have hset := h.setSource source
      exact hset.trans (ih hset.sound)

theorem Sound.accept (h : page.Sound ledger) {load : Load} {id : ComponentId}
    (hreceiver : load.receiver = .command id rootScope) (sets : ResultSets) :
    Kept page (page.accept load sets).1 ledger ∧
      (page.accept load sets).2.1.receiver = load.receiver := by
  rw [Page.accept, hreceiver]
  dsimp only
  split
  · exact ⟨.refl h, hreceiver⟩
  · split
    · exact ⟨.refl h, hreceiver⟩
    · split
      · exact ⟨.refl h, rfl⟩
      · exact ⟨h.publish _, hreceiver⟩

theorem Sound.runAnswer (h : page.Sound ledger) {load : Load} {id : ComponentId}
    (hreceiver : load.receiver = .command id rootScope) (steps : List ProviderStep) :
    Kept page (page.runAnswer load steps).1 ledger ∧
      (page.runAnswer load steps).2.1.receiver = load.receiver := by
  induction steps generalizing page load with
  | nil => exact ⟨.refl h, rfl⟩
  | cons step rest ih =>
      cases step with
      | report =>
          have hrecord := h.record (.requested load.id load.parameters)
          obtain ⟨hkept, hsame⟩ := ih hrecord.sound hreceiver
          exact ⟨hrecord.trans hkept, hsame⟩
      | await gate =>
          rw [Page.runAnswer]
          split
          · exact ih h hreceiver
          · exact ⟨.refl h, rfl⟩
      | pause turns =>
          cases turns with
          | zero => exact ih h hreceiver
          | succ turns => exact ⟨.refl h, rfl⟩
      | deliver sets reported =>
          obtain ⟨haccepted, hsame⟩ := h.accept hreceiver sets
          rw [Page.runAnswer]
          generalize page.accept load sets = reached at haccepted hsame ⊢
          obtain ⟨accepting, load', accepted⟩ := reached
          dsimp only at haccepted hsame ⊢
          have hnoted := haccepted.noted reported (.answered accepted)
          generalize (if reported then accepting.record (.answered accepted) else accepting) = noted
            at hnoted ⊢
          split
          · obtain ⟨hkept, hagain⟩ := ih hnoted.sound (hsame.trans hreceiver)
            exact ⟨hnoted.trans hkept, hagain.trans hsame⟩
          · exact ⟨hnoted, hsame⟩
      | insist sets reported =>
          obtain ⟨haccepted, hsame⟩ := h.accept hreceiver sets
          rw [Page.runAnswer]
          have hnoted := haccepted.noted reported (.answered (page.accept load sets).2.2)
          obtain ⟨hkept, hagain⟩ := ih hnoted.sound (hsame.trans hreceiver)
          exact ⟨hnoted.trans hkept, hagain.trans hsame⟩
      | fail error => exact ⟨.refl h, rfl⟩

theorem Sound.ask (h : page.Sound ledger) (load : Load) :
    Kept page (page.ask load).1 ledger ∧ (page.ask load).2.receiver = load.receiver := by
  rw [Page.ask]
  split
  · exact ⟨.refl h, rfl⟩
  · exact ⟨h.beside ⟨rfl, rfl, rfl, rfl, rfl, ⟨rfl, rfl⟩, rfl, rfl, Nat.le_refl _⟩, rfl⟩

theorem Sound.runLoad (more : Nat) (h : page.Sound ledger) {load : Load} {id : ComponentId}
    (hreceiver : load.receiver = .command id rootScope) :
    Kept page (page.runLoad more load).1 ledger ∧
      ∀ on rest, (page.runLoad more load).2 = .suspended on rest →
        rest.receiver = load.receiver := by
  induction more using Nat.strongRecOn generalizing page load with
  | ind more ih =>
      obtain ⟨hkept, hsame⟩ := h.runAnswer hreceiver load.rest
      rw [Page.runLoad]
      generalize page.runAnswer load load.rest = reached at hkept hsame ⊢
      obtain ⟨after, reached, progress⟩ := reached
      cases progress with
      | suspended on rest =>
          refine ⟨hkept, fun on' rest' hrest => ?_⟩
          obtain ⟨-, rfl⟩ := Progress.suspended.inj hrest
          exact hsame
      | finished result =>
          cases result with
          | ok => exact ⟨hkept, fun _ _ hrest => by cases hrest⟩
          | error failure =>
              dsimp only at hkept hsame ⊢
              split
              · exact ⟨hkept, fun _ _ hrest => by cases hrest⟩
              · split
                · exact ⟨hkept, fun _ _ hrest => by cases hrest⟩
                · exact ⟨hkept, fun _ _ hrest => by cases hrest⟩
                · next attempts more _ =>
                    obtain ⟨hasked, hagain⟩ := hkept.sound.ask
                      { reached with attempts := some attempts }
                    obtain ⟨hloaded, hlast⟩ := ih more (Nat.lt_succ_self more) hasked.sound
                      (hagain.trans (hsame.trans hreceiver))
                    exact ⟨hkept.trans (hasked.trans hloaded), fun on rest hrest =>
                      (hlast on rest hrest).trans (hagain.trans hsame)⟩

/-- A request that is over has given its hold on the scope back. -/
theorem Sound.continueLoad (h : page.Sound { ledger with loads := ledger.loads + 1 }) {load : Load}
    {id : ComponentId} (hreceiver : load.receiver = .command id rootScope) :
    Answers page ledger (page.continueLoad load) := by
  obtain ⟨hkept, hsame⟩ := h.runLoad ((load.attempts.map Attempts.limit).getD 0) hreceiver
  rw [Page.continueLoad]
  generalize page.runLoad ((load.attempts.map Attempts.limit).getD 0) load = reached
    at hkept hsame ⊢
  obtain ⟨after, progress⟩ := reached
  cases progress with
  | finished result =>
      dsimp only at hkept ⊢
      rw [Answers, hreceiver]
      exact hkept.trans hkept.sound.releaseScope
  | suspended on rest =>
      exact ⟨hkept, rest, id, rfl, (hsame on rest rfl).trans hreceiver⟩

/-! ## Renders -/

theorem modify_cancel {α : Type} {f g : α → α} (arena : Arena α) (id : Nat)
    (hcancel : ∀ cell, g (f cell) = cell) : (arena.modify id f).modify id g = arena := by
  refine congrArg Arena.mk (Array.ext_getElem? fun i => ?_)
  rw [Array.getElem?_modify, Arena.modify, Array.getElem?_modify]
  split
  · simp [Function.comp_def, hcancel]
  · rfl

/-- Entering a render, changing markup and leaving it changes markup. -/
theorem releaseTask_enter (component : ComponentId) (f : Markup → Markup) :
    (((page.holdComponent component).changeComponent component fun cell =>
      { cell with inFlight := cell.inFlight + 1 }).changeMarkup f).releaseTask (some component) true =
        page.changeMarkup f := by
  have hcells := modify_cancel page.components component
    (f := fun cell => { cell with inFlight := cell.inFlight + 1 })
    (g := fun cell => { cell with inFlight := cell.inFlight - 1 }) fun _ => rfl
  simp only [releaseTask, Page.changeComponent, Page.holdComponent, Page.releaseComponent, if_true,
    hcells, List.erase_cons_head, Page.changeMarkup]

/-- A binding is rendered at once, and what it renders is its token. -/
theorem beginRender_bound {cell : Component} {place : Place} {token : Token}
    (hbound : Component.bound? cell.behaviour = some (place, token))
    (halive : page.scopes.isAlive cell.scope = true) (cause : Option Source) :
    page.beginRender component cell cause =
      (page.changeMarkup (·.setKind cell.node
        (place.write (token.text (page.scopes.find? cell.scope)))), .done) := by
  cases hbehaviour : cell.behaviour with
  | text shown =>
      rw [hbehaviour] at hbound
      obtain ⟨rfl, rfl⟩ := Prod.mk.inj (Option.some.inj hbound)
      rw [beginRender, hbehaviour]
      dsimp only
      rw [renderNow, hbehaviour]
      dsimp only
      rw [if_pos halive]
      rfl
  | attributeText name shown =>
      rw [hbehaviour] at hbound
      obtain ⟨rfl, rfl⟩ := Prod.mk.inj (Option.some.inj hbound)
      rw [beginRender, hbehaviour]
      dsimp only
      rw [renderNow, hbehaviour]
      dsimp only
      rw [if_pos halive]
      rfl
  | wrapper => rw [hbehaviour] at hbound; cases hbound
  | load command => rw [hbehaviour] at hbound; cases hbound
  | faces command => rw [hbehaviour] at hbound; cases hbound
  | host host => rw [hbehaviour] at hbound; cases hbound

/-- A component without a binding is due for nothing. -/
theorem Sound.forgive (h : page.Sound ledger) (hfresh : component ∉ ledger.fresh)
    (hspot : page.spot? component = none) :
    page.Sound { ledger with due := ledger.due.filter (· ≠ component) } :=
  { h with
    pending := fun other hother => List.mem_filter.mpr ⟨h.pending other hother, decide_eq_true
      fun hself => hfresh (hself ▸ hother)⟩
    shown := fun other spot hother hmore hdue => by
      refine h.shown other spot hother hmore fun hc => hdue (List.mem_filter.mpr ⟨hc, ?_⟩)
      refine decide_eq_true fun hself => ?_
      rw [hself, hspot] at hmore
      cases hmore }

/-- What is rendered at once and has no binding changes nothing that is bound. -/
theorem Sound.renderNow (h : page.Sound ledger) {cell cell' : Component}
    (hcell : page.components.get? component = some cell') (hsame : cell'.behaviour = cell.behaviour)
    (hunbound : Component.bound? cell.behaviour = none) :
    Kept page (page.renderNow component cell).1 ledger := by
  rw [Page.renderNow]
  split
  · next hbehaviour => rw [hbehaviour] at hunbound; cases hunbound
  · next hbehaviour => rw [hbehaviour] at hunbound; cases hunbound
  · split
    · next parent _ =>
        split
        · exact h.changeMarkup (f := (Markup.unwrap · parent cell.node))
            (Markup.keeps_unwrap page.markup parent cell.node)
        · exact .refl h
    · exact .refl h
  · next command hbehaviour =>
      split
      · split
        · exact .refl h
        · split
          · exact .refl h
          · next markup after output hrefresh =>
              have hkeeps := (ShowCommand.keeps_refresh hrefresh).trans
                (Markup.keeps_replaceChildren markup cell.node output)
              have hkept : Kept page
                  { page with markup := markup.replaceChildren cell.node output } ledger :=
                h.changeMarkup (f := fun _ => markup.replaceChildren cell.node output) hkeeps
              have hfaces : ∀ other, page.components.get? component = some other →
                  other.behaviour = .faces command := by
                intro other hother
                rw [hcell] at hother
                rw [← Option.some.inj hother, hsame, hbehaviour]
              refine hkept.trans (hkept.sound.changeComponent (fun other hother => ?_)
                fun other hother hworking => ?_)
              · rw [Component.spot?, Component.spot?, hfaces other hother]
                rfl
              · exact ⟨hworking.scope, hworking.kept, nofun, nofun, hworking.listens⟩
      · exact .refl h
  · exact .refl h
  · exact .refl h

/-- The end of a task gives back what it holds. -/
theorem Sound.closeTask (hin : page.Collected component)
    {reached : Page × Progress Work} {renders : Bool}
    (h : Answers page { ledger with owed := component :: ledger.owed } reached) :
    Ends page ledger (reached.1.closeTask (some component) renders reached.2) := by
  obtain ⟨after, progress⟩ := reached
  cases progress with
  | finished result =>
      have hkept : Kept page after { ledger with owed := component :: ledger.owed } := h
      change Kept page (after.releaseTask (some component) renders) ledger
      rw [releaseTask]
      split
      · have hleft := @Sound.changeComponent _ _ component hkept.sound
          (fun cell => { cell with inFlight := cell.inFlight - 1 }) (fun _ _ => rfl)
          fun cell _ hworking => { hworking with
            free := fun hspot => by rw [hworking.free hspot] }
        exact hkept.trans (hleft.trans hleft.sound.releaseComponent)
      · exact hkept.trans hkept.sound.releaseComponent
  | suspended on work =>
      obtain ⟨hkept, hload⟩ := h
      exact ⟨hkept, ⟨⟨component, rfl, hkept.stays.collected_iff.mpr hin⟩, hload⟩⟩

/-- Work of a component without a binding. -/
theorem Sound.beginRender (h : page.Sound ledger) {cell cell' : Component}
    (hcell : page.components.get? component = some cell') (hsame : cell'.behaviour = cell.behaviour)
    (hunbound : Component.bound? cell.behaviour = none) (hown : ∀ host, cell.behaviour ≠ .host host)
    (hscope : cell.scope = rootScope) (cause : Option Source) :
    Answers page ledger (page.beginRender component cell cause) := by
  cases hbehaviour : cell.behaviour with
  | text token => rw [hbehaviour] at hunbound; cases hunbound
  | attributeText name token => rw [hbehaviour] at hunbound; cases hunbound
  | wrapper =>
      have hnow := h.renderNow hcell hsame hunbound
      rw [Page.beginRender, hbehaviour]
      exact hnow
  | faces command =>
      have hnow := h.renderNow hcell hsame hunbound
      rw [Page.beginRender, hbehaviour]
      exact hnow
  | host host => exact absurd hbehaviour (hown host)
  | load command =>
      rw [Page.beginRender, hbehaviour]
      dsimp only
      rw [hscope, if_pos h.isAlive]
      have hheld := h.holdScope
      generalize hload : ({
        receiver := .command component rootScope
        provider := command.provider
        id := command.name
        parameters := command.resolveParameters (page.scopes.find? rootScope)
        attempts := some (Attempts.ofLimit command.retries) } : Load) = load
      have hreceiver : load.receiver = .command component rootScope := by rw [← hload]
      obtain ⟨hasked, hagain⟩ := hheld.sound.ask load
      exact hheld.answers
        (hasked.answers (hasked.sound.continueLoad (hagain.trans hreceiver)))

/-- A component that is rendered is due no more. -/
theorem Sound.render (h : page.Sound ledger) (hin : page.Collected component)
    (hfresh : component ∉ ledger.fresh) (cause : Option Source) :
    Ends page { ledger with due := ledger.due.filter (· ≠ component) }
      (page.render component cause) := by
  obtain ⟨cell, hcell, hworking⟩ := h.cells component hin
  rw [Page.render, hcell]
  dsimp only
  cases hbound : Component.bound? cell.behaviour with
  | some bound =>
      obtain ⟨place, token⟩ := bound
      have hcellSpot : cell.spot? = some ⟨cell.node, place, token, cell.priority⟩ := by
        rw [Component.spot?, hbound]
        rfl
      have hspot : page.spot? component = some ⟨cell.node, place, token, cell.priority⟩ := by
        rw [spot?, hcell]
        exact hcellSpot
      have hadmits : cell.admits = true := by
        have hfree := hworking.free (Option.isSome_iff_exists.mpr ⟨_, hcellSpot⟩)
        rw [Component.admits, Component.isBusy, hworking.kept, hfree]
        rfl
      rw [if_pos hadmits, beginRender_bound hbound (by rw [hworking.scope]; exact h.isAlive)]
      have hwritten := h.write hin hspot hfresh
      rw [hworking.scope]
      change Kept page (releaseTask _ (some component) true) _
      rw [releaseTask_enter]
      exact hwritten
  | none =>
      have hcellSpot : cell.spot? = none := by
        rw [Component.spot?, hbound]
        rfl
      have hspot : page.spot? component = none := by
        rw [spot?, hcell]
        exact hcellSpot
      have hforgiven := h.forgive hfresh hspot
      split
      · have hheld := hforgiven.holdComponent component
        have hentered := @Sound.changeComponent _ _ component hheld.sound
          (fun cell => { cell with inFlight := cell.inFlight + 1 }) (fun _ _ => rfl)
          fun other hother hotherWorking => { hotherWorking with
            free := fun hsome => by
              have hsame : other = cell := Option.some.inj (hother.symm.trans hcell)
              change other.spot?.isSome = true at hsome
              rw [hsame, hcellSpot] at hsome
              cases hsome }
        have hkept := hheld.trans hentered
        have hanswers := @Sound.beginRender _ _ component hkept.sound cell
          { cell with inFlight := cell.inFlight + 1 }
          (by
            rw [Page.changeComponent, Arena.get?_modify, if_pos rfl]
            change (page.components.get? component).map _ = _
            rw [hcell]
            rfl) rfl hbound hworking.own hworking.scope cause
        exact hkept.ends (Sound.closeTask (hkept.stays.collected_iff.mpr hin) hanswers)
      · exact .refl hforgiven

/-- A component that is prepared is fresh no more. -/
theorem Sound.prepare (h : page.Sound ledger) (hin : page.Collected component) :
    Ends page { ledger with fresh := ledger.fresh.filter (· ≠ component) }
      (page.prepare component) := by
  obtain ⟨cell, hcell, hworking⟩ := h.cells component hin
  obtain ⟨hkept, hlistens⟩ := h.subscribe hin cell.behaviour.dependencies
  have hripe := @Sound.ripen _ _ component hkept.sound fun spot hspot id hid => by
    refine hlistens id ?_
    rw [hkept.stays.spots, spot?, hcell] at hspot
    obtain ⟨⟨place, token⟩, hbound, hsame⟩ := Option.map_eq_some_iff.mp hspot
    obtain rfl := hsame
    cases hbehaviour : cell.behaviour <;> rw [hbehaviour] at hbound <;> cases hbound <;> exact hid
  rw [Page.prepare, hcell]
  dsimp only
  split
  · next host hbehaviour => exact absurd hbehaviour (hworking.own host)
  · exact ⟨hripe, hkept.stays⟩

/-- A job from the queue, which holds its component until it has begun. -/
theorem Sound.beginJob (hin : page.Collected component) (hfresh : component ∉ ledger.fresh)
    (h : page.Sound { ledger with owed := component :: ledger.owed }) (cause : Source) :
    Ends page { ledger with due := ledger.due.filter (· ≠ component) }
      (page.beginJob (.render component cause)) := by
  have hends := h.render hin hfresh (some cause)
  rw [Page.beginJob]
  generalize page.render component (some cause) = reached at hends ⊢
  obtain ⟨after, progress⟩ := reached
  cases progress with
  | finished result => exact hends.trans hends.sound.releaseComponent
  | suspended on task =>
      obtain ⟨hkept, herrand⟩ := hends
      have hsound := @Sound.within _ { (ledger.lend task) with
          owed := component :: (ledger.lend task).owed
          due := ledger.due.filter (· ≠ component) } _ hkept.sound
        ⟨fun other => Nat.le_of_eq (List.perm_middle.count_eq other).symm, Nat.le_refl _, fun _ h => h,
          fun _ h => h, hkept.sound.pending⟩
      have hreleased := @Sound.releaseComponent _
        { (ledger.lend task) with due := ledger.due.filter (· ≠ component) } _ hsound
      exact ⟨⟨hreleased.sound, hkept.stays.trans hreleased.stays⟩, herrand.stays hreleased.stays⟩

/-- Going on with a task that waited. -/
theorem Sound.resume {task : Task} (h : page.Sound (ledger.lend task)) (herrand : page.Errand task) :
    Ends page ledger (page.resume task) := by
  obtain ⟨⟨component, hcomponent, hin⟩, load, id, hwork, hreceiver⟩ := herrand
  have hlent : ledger.lend task =
      { ledger with owed := component :: ledger.owed, loads := ledger.loads + 1 } := by
    rw [Ledger.lend, hcomponent]
    rfl
  rw [hlent] at h
  rw [Page.resume, hwork, hcomponent]
  exact Sound.closeTask hin
    (@Sound.continueLoad _ { ledger with owed := component :: ledger.owed } h _ _ hreceiver)

end Page

end ReactiveMarkup
