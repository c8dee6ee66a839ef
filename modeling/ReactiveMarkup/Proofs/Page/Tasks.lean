import ReactiveMarkup.Proofs.Page.Tally

/-!
# What tasks do to the books

A render is on the books from its start until its task is finished or dropped. In between it may wait
as often as it likes; what is left of it is a task that renders a component, and that component stays
on the list. Every act of a render on the way tends to the books: it may set sources, have its
component register for more, or end the requests it made, and none of this ends another render.
-/

namespace ReactiveMarkup

/-- The component that a task renders, if it is a render. -/
def Task.rendering (task : Task) : List ComponentId :=
  if task.renders then task.component.toList else []

/-- The components that are still being rendered. -/
def Progress.rendering {α : Type} (f : α → List ComponentId) : Progress α → List ComponentId
  | .finished _ => []
  | .suspended _ rest => f rest

namespace Page

variable {page before middle after : Page} {id : ComponentId} {cell : Component}
  {gone left : List ComponentId}

/-! ## Acts -/

theorem tends_record (page : Page) (event : Event) : Tends page (page.record event) :=
  tends_aside ⟨rfl, rfl, rfl, Nat.le_refl _⟩

theorem Act.tends (h : Act before after) : Tends before after := by
  cases h with
  | aside apart =>
      exact tends_aside
        ⟨apart.scopes, apart.components, apart.collections, Nat.le_of_eq apart.flights.symm⟩
  | set scope source => exact tends_setSource before scope source
  | subscribe component ids => exact tends_subscribe before component ids
  | enqueue steps => exact tends_enqueue before _
  | close => exact tends_closeQueue before
  | holdScope alive => exact tends_holdScope alive
  | releaseScope scope => exact tends_releaseScope before scope
  | remember there shows kept command =>
      have hnot := Bool.eq_false_iff.mp kept
      refine accounts_changeComponent there
        ⟨rfl, rfl, ?_, fun hdisposed => absurd hdisposed hnot, fun _ _ hname => hname⟩
        (fun _ _ => rfl) fun flying hbooked => { hbooked with
          single := fun _ => hbooked.single ?_
          gone := fun hdisposed => absurd hdisposed hnot }
      · rw [shows]
        rfl
      · rw [shows]
        rfl

theorem Works.tends (h : Works before after) : Tends before after := by
  induction h with
  | refl => exact .refl before
  | tail _ hact ih => exact ih.trans hact.tends

theorem tends_releaseReceiver (page : Page) (receiver : Receiver) :
    Tends page (page.releaseReceiver receiver) := by
  cases receiver with
  | command id scope => exact tends_releaseScope page scope
  | inbox id keep => exact .refl page

/-! ## Tasks -/

theorem accounts_releaseTask (page : Page) (task : Task) :
    Accounts page task.rendering (page.releaseTask task.component task.renders) [] := by
  obtain ⟨component, renders, work⟩ := task
  cases component with
  | none => cases renders <;> exact .refl page []
  | some id =>
      cases renders with
      | true => exact (accounts_leave page id).tends (tends_releaseComponent _ id)
      | false => exact tends_releaseComponent page id

/-- A task that is finished is a render no more; one that waits still is. -/
theorem Accounts.closeTask {task : Task}
    (h : Accounts before gone after task.rendering) (progress : Progress Work) :
    Accounts before gone (after.closeTask task.component task.renders progress).1
      ((after.closeTask task.component task.renders progress).2.rendering Task.rendering) := by
  cases progress with
  | finished result => exact h.trans (accounts_releaseTask after task)
  | suspended on work => exact h

/-- A task of which no render is known. -/
theorem Tends.closeTask (h : Tends before after) (component : Option ComponentId)
    (progress : Progress Work) :
    Accounts before [] (after.closeTask component false progress).1
      ((after.closeTask component false progress).2.rendering Task.rendering) :=
  @Accounts.closeTask _ _ _ { component, work := default } h progress

/-- Rendering a component starts a render, unless nothing is left of it in the end. -/
theorem accounts_render (page : Page) (id : ComponentId) (cause : Option Source) :
    Accounts page [] (page.render id cause).1 ((page.render id cause).2.rendering Task.rendering) := by
  rw [render]
  split
  · exact .refl page []
  · next cell hcell =>
      split
      · next hadmits =>
          have hentered := (tends_holdComponent page id).then
            (@accounts_enter (page.holdComponent id) id cell hcell hadmits)
          have hcurrent : ((page.holdComponent id).changeComponent id fun cell =>
              { cell with inFlight := cell.inFlight + 1 }).components.get? id =
                some { cell with inFlight := cell.inFlight + 1 } := by
            rw [changeComponent, Arena.get?_modify, if_pos rfl]
            exact congrArg (Option.map _) hcell
          have hkept := Component.kept_of_admits hadmits
          have hbegun := hentered.tends (works_beginRender hcurrent rfl hkept cause).tends
          exact @Accounts.closeTask _ _ _ { component := some id, renders := true, work := default }
            hbegun _
      · exact .refl page []

theorem accounts_prepare (page : Page) (id : ComponentId) :
    Accounts page [] (page.prepare id).1 ((page.prepare id).2.rendering Task.rendering) := by
  rw [prepare]
  split
  · exact .refl page []
  · split
    · exact ((tends_holdComponent page id).trans (works_runSteps _ _ _ _).tends).closeTask (some id) _
    · exact tends_subscribe page id _

theorem accounts_load (page : Page) (provider : ProviderId) (id : String) (inbox : InboxId)
    (keep : Bool) : Accounts page [] (page.load provider id inbox keep).1
      ((page.load provider id inbox keep).2.rendering Task.rendering) :=
  ((works_ask page _).tends.trans (works_continueLoad _ _).tends).closeTask none _

theorem accounts_beginJob (page : Page) (job : Job) :
    Accounts page [] (page.beginJob job).1 ((page.beginJob job).2.rendering Task.rendering) := by
  cases job with
  | render id cause => exact (accounts_render page id (some cause)).tends (tends_releaseComponent _ id)
  | host steps => exact (works_runSteps page none none steps).tends.closeTask none _

/-- A task that goes on. -/
theorem accounts_resume (page : Page) (task : Task) :
    Accounts page task.rendering (page.resume task).1
      ((page.resume task).2.rendering Task.rendering) := by
  rw [resume]
  split
  · exact ((works_runSteps page _ _ _).tends.accounts _).closeTask _
  · exact ((works_continueLoad page _).tends.accounts _).closeTask _

theorem accounts_dropTask (page : Page) (task : Task) :
    Accounts page task.rendering (page.dropTask task) [] := by
  rw [dropTask]
  refine Tends.then ?_ (accounts_releaseTask _ task)
  split
  · exact tends_releaseReceiver page _
  · exact .refl page

end Page

end ReactiveMarkup
