import ReactiveMarkup.Proofs.Page.Findings
import ReactiveMarkup.Proofs.Page.Upkeep

/-!
# A page that is disposed

Disposing a page disposes the collections of the fragments that are mounted, and with them their components.
A disposed component is at rest: it refuses to be rendered, and a load of it that is still under way has its
deliveries refused, so nothing is published. This lasts, whatever happens to the page afterwards.

A fragment counts as mounted when its mount is over. One that is still being mounted is not among those that
are disposed: when its mount goes on, components of it are rendered and its data is published on the disposed
page.
-/

namespace ReactiveMarkup

namespace Page

variable {page before after : Page} {component : ComponentId} {collection : CollectionId}

/-! ## Disposed components -/

/-- A component is there and disposed. -/
def IsDisposed (component : ComponentId) (page : Page) : Prop :=
  ∃ cell, page.components.get? component = some cell ∧ cell.disposed = true

theorem IsDisposed.lasts (h : before.IsDisposed component) (hlasts : Lasts before after) :
    after.IsDisposed component := by
  obtain ⟨cell, hcell, hdisposed⟩ := h
  obtain ⟨later, hlater, hbecomes⟩ := hlasts.cells component cell hcell
  exact ⟨later, hlater, (hbecomes.disposed hdisposed).1⟩

/-- Nothing comes of a component: it refuses to be rendered, and its loads change nothing that is set and call
nobody. All they do to the scopes is to let go of the one they hold when they are over. -/
structure Rests (component : ComponentId) (page : Page) : Prop where
  refuses : ∀ cause, page.render component cause = (page, .done)
  silent : ∀ load scope, load.receiver = .command component scope →
    (page.continueLoad load).1.scopes = page.scopes ∨
      (page.continueLoad load).1.scopes = page.scopes.release scope

theorem IsDisposed.accept (h : page.IsDisposed component) {load : Load} {scope : ScopeId}
    (hreceiver : load.receiver = .command component scope) (sets : ResultSets) :
    page.accept load sets = (page, load, false) := by
  obtain ⟨cell, hcell, hdisposed⟩ := h
  rw [Page.accept, hreceiver]
  dsimp only
  split
  · rfl
  · next there command hcommand =>
      have hsame : there = cell := by
        rw [loadCommand?, hcell] at hcommand
        dsimp only at hcommand
        split at hcommand
        · exact (congrArg Prod.fst (Option.some.inj hcommand)).symm
        · cases hcommand
      exact if_pos (hsame ▸ hdisposed)

theorem IsDisposed.beside (h : before.IsDisposed component) (hbeside : Beside before after) :
    after.IsDisposed component := by
  rwa [IsDisposed, hbeside.components]

theorem beside_record (page : Page) (event : Event) : Beside page (page.record event) :=
  ⟨rfl, rfl, rfl, rfl, rfl, ⟨rfl, rfl⟩, rfl, rfl, Nat.le_refl _⟩

theorem beside_ask (page : Page) (load : Load) : Beside page (page.ask load).1 := by
  rw [ask]
  split
  · exact .refl page
  · exact ⟨rfl, rfl, rfl, rfl, rfl, ⟨rfl, rfl⟩, rfl, rfl, Nat.le_refl _⟩

theorem receiver_ask (page : Page) (load : Load) : (page.ask load).2.receiver = load.receiver := by
  rw [ask]
  split <;> rfl

/-- The answer to a component that is disposed goes nowhere. -/
theorem IsDisposed.runAnswer (h : page.IsDisposed component) {load : Load} {scope : ScopeId}
    (hreceiver : load.receiver = .command component scope) (steps : List ProviderStep) :
    Beside page (page.runAnswer load steps).1 ∧ (page.runAnswer load steps).2.1 = load := by
  induction steps generalizing page with
  | nil => exact ⟨.refl page, rfl⟩
  | cons step rest ih =>
      cases step with
      | report =>
          have hrecorded := beside_record page (.requested load.id load.parameters)
          obtain ⟨hbeside, hload⟩ := ih (h.beside hrecorded)
          exact ⟨hrecorded.trans hbeside, hload⟩
      | await gate =>
          rw [Page.runAnswer]
          split
          · exact ih h
          · exact ⟨.refl page, rfl⟩
      | pause turns =>
          cases turns with
          | zero => exact ih h
          | succ turns => exact ⟨.refl page, rfl⟩
      | deliver sets reported =>
          rw [Page.runAnswer, h.accept hreceiver]
          cases reported with
          | false => exact ⟨.refl page, rfl⟩
          | true => exact ⟨beside_record page _, rfl⟩
      | insist sets reported =>
          rw [Page.runAnswer, h.accept hreceiver]
          cases reported with
          | false => exact ih h
          | true =>
              have hrecorded := beside_record page (.answered false)
              obtain ⟨hbeside, hload⟩ := ih (h.beside hrecorded)
              exact ⟨hrecorded.trans hbeside, hload⟩
      | fail error => exact ⟨.refl page, rfl⟩

theorem IsDisposed.runLoad (more : Nat) (h : page.IsDisposed component) {load : Load} {scope : ScopeId}
    (hreceiver : load.receiver = .command component scope) :
    Beside page (page.runLoad more load).1 := by
  induction more using Nat.strongRecOn generalizing page load with
  | ind more ih =>
      obtain ⟨hanswered, hload⟩ := h.runAnswer hreceiver load.rest
      rw [Page.runLoad]
      generalize page.runAnswer load load.rest = reached at hanswered hload ⊢
      obtain ⟨after, reached, progress⟩ := reached
      obtain rfl : reached = load := hload
      dsimp only at hanswered ⊢
      split
      · next hsame =>
          cases hsame
          exact hanswered
      · next hsame =>
          cases hsame
          exact hanswered
      · next hsame =>
          cases hsame
          split
          · exact hanswered
          · split
            · exact hanswered
            · exact hanswered
            · next more _ =>
                refine (hanswered.trans (beside_ask after _)).trans (ih more (Nat.lt_succ_self more)
                  (h.beside (hanswered.trans (beside_ask after _))) ?_)
                exact (receiver_ask after _).trans hreceiver

theorem IsDisposed.rests (h : page.IsDisposed component) : page.Rests component where
  refuses cause := by
    obtain ⟨cell, hcell, hdisposed⟩ := h
    exact render_of_disposed hcell hdisposed cause
  silent load scope hreceiver := by
    have hloaded := h.runLoad ((load.attempts.map Attempts.limit).getD 0) hreceiver
    rw [continueLoad]
    generalize page.runLoad ((load.attempts.map Attempts.limit).getD 0) load = reached at hloaded ⊢
    obtain ⟨after, progress⟩ := reached
    cases progress with
    | suspended on rest => exact .inl hloaded.scopes
    | finished result =>
        right
        dsimp only
        rw [hreceiver]
        exact congrArg (Scopes.release · scope) hloaded.scopes

/-! ## Mounted fragments -/

theorem isDisposed_foldl {components : List ComponentId} (hmember : component ∈ components)
    (hthere : ∃ cell, page.components.get? component = some cell) :
    (components.foldl disposeComponent page).IsDisposed component := by
  induction components generalizing page with
  | nil => cases hmember
  | cons first rest ih =>
      obtain ⟨cell, hcell⟩ := hthere
      rcases List.mem_cons.mp hmember with rfl | hlater
      · have hdisposed : (page.disposeComponent component).IsDisposed component :=
          ⟨_, get?_disposeComponent hcell, rfl⟩
        exact hdisposed.lasts (Tends.foldl tends_disposeComponent _ rest).lasts
      · obtain ⟨after, hafter, -⟩ := (tends_disposeComponent page first).lasts.cells _ cell hcell
        exact ih hlater ⟨after, hafter⟩

/-- Disposing a collection disposes its components. -/
theorem isDisposed_disposeCollection {cell : Collection}
    (hcell : page.collections.get? collection = some cell) (hstate : cell.state ≠ .disposed)
    (hmember : component ∈ cell.components)
    (hthere : ∃ cell, page.components.get? component = some cell) :
    (page.disposeCollection collection).IsDisposed component := by
  rw [disposeCollection]
  split
  · next hnone => cases hnone.symm.trans hcell
  · next hdisposed =>
      cases hdisposed.symm.trans hcell
      exact absurd rfl hstate
  · next found _ hfound =>
      obtain rfl := Option.some.inj (hfound.symm.trans hcell)
      have hmarked : ∃ cell, (page.changeCollection collection fun cell =>
          { cell with state := .disposed, components := [] }).components.get? component = some cell :=
        hthere
      exact (isDisposed_foldl hmember hmarked).lasts
        (Tends.foldl tends_releaseComponent _ _).lasts

theorem collections_disposeComponent (page : Page) (id : ComponentId) :
    (page.disposeComponent id).collections = page.collections := by
  rw [disposeComponent]
  split <;> rfl

theorem collections_foldl {α : Type} {step : Page → α → Page}
    (hstep : ∀ page item, (step page item).collections = page.collections) (page : Page)
    (items : List α) : (items.foldl step page).collections = page.collections := by
  induction items generalizing page with
  | nil => rfl
  | cons item rest ih => exact (ih _).trans (hstep page item)

theorem get?_disposeCollection_of_ne {other : CollectionId} (h : other ≠ collection) :
    (page.disposeCollection other).collections.get? collection = page.collections.get? collection := by
  rw [disposeCollection]
  split
  · rfl
  · rfl
  · have hreleased : ∀ (before : Page) (id : ComponentId),
        (before.releaseComponent id).collections = before.collections := fun _ _ => rfl
    dsimp only
    rw [collections_foldl hreleased, collections_foldl collections_disposeComponent,
      changeCollection, Arena.get?_modify, if_neg h]

theorem isDisposed_mounts {cell : Collection} {mounts : List CollectionId}
    (hmounted : collection ∈ mounts) (hcell : page.collections.get? collection = some cell)
    (hstate : cell.state ≠ .disposed) (hmember : component ∈ cell.components)
    (hthere : ∃ cell, page.components.get? component = some cell) :
    (mounts.foldl disposeCollection page).IsDisposed component := by
  induction mounts generalizing page with
  | nil => cases hmounted
  | cons first rest ih =>
      by_cases hfirst : first = collection
      · subst hfirst
        exact (isDisposed_disposeCollection hcell hstate hmember hthere).lasts
          (Tends.foldl tends_disposeCollection _ rest).lasts
      · obtain ⟨there, hthere⟩ := hthere
        obtain ⟨after, hafter, -⟩ := (tends_disposeCollection page first).lasts.cells _ there hthere
        refine ih ((List.mem_cons.mp hmounted).resolve_left fun hsame => hfirst hsame.symm) ?_
          ⟨after, hafter⟩
        rwa [get?_disposeCollection_of_ne hfirst]

/-- Every component of a fragment that is mounted is disposed with the page. -/
theorem isDisposed_dispose {cell : Collection} (hmounted : collection ∈ page.mounts)
    (hcell : page.collections.get? collection = some cell) (hstate : cell.state ≠ .disposed)
    (hmember : component ∈ cell.components)
    (hthere : ∃ cell, page.components.get? component = some cell) :
    page.dispose.IsDisposed component := by
  have hdisposed := @isDisposed_mounts { page with mounts := [] } _ _ _ _ hmounted hcell hstate hmember
    hthere
  exact ((hdisposed.lasts (Tends.foldl tends_releaseCollection _ page.mounts).lasts).lasts
    (tends_closeQueue _).lasts).lasts (tends_heeds (Scopes.minds_dispose _ rootScope).heeds).lasts

/-- A mount that is over stays on the page. -/
theorem mem_mounts_closeMount {progress : Progress Run} {roots : List NodeId} {size : Nat}
    {result : Except Error Unit}
    (h : (page.closeMount collection roots size progress).2 = .finished result) :
    collection ∈ (page.closeMount collection roots size progress).1.mounts := by
  cases progress with
  | suspended on run => cases h
  | finished ended =>
      have hkept : ∀ (nodes : List NodeId) (before : Page),
          (nodes.foldl releaseNode before).mounts = before.mounts := by
        intro nodes
        induction nodes with
        | nil => exact fun _ => rfl
        | cons first rest ih => exact fun before => ih _
      rw [closeMount, hkept]
      exact List.mem_append_right _ List.mem_cons_self

end Page

namespace World

variable {world later : World} {incidents : List Incident} {may : World → Prop}
  {component : ComponentId} {collection : CollectionId}

/-- When a page is disposed, the components of the fragments that are mounted on it come to rest: whatever
happens from then on, whoever calls one of them finds it at rest, and so does all that goes on later. -/
theorem mounted_components_rest (h : world.Reached) {cell : Collection}
    (hmounted : collection ∈ world.page.mounts)
    (hcell : world.page.collections.get? collection = some cell) (hstate : cell.state ≠ .disposed)
    (hmember : component ∈ cell.components)
    (hcourse : Course may ⟨world.page.dispose, world.live⟩ incidents later) :
    (∀ call, .called call ∈ incidents → call.component = component →
      call.page.render component call.cause = (call.page, .done)) ∧
    ∀ after, later.page.Lasts after → after.Rests component := by
  have hright := h.right
  obtain ⟨there, hthere⟩ : ∃ there, world.page.components.get? component = some there :=
    ⟨_, Array.getElem?_eq_getElem ((hright.tallied.gathered collection cell hcell).2 component hmember)⟩
  have hdisposed := Page.isDisposed_dispose hmounted hcell hstate hmember ⟨there, hthere⟩
  have hafter := (hright.step (.act world.live .dispose)).1
  refine ⟨fun call hcall _ => ?_, fun after hlasts => ?_⟩
  · exact (hdisposed.lasts (hcourse.finds hafter hcall)).rests.refuses call.cause
  · exact (hdisposed.lasts ((hcourse.leads.lasts hafter).2.trans hlasts)).rests

/-! ## A fragment whose data may take its time -/

/-- A command that loads users, and a text that shows the name of one. -/
def rostered (gate : Option String) (page : Page) : Page :=
  { page with
    providers := page.providers.register Providers.defaultName
      (.plan [{ deliveries := [[[[("name", .string "ada")]]]], gate }])
    markup :=
      let (markup, loader) := page.markup.create (.element "div" [("core", "source"), ("name", "db")])
      let (markup, users) := markup.create (.element "member" [("name", "users")])
      ((markup.append loader users).create (.text "[##db.users.name##]")).1 }

def mounting (gate : Option String) (page : Page) : World where
  page := ((rostered gate page).startMount [0, 2]).1
  live := ((rostered gate page).startMount [0, 2]).2.activities

theorem mounting_reached (gate : Option String) {page : Page} (h : Page.ofOptions {} = .ok page) :
    (mounting gate page).Reached := by
  have hwritten : Page.Aside page (rostered gate page) := ⟨rfl, rfl, rfl, Nat.le_refl _⟩
  have halive : (rostered gate page).scopes.isAlive Page.rootScope = true := by
    obtain ⟨patterns, -, rfl⟩ := Page.ofOptions_ok h
    rfl
  have hmounts : Step ⟨rostered gate page, []⟩ ⟨((rostered gate page).startMount [0, 2]).1,
      ((rostered gate page).startMount [0, 2]).2.activities ++ []⟩ := .start [] (.mount halive [0, 2])
  rw [List.append_nil] at hmounts
  exact ⟨{}, page, h, .tail (.single (.act [] (.aside hwritten))) hmounts⟩

/-- Whether the fragment is mounted at once, and both of its components are there. -/
def mountsAtOnce (page : Page) : Bool :=
  (mounting none page).page.mounts == [0] && (mounting none page).live.isEmpty &&
    ((mounting none page).page.collections.get? 0).any fun cell =>
      cell.state == .ran && cell.components == [0, 1]

/-- When the fragment is mounted and the page is disposed, the command that loads users cannot even be
rendered by hand. -/
theorem mounted_roster_rests : ∃ (page : Page) (cell : Collection), Page.ofOptions {} = .ok page ∧
    (mounting none page).Reached ∧ 0 ∈ (mounting none page).page.mounts ∧
    (mounting none page).page.collections.get? 0 = some cell ∧ cell.state ≠ .disposed ∧
    0 ∈ cell.components ∧
    (mounting none page).page.dispose.render 0 none = ((mounting none page).page.dispose, .done) ∧
    ((mounting none page).page.dispose.startRender 0 none).1.Rests 0 := by
  have hruns : ((Page.ofOptions {}).toOption.any mountsAtOnce) = true := by decide +kernel
  cases hpage : Page.ofOptions {} with
  | error error =>
      rw [hpage] at hruns
      cases hruns
  | ok page =>
      rw [hpage, Except.toOption, Option.any_some] at hruns
      simp only [mountsAtOnce, Bool.and_eq_true, beq_iff_eq, Option.any_eq_true] at hruns
      obtain ⟨⟨hmounts, -⟩, cell, hcell, hran, hcomponents⟩ := hruns
      have hreached := mounting_reached none hpage
      have hmounted : 0 ∈ (mounting none page).page.mounts := hmounts ▸ List.mem_cons_self
      have hkept : cell.state ≠ .disposed := by
        rw [hran]
        decide
      have hmember : 0 ∈ cell.components := hcomponents ▸ List.mem_cons_self
      refine ⟨page, cell, rfl, hreached, hmounted, hcell, hkept, hmember, ?_⟩
      generalize mounting none page = world at hreached hmounted hcell ⊢
      have hbegun : Course (fun _ => True) ⟨world.page.dispose, world.live⟩ []
          ⟨world.page.dispose, world.live⟩ := .refl trivial
      have hcalled : Move ⟨world.page.dispose, world.live⟩ [.called ⟨0, none, false, world.page.dispose⟩]
          ⟨(world.page.dispose.startRender 0 none).1,
            (world.page.dispose.startRender 0 none).2.activities ++ world.live⟩ :=
        .start world.live (.render 0 none)
      obtain ⟨hcalls, hrests⟩ := mounted_components_rest hreached hmounted hcell hkept hmember
        (hbegun.tail hcalled trivial)
      exact ⟨hcalls _ List.mem_cons_self rfl, hrests _ (.refl _)⟩

/-- The gate is opened on a page that was disposed meanwhile, and a mount goes on. -/
def goneOn (gone : Page) (mount : Mount) : World where
  page := ((gone.openGate "data").poll 1 (.mount mount)).1
  live := ((gone.openGate "data").poll 1 (.mount mount)).2.activities

theorem course_goneOn (gone : Page) (mount : Mount) :
    Course (fun _ => True) ⟨gone, [.mount mount]⟩
      (told ((gone.openGate "data").resumeRunTurns mount.run)) (goneOn gone mount) := by
  have hbegun : Course (fun _ => True) ⟨gone, [.mount mount]⟩ [] ⟨gone, [.mount mount]⟩ := .refl trivial
  have hopened : Move ⟨gone, [.mount mount]⟩ [] ⟨gone.openGate "data", [.mount mount]⟩ :=
    .act _ (.aside ⟨rfl, rfl, rfl, Nat.le_refl _⟩) (.of_queue rfl (Nat.le_refl _))
  have hpolled : Move ⟨gone.openGate "data", [.mount mount]⟩
      (told ((gone.openGate "data").resumeRunTurns mount.run))
      ⟨(goneOn gone mount).page, (goneOn gone mount).live ++ []⟩ := .poll (.refl _) 0
  rw [List.append_nil] at hpolled
  have hcourse := (hbegun.tail hopened trivial).tail hpolled trivial
  rwa [List.append_nil, List.nil_append] at hcourse

/-- Whether a mount calls a component of its fragment that is let in, and publishes the users. -/
def goesOnLate (gone : Page) (mount : Mount) : Bool :=
  (((gone.openGate "data").resumeRunTurns mount.run).filterMap Turn.call?).any (fun call =>
      mount.run.components.contains call.component && call.isLetIn) &&
    (gone.scopes.find? Page.rootScope "db.users").isNone &&
    ((goneOn gone mount).page.scopes.find? Page.rootScope "db.users").isSome

def mountsLate (page : Page) : Bool :=
  match (mounting (some "data") page).live with
  | [.mount mount] => goesOnLate (mounting (some "data") page).page.dispose mount
  | _ => false

/-- A fragment is still being mounted when the page is disposed: when its mount goes on, a component of it is
let in to be rendered, and its command publishes the users. -/
theorem late_mount_goes_on : ∃ (page : Page) (mount : Mount) (incidents : List Incident) (call : Call)
    (later : World), Page.ofOptions {} = .ok page ∧ (mounting (some "data") page).Reached ∧
    (mounting (some "data") page).live = [.mount mount] ∧
    Course (fun _ => True) ⟨(mounting (some "data") page).page.dispose, [.mount mount]⟩ incidents later ∧
    .called call ∈ incidents ∧ call.component ∈ mount.run.components ∧ call.isLetIn = true ∧
    ((mounting (some "data") page).page.dispose.scopes.find? Page.rootScope "db.users").isNone = true ∧
    (later.page.scopes.find? Page.rootScope "db.users").isSome = true := by
  have hruns : ((Page.ofOptions {}).toOption.any mountsLate) = true := by decide +kernel
  cases hpage : Page.ofOptions {} with
  | error error =>
      rw [hpage] at hruns
      cases hruns
  | ok page =>
      rw [hpage, Except.toOption, Option.any_some] at hruns
      unfold mountsLate at hruns
      split at hruns
      · next mount hlive =>
          simp only [goesOnLate, Bool.and_eq_true, List.any_eq_true, List.contains_iff_mem] at hruns
          obtain ⟨⟨⟨call, hcall, hmember, hletIn⟩, hbefore⟩, hafter⟩ := hruns
          exact ⟨page, mount, _, call, _, rfl, mounting_reached _ hpage, hlive, course_goneOn _ mount,
            List.mem_map_of_mem hcall, hmember, hletIn, hbefore, hafter⟩
      · cases hruns

end World

end ReactiveMarkup
