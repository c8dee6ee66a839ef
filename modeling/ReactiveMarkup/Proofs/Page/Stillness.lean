import ReactiveMarkup.Proofs.Page.Calls
import ReactiveMarkup.Proofs.Page.Evaluation
import ReactiveMarkup.Proofs.Scope.Heralds

/-!
# Where nothing is set

Of all that is done to a page only little sets a source. Everything else leaves what the scopes store as
it is: `Still` says so, together with what time cannot undo. A scope that is dead stays dead, a queue that
is closed stays closed, jobs are put behind those that were there, and nobody takes a hold on a component
that was let go. What sets a source only `Drifts`: it undoes nothing of this, either.
-/

namespace ReactiveMarkup

namespace Scopes

variable {scopes before middle after : Scopes} {scope : ScopeId}

theorem Ages.refl (scopes : Scopes) : Ages scopes scopes :=
  ⟨Nat.le_refl _, fun _ _ => rfl, fun h => h, fun _ _ _ h => h, fun _ h => h⟩

theorem Ages.trans (h : Ages before middle) (h' : Ages middle after) : Ages before after where
  size := Nat.le_trans h.size h'.size
  parent scope hlt := (h'.parent scope (Nat.lt_of_lt_of_le hlt h.size)).trans (h.parent scope hlt)
  standing hstanding := h'.standing (h.standing hstanding)
  alive hstanding scope hlt halive := h.alive hstanding scope hlt
    (h'.alive (h.standing hstanding) scope (Nat.lt_of_lt_of_le hlt h.size) halive)
  disposed scope hdisposed := h'.disposed scope (h.disposed scope hdisposed)

theorem Leaves.ages (h : Leaves before after) : Ages before after where
  size := Nat.le_of_eq h.size.symm
  parent scope _ := h.parent scope
  standing := h.toSameTree.standing
  alive _ scope _ halive := by rwa [h.isAlive] at halive
  disposed scope hdisposed := (h.disposed scope).trans hdisposed

theorem Ages.lineage (h : Ages before after) (hstanding : before.Standing)
    (hlt : scope < before.scopes.size) : after.lineage scope = before.lineage scope := by
  induction scope using Nat.strongRecOn with
  | ind scope ih =>
      rw [(h.standing hstanding).ordered.lineage_eq, hstanding.ordered.lineage_eq, h.parent scope hlt]
      cases hparent : before.parent? scope with
      | none => rfl
      | some above =>
          have hless := hstanding.ordered scope above hparent
          exact congrArg _ (ih above hless (Nat.lt_trans hless hlt))

/-- What becomes disposed was not. -/
theorem Ages.intact_of_later (h : Ages before after) (hstanding : before.Standing)
    (hlt : scope < before.scopes.size) (hintact : after.Intact scope) : before.Intact scope := by
  intro above habove
  rw [← h.lineage hstanding hlt] at habove
  exact isDisposed_of_later (h.disposed above) (hintact above habove)

theorem Ages.find?_eq (h : Ages before after) (hsources : SameSources before after)
    (hstanding : before.Standing) (hlt : scope < before.scopes.size) (id : String) :
    after.find? scope id = before.find? scope id := by
  rw [find?, find?, h.lineage hstanding hlt]
  simp only [local?, hsources.stored?_eq]

theorem sameSources_grow (scopes : Scopes) (parent : Option ScopeId) (settings : Fields) :
    SameSources scopes (scopes.grow parent settings) :=
  ⟨look_grow_of_blank (f := Scope.sources) rfl, look_grow_of_blank (f := Scope.inherited) rfl⟩

end Scopes

namespace Page

variable {page before middle after : Page} {component other : ComponentId} {scope : ScopeId}

/-- The books are right, whatever is being rendered. -/
def Balanced (page : Page) : Prop := ∃ busy, page.Tallied busy

theorem Tends.balanced (h : Tends before after) (hbefore : before.Balanced) : after.Balanced :=
  hbefore.imp h.tallied

/-- Nothing is undone that time cannot undo. -/
structure Drifts (component : ComponentId) (before after : Page) : Prop where
  lasts : Lasts before after
  balanced : before.Balanced → after.Balanced
  ages : before.scopes.Ages after.scopes
  feeds : Feeds before after
  held : ∀ cell, before.components.get? component = some cell →
    component ∈ after.heldComponents → component ∈ before.heldComponents

/-- Nothing is set. -/
structure Still (component : ComponentId) (before after : Page) : Prop
    extends Drifts component before after where
  sources : before.scopes.SameSources after.scopes

theorem Drifts.trans (h : Drifts component before middle) (h' : Drifts component middle after) :
    Drifts component before after where
  lasts := h.lasts.trans h'.lasts
  balanced hbefore := h'.balanced (h.balanced hbefore)
  ages := h.ages.trans h'.ages
  feeds := h.feeds.trans h'.feeds
  held cell hcell hheld := by
    obtain ⟨later, hlater, -⟩ := h.lasts.cells component cell hcell
    exact h.held cell hcell (h'.held later hlater hheld)

theorem Still.trans (h : Still component before middle) (h' : Still component middle after) :
    Still component before after := ⟨h.toDrifts.trans h'.toDrifts, h.sources.trans h'.sources⟩

/-- Nothing has changed that a scope or a component could notice. -/
theorem Still.of_tends (htends : Tends before after) (hscopes : after.scopes = before.scopes)
    (hqueue : after.queue = before.queue)
    (hheld : component ∈ after.heldComponents → component ∈ before.heldComponents) :
    Still component before after where
  lasts := htends.lasts
  balanced := htends.balanced
  ages := hscopes ▸ .refl _
  feeds := .of_queue hqueue htends.lasts.flights
  held _ _ := hheld
  sources := hscopes ▸ .refl _

theorem Still.of_aside (h : Aside before after) (hfeeds : Feeds before after)
    (hheld : ∀ cell, before.components.get? component = some cell →
      component ∈ after.heldComponents → component ∈ before.heldComponents) :
    Still component before after :=
  ⟨⟨(tends_aside h).lasts, (tends_aside h).balanced, h.scopes ▸ .refl _, hfeeds, hheld⟩, h.scopes ▸ .refl _⟩

theorem Still.refl (component : ComponentId) (page : Page) : Still component page page :=
  .of_tends (.refl page) rfl rfl fun h => h

theorem Between.still (h : Between before after) : Still component before after :=
  .of_tends (tends_aside h.aside) h.scopes h.queue fun hheld => h.heldComponents ▸ hheld

theorem Still.foldl {α : Type} {step : Page → α → Page}
    (hstep : ∀ page item, Still component page (step page item)) (page : Page) (items : List α) :
    Still component page (items.foldl step page) := by
  induction items generalizing page with
  | nil => exact .refl component page
  | cons item rest ih => exact (hstep page item).trans (ih _)

/-! ## Scopes -/

theorem still_heeds {scopes : Scopes} (h : page.scopes.Heeds scopes)
    (hsources : page.scopes.SameSources scopes) : Still component page { page with scopes } :=
  ⟨⟨(tends_heeds h).lasts, (tends_heeds h).balanced, h.toAges, .of_queue rfl (Nat.le_refl _),
    fun _ _ hheld => hheld⟩, hsources⟩

theorem still_holdScope (halive : page.scopes.isAlive scope = true) :
    Still component page (page.holdScope scope) :=
  still_heeds (Scopes.heeds_hold halive) (.of_scopes rfl)

theorem still_releaseScope (page : Page) (scope : ScopeId) :
    Still component page (page.releaseScope scope) :=
  still_heeds (Scopes.heeds_release page.scopes scope) (.of_scopes rfl)

theorem still_wait (page : Page) (scope : ScopeId) (id : String) :
    Still component page { page with scopes := (page.scopes.wait scope id).1 } :=
  still_heeds (Scopes.minds_wait page.scopes scope id).heeds (Scopes.sameSources_wait ..)

/-! ## Holds and jobs -/

/-- Whoever takes a hold on a component has one already. -/
theorem still_holdComponent (h : ∀ cell, page.components.get? component = some cell →
    component = other → component ∈ page.heldComponents) :
    Still component page (page.holdComponent other) where
  lasts := (tends_holdComponent page other).lasts
  balanced := (tends_holdComponent page other).balanced
  ages := .refl _
  feeds := .of_queue rfl (Nat.le_refl _)
  held cell hcell hheld := (List.mem_cons.mp hheld).elim (h cell hcell) fun hin => hin
  sources := .refl _

theorem still_holdComponents (others : List ComponentId)
    (h : ∀ cell, page.components.get? component = some cell →
      component ∈ others → component ∈ page.heldComponents) :
    Still component page (others.foldl holdComponent page) := by
  induction others generalizing page with
  | nil => exact .refl component page
  | cons other rest ih =>
      refine (still_holdComponent fun cell hcell hsame =>
        h cell hcell (hsame ▸ List.mem_cons_self)).trans (ih fun cell hcell hin => ?_)
      exact List.mem_cons_of_mem _ (h cell hcell (List.mem_cons_of_mem _ hin))

theorem still_releaseComponent (page : Page) (other : ComponentId) :
    Still component page (page.releaseComponent other) :=
  .of_tends (tends_releaseComponent page other) rfl rfl List.mem_of_mem_erase

theorem still_releaseJob (page : Page) (job : Job) : Still component page (page.releaseJob job) := by
  cases job with
  | host steps => exact .refl component page
  | render other cause => exact still_releaseComponent page other

theorem still_holdNode (page : Page) (node : NodeId) : Still component page (page.holdNode node) :=
  .of_tends (tends_holdNode page node) rfl rfl fun h => h

theorem still_releaseNode (page : Page) (node : NodeId) :
    Still component page (page.releaseNode node) :=
  .of_tends (tends_releaseNode page node) rfl rfl fun h => h

theorem still_enqueue (page : Page) (steps : List HostStep) :
    Still component page (page.enqueue (.host steps)) :=
  .of_aside ⟨rfl, rfl, rfl, Nat.le_refl _⟩ (feeds_enqueue page _) fun _ _ h => h

theorem still_closeQueue (page : Page) : Still component page page.closeQueue := by
  have hclosed : Still component page { page with queue := page.queue.close } :=
    .of_aside ⟨rfl, rfl, rfl, Nat.le_refl _⟩
      ⟨fun _ => rfl, fun hopen => (by cases hopen), Nat.le_refl _⟩ fun _ _ h => h
  exact hclosed.trans (.foldl still_releaseJob _ _)

/-- Whoever listens at the signal of the queue leaves its jobs alone. -/
theorem still_signal (page : Page) (signal : Signal) :
    Still component page { page with queue := { page.queue with signal } } :=
  .of_aside ⟨rfl, rfl, rfl, Nat.le_refl _⟩
    ⟨fun h => h, fun _ => List.prefix_refl _, Nat.le_refl _⟩ fun _ _ h => h

theorem still_leaveSignal (page : Page) (ticket : Option Ticket) :
    Still component page (page.leaveSignal ticket) := still_signal page _

theorem still_listenSignal (page : Page) (ticket : Option Ticket) :
    Still component page (page.listenSignal ticket).1 := still_signal page _

/-! ## Calls of handlers -/

theorem held_attendTo {delivery : Delivery}
    (h : component ∈ (page.attendTo delivery).heldComponents) : component ∈ page.heldComponents := by
  cases delivery with
  | handled handler source => exact h
  | triggered called source =>
      rw [attendTo] at h
      split at h
      · next halive =>
          rw [enqueue] at h
          split at h
          · exact h
          · rcases List.mem_cons.mp h with rfl | hin
            · exact List.contains_iff_mem.mp halive
            · exact hin
      · exact h

theorem drifts_changeScopes {α : Type} {f : Scopes → Scopes × α}
    (h : Scopes.Minds page.scopes (f page.scopes).1) :
    Drifts component page (page.changeScopes f).1 where
  lasts := (tends_changeScopes h).lasts
  balanced := (tends_changeScopes h).balanced
  ages := by
    have htaken : Scopes.Minds (f page.scopes).1 { (f page.scopes).1 with deliveries := [] } :=
      Scopes.minds_of_scopes rfl rfl
    rw [changeScopes]
    dsimp only
    rw [attend, scopes_attendTo_all]
    exact (h.trans htaken).heeds.toAges
  feeds := feeds_changeScopes page f
  held _ _ := by
    rw [changeScopes]
    dsimp only
    rw [attend]
    refine List.foldlRecOn (motive := fun reached : Page =>
      component ∈ reached.heldComponents → component ∈ page.heldComponents) _ _ (fun hheld => hheld)
      fun reached hreached delivery _ hheld => hreached (held_attendTo hheld)

theorem still_changeScopes {α : Type} {f : Scopes → Scopes × α}
    (h : Scopes.Minds page.scopes (f page.scopes).1)
    (hsources : page.scopes.SameSources (f page.scopes).1) :
    Still component page (page.changeScopes f).1 := by
  refine ⟨drifts_changeScopes h, ?_⟩
  rw [changeScopes]
  dsimp only
  rw [attend, scopes_attendTo_all]
  exact hsources.trans (.of_scopes rfl)

/-! ## Components -/

theorem still_subscribe (page : Page) (id : ComponentId) (ids : List String) :
    Still component page (page.subscribe id ids).1 := by
  have htends := tends_subscribe page id ids
  have hfeeds := feeds_subscribe page id ids
  suffices hscopes : page.scopes.Leaves (page.subscribe id ids).1.scopes ∧
      page.scopes.SameSources (page.subscribe id ids).1.scopes ∧
      (page.subscribe id ids).1.heldComponents = page.heldComponents from
    ⟨⟨htends.lasts, htends.balanced, hscopes.1.ages, hfeeds, fun _ _ hheld => hscopes.2.2 ▸ hheld⟩, hscopes.2.1⟩
  clear htends hfeeds
  rw [subscribe]
  split
  · exact ⟨.refl _, .refl _, rfl⟩
  · next cell _ =>
    split
    · exact ⟨.refl _, .refl _, rfl⟩
    · refine and_assoc.mp ⟨?_, rfl⟩
      refine List.foldlRecOn (motive := fun state : Scopes × List String =>
        page.scopes.Leaves state.1 ∧ page.scopes.SameSources state.1) ids _ ⟨.refl _, .refl _⟩ ?_
      rintro ⟨scopes, triggers⟩ hstate name _
      dsimp only
      split
      · exact hstate
      · exact ⟨hstate.1.trans (Scopes.leaves_addHandler ..),
          hstate.2.trans (Scopes.sameSources_register scopes cell.scope _ _ false)⟩

theorem still_disposeComponent (page : Page) (id : ComponentId) :
    Still component page (page.disposeComponent id) := by
  have htends := tends_disposeComponent page id
  suffices hscopes : page.scopes.Leaves (page.disposeComponent id).scopes ∧
      page.scopes.SameSources (page.disposeComponent id).scopes ∧
      (page.disposeComponent id).queue = page.queue ∧
      (page.disposeComponent id).heldComponents = page.heldComponents from
    ⟨⟨htends.lasts, htends.balanced, hscopes.1.ages, .of_queue hscopes.2.2.1 htends.lasts.flights,
      fun _ _ hheld => hscopes.2.2.2 ▸ hheld⟩, hscopes.2.1⟩
  clear htends
  rw [disposeComponent]
  split
  · exact ⟨.refl _, .refl _, rfl, rfl⟩
  · next cell _ =>
    refine and_assoc.mp ⟨?_, rfl, rfl⟩
    change page.scopes.Leaves (if _ then _ else _) ∧ page.scopes.SameSources (if _ then _ else _)
    split
    · exact ⟨.refl _, .refl _⟩
    · refine List.foldlRecOn (motive := fun state : Scopes =>
        page.scopes.Leaves state ∧ page.scopes.SameSources state) _ _ ⟨.refl _, .refl _⟩ ?_
      exact fun state hstate name _ => ⟨hstate.1.trans (Scopes.leaves_removeHandler ..),
        hstate.2.trans (Scopes.sameSources_removeHandler ..)⟩

/-! ## Collections -/

theorem still_changeCollection (collection : CollectionId) {f : Collection → Collection}
    (htends : Tends page (page.changeCollection collection f)) :
    Still component page (page.changeCollection collection f) := .of_tends htends rfl rfl fun h => h

theorem still_releaseCollection (page : Page) (collection : CollectionId) :
    Still component page (page.releaseCollection collection) := by
  have hreleased : Still component page
      { page with heldCollections := page.heldCollections.erase collection } :=
    .of_tends (tends_aside ⟨rfl, rfl, rfl, Nat.le_refl _⟩) rfl rfl fun h => h
  rw [releaseCollection]
  dsimp only
  split
  · exact hreleased
  · split
    · exact (hreleased.trans (.foldl still_releaseComponent _ _)).trans (still_releaseScope _ _)
    · exact hreleased

theorem still_disposeCollection (page : Page) (collection : CollectionId) :
    Still component page (page.disposeCollection collection) := by
  rw [disposeCollection]
  split
  · exact .refl component page
  · exact .refl component page
  · have hmarked : Still component page (page.changeCollection collection fun cell =>
        { cell with state := .disposed, components := [] }) :=
      still_changeCollection collection (tends_changeCollection page collection
        (fun _ _ => ⟨rfl, (fun _ hsame => by cases hsame), fun _ => rfl⟩) fun _ => .inr rfl)
    exact (hmarked.trans (.foldl still_disposeComponent _ _)).trans
      (.foldl still_releaseComponent _ _)

theorem still_releaseRun (page : Page) (collection : CollectionId) (components : List ComponentId) :
    Still component page (page.releaseRun collection components) :=
  (Still.foldl still_releaseComponent page components).trans (still_releaseCollection _ collection)

theorem still_finishRun (page : Page) (run : Run) : Still component page (page.finishRun run).1 := by
  refine (still_changeCollection run.collection (tends_changeCollection page run.collection
    (fun cell _ => ?_) fun cell => ?_)).trans (still_releaseRun _ _ _)
  · split
    · next hrunning => exact ⟨rfl, (fun _ hsame => by cases hsame),
            fun hdisposed => by cases hrunning.symm.trans hdisposed⟩
    · exact .refl cell
  · split <;> exact .inl rfl

/-- A collection that begins to run takes a hold on its components. -/
theorem still_running {collection : CollectionId} {cell : Collection}
    (hcell : page.collections.get? collection = some cell) (hready : cell.state = .ready)
    (components : List ComponentId)
    (hheld : ∀ cell, page.components.get? component = some cell →
      component ∈ components → component ∈ page.heldComponents) :
    Still component page (page.running collection components) := by
  have hrunning : Still component page (page.changeCollection collection fun cell =>
      { cell with state := .running }) := by
    refine still_changeCollection collection (tends_changeCollection page collection
      (fun other hother => ?_) fun _ => .inl rfl)
    obtain rfl := Option.some.inj (hcell.symm.trans hother)
    exact ⟨rfl, (fun _ hsame => by cases hsame),
        fun hdisposed => by cases hready.symm.trans hdisposed⟩
  have htaken := hrunning.trans (.of_tends (tends_holdCollection _ collection) rfl rfl fun h => h)
  exact htaken.trans (still_holdComponents components hheld)

/-! ## What is made -/

theorem Makes.still (h : Makes scope before after) (hlt : scope < before.scopes.scopes.size) :
    Still component before after :=
  .of_tends (h.tends hlt) h.scopes h.queue fun hheld => h.heldComponents ▸ hheld

/-- A component that is new was there for nobody. -/
theorem Still.holdNew (h : Still component before after) (hnew : before.components.size ≤ other) :
    Still component before (after.holdComponent other) where
  lasts := h.lasts.trans (tends_holdComponent after other).lasts
  balanced hbefore := (tends_holdComponent after other).balanced (h.balanced hbefore)
  ages := h.ages
  feeds := h.feeds.trans (.of_queue rfl (Nat.le_refl _))
  held cell hcell hheld := by
    rcases List.mem_cons.mp hheld with rfl | hold
    · have hlt : component < before.components.size := (Array.getElem?_eq_some_iff.mp hcell).1
      exact absurd hnew (Nat.not_le_of_lt hlt)
    · exact h.held cell hcell hold
  sources := h.sources

theorem still_createComponent (hlt : scope < page.scopes.scopes.size) (node : NodeId)
    (host : HostComponent) (priority : Priority) :
    Still component page (page.createComponent scope node host priority).1 :=
  ((makes_push page (Component.blank_new node scope priority (.host host))).still hlt).holdNew
    (Nat.le_refl _)

theorem still_createCommand (hlt : scope < page.scopes.scopes.size) (registry : RegistryId)
    (keyword : String) (node : NodeId) :
    Still component page (page.createCommand scope registry keyword node).1 := by
  have hmade : Still component page _ :=
    (@Extraction.makesIn_command scope registry node keyword page).still hlt
  have hnew := @Extraction.numbers_command scope registry node [] keyword page.components.size page
    (Extraction.fresh_nil page)
  rw [createCommand]
  generalize (Extraction.command scope registry keyword node).run page = reached at hmade hnew ⊢
  obtain ⟨error | made, after⟩ := reached
  · exact hmade
  · exact hmade.holdNew ((hnew made rfl).new made List.mem_cons_self)

theorem still_createCollection (halive : page.scopes.isAlive scope = true) (registry : RegistryId) :
    Still component page (page.createCollection scope registry).1 where
  lasts := (tends_createCollection halive registry).lasts
  balanced := (tends_createCollection halive registry).balanced
  ages := (Scopes.heeds_hold halive).toAges
  feeds := .of_queue rfl (Nat.le_refl _)
  held _ _ hheld := hheld
  sources := .of_scopes rfl

/-- What is extracted joins its collection, and nothing else does. -/
theorem still_extract (page : Page) (component : ComponentId) (collection : CollectionId)
    (roots : List NodeId) :
    Still component page (page.extract collection roots).1 ∧
      ∀ cell, (page.extract collection roots).1.collections.get? collection = some cell →
        ∀ id ∈ cell.components, id < page.components.size →
          ∃ old, page.collections.get? collection = some old ∧ id ∈ old.components := by
  have htends := tends_extract page collection roots
  rw [extract] at htends ⊢
  cases hcollection : page.collections.get? collection with
  | none =>
      dsimp only
      refine ⟨.refl component page, fun cell hcell => ?_⟩
      cases hcollection.symm.trans hcell
  | some cell =>
      rw [hcollection] at htends
      dsimp only at htends ⊢
      have hmakes := @Extraction.makesIn_nodes cell.scope cell.registry roots page
      have hnumbers := @Extraction.numbers_nodes cell.scope cell.registry roots page.components.size
        page (Extraction.fresh_nil page)
      generalize (Extraction.nodes cell.scope cell.registry roots).run page = reached
        at htends hmakes hnumbers ⊢
      obtain ⟨error | found, after⟩ := reached
      · refine ⟨.of_tends htends hmakes.scopes hmakes.queue fun hheld =>
          hmakes.heldComponents ▸ hheld, fun last hlast id hid _ => ⟨cell, rfl, ?_⟩⟩
        rw [hmakes.collections, hcollection] at hlast
        exact Option.some.inj hlast ▸ hid
      · have hnew := (hnumbers found rfl).new
        dsimp only at htends ⊢
        rw [foldl_holdComponent] at htends ⊢
        refine ⟨⟨⟨htends.lasts, htends.balanced, hmakes.scopes ▸ .refl _, .of_queue hmakes.queue htends.lasts.flights,
          fun known hknown hheld => ?_⟩, hmakes.scopes ▸ .refl _⟩, fun last hlast id hid hlt => ?_⟩
        · have hlt : component < page.components.size := (Array.getElem?_eq_some_iff.mp hknown).1
          rcases List.mem_append.mp hheld with hmade | hold
          · exact absurd (hnew component (List.mem_reverse.mp hmade)) (Nat.not_le_of_lt hlt)
          · exact hmakes.heldComponents ▸ hold
        · change (after.collections.modify collection _).get? collection = some last at hlast
          rw [Arena.get?_modify, if_pos rfl, hmakes.collections, hcollection] at hlast
          obtain rfl := Option.some.inj hlast
          refine ⟨cell, rfl, (List.mem_append.mp hid).resolve_right fun hmade => ?_⟩
          exact absurd (hnew id hmade) (Nat.not_le_of_lt hlt)

end Page

end ReactiveMarkup
