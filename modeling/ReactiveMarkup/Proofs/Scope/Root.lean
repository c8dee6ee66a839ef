import ReactiveMarkup.Proofs.Scope.Resolution

/-!
# The root scope of a page

Fragments are mounted in the root scope. Nothing is above it, so it sees what it stores itself, and
while only components are registered there, setting a source calls nobody but them: every component
that is registered for the id takes delivery once, and what is seen under other ids stays as it is.
-/

namespace ReactiveMarkup

/-- The component that is told. -/
def Handler.component? : Handler → Option ComponentId
  | .trigger component => some component
  | _ => none

namespace Scopes

variable {scopes before middle after : Scopes} {id name : String} {source : Source}

/-- The first scope is there, has no parent, and nobody but components is registered in it. -/
structure Rooted (scopes : Scopes) : Prop where
  there : 0 < scopes.scopes.size
  top : scopes.parent? 0 = none
  triggers : ∀ id, ∀ handler ∈ scopes.handlers 0 id, ∃ component, handler = .trigger component

theorem lineage_root (h : scopes.parent? 0 = none) : scopes.lineage 0 = [0] := by
  rw [lineage, lineageTo, h]

theorem find?_root (h : scopes.parent? 0 = none) (id : String) :
    scopes.find? 0 id = scopes.stored? 0 (Unicode.lower id) := by
  rw [find?, lineage_root h, List.findSome?_singleton, local?]

theorem isAlive_root (h : scopes.parent? 0 = none) (hheld : 0 < scopes.held.count 0) :
    scopes.isAlive 0 = true := by
  refine List.any_eq_true.mpr ⟨0, List.count_pos_iff.mp hheld, ?_⟩
  rw [lineage_root h]
  rfl

theorem Rooted.congr (h : Rooted before) (hscopes : after.scopes = before.scopes) :
    Rooted after := by
  refine ⟨hscopes ▸ h.there, ?_, fun id handler hhandler => h.triggers id handler ?_⟩
  · rw [parent?, look, hscopes]
    exact h.top
  · rw [handlers, look, hscopes] at hhandler
    exact hhandler

/-! ## Registering -/

theorem addHandler_root (h : scopes.parent? 0 = none) (id : String) (handler : Handler) :
    (scopes.addHandler 0 id handler).1 = (scopes.addLocalHandler 0 id handler).1 := by
  have hwires := grows_addLocalHandler scopes 0 id handler
  have htop : (scopes.addLocalHandler 0 id handler).1.parent? 0 = none :=
    (hwires.parent 0).trans h
  rw [addHandler]
  dsimp only
  rw [bridge, lineage_root htop, bridgeAlong]
  intro scope parent above habsurd
  cases habsurd

/-- Nothing was done but to register a component in the root scope. -/
structure Enlists (component : ComponentId) (before after : Scopes) : Prop where
  size : after.scopes.size = before.scopes.size
  top : after.parent? 0 = before.parent? 0
  stored : ∀ name, after.stored? 0 name = before.stored? 0 name
  held : after.held = before.held
  deliveries : after.deliveries = before.deliveries
  kept : ∀ name handler, handler ∈ before.handlers 0 name → handler ∈ after.handlers 0 name
  new : ∀ name handler, handler ∈ after.handlers 0 name →
    handler ∈ before.handlers 0 name ∨ handler = .trigger component

variable {component : ComponentId}

theorem Enlists.refl (component : ComponentId) (scopes : Scopes) : Enlists component scopes scopes :=
  ⟨rfl, rfl, fun _ => rfl, rfl, rfl, fun _ _ h => h, fun _ _ h => .inl h⟩

theorem Enlists.trans (h : Enlists component before middle) (h' : Enlists component middle after) :
    Enlists component before after where
  size := h'.size.trans h.size
  top := h'.top.trans h.top
  stored name := (h'.stored name).trans (h.stored name)
  held := h'.held.trans h.held
  deliveries := h'.deliveries.trans h.deliveries
  kept name handler hhandler := h'.kept name handler (h.kept name handler hhandler)
  new name handler hhandler := (h'.new name handler hhandler).elim (h.new name handler) .inr

theorem Rooted.enlists (h : Rooted scopes) (id : String) (component : ComponentId) :
    Enlists component scopes (scopes.addHandler 0 id (.trigger component)).1 ∧
      .trigger component ∈ (scopes.addHandler 0 id (.trigger component)).1.handlers 0
        (Unicode.lower id) := by
  rw [addHandler_root h.top]
  have hgrows := grows_addLocalHandler scopes 0 id (.trigger component)
  refine ⟨⟨hgrows.size, hgrows.parent 0, hgrows.stored 0, hgrows.held, ?_, fun name handler hin =>
    mem_handlers_addLocalHandler.mpr (.inl hin), fun name handler hin => ?_⟩, ?_⟩
  · rw [addLocalHandler]
    split <;> rfl
  · exact (mem_handlers_addLocalHandler.mp hin).imp (fun hold => hold) fun hnew => hnew.2.2.2
  · exact mem_handlers_addLocalHandler.mpr (.inr ⟨h.there, rfl, rfl, rfl⟩)

theorem Rooted.of_enlists (h : Rooted before) (henlists : Enlists component before after) :
    Rooted after := by
  refine ⟨henlists.size ▸ h.there, henlists.top.trans h.top, fun id handler hhandler => ?_⟩
  rcases henlists.new id handler hhandler with hold | hnew
  · exact h.triggers id handler hold
  · exact ⟨component, hnew⟩

/-! ## Setting -/

/-- Calling components is nothing but handing the source to them. -/
theorem foldl_call_triggers (cast : Cast) (source : Source) {handlers : List Handler}
    (htriggers : ∀ handler ∈ handlers, ∃ component, handler = .trigger component)
    (scopes : Scopes) :
    handlers.foldl (callBy cast source) scopes = { scopes with
      deliveries := scopes.deliveries ++
        (handlers.filterMap Handler.component?).map (.triggered · source) } := by
  induction handlers generalizing scopes with
  | nil => simp
  | cons handler rest ih =>
      obtain ⟨component, rfl⟩ := htriggers handler List.mem_cons_self
      rw [List.foldl_cons, ih fun other hother => htriggers other (List.mem_cons_of_mem _ hother)]
      simp [callBy, deliver, Handler.component?]

theorem foldl_resolve_alike (source : Source) (promises : List PromiseId) (scopes : Scopes) :
    Alike scopes (promises.foldl (fun scopes promise =>
        scopes.resolve (.fulfilled source) promise) scopes) ∧
      (promises.foldl (fun scopes promise =>
        scopes.resolve (.fulfilled source) promise) scopes).deliveries = scopes.deliveries := by
  induction promises generalizing scopes with
  | nil => exact ⟨.of_scopes rfl rfl fun _ host h => ⟨host, h, rfl⟩, rfl⟩
  | cons promise rest ih =>
      obtain ⟨halike, hdeliveries⟩ := ih (scopes.resolve (.fulfilled source) promise)
      exact ⟨(alike_resolve scopes _ promise).trans halike, hdeliveries⟩

/-- A broadcast in the root scope. -/
theorem Rooted.announce (h : Rooted scopes) (source : Source) :
    Alike scopes (scopes.announce 0 source) ∧
      (scopes.announce 0 source).deliveries = scopes.deliveries ++
        ((scopes.handlers 0 source.id).filterMap Handler.component?).map (.triggered · source) := by
  obtain ⟨depth, hdepth⟩ : ∃ depth, scopes.castDepth = depth + 1 :=
    Nat.exists_eq_succ_of_ne_zero (Nat.mul_ne_zero (Nat.succ_ne_zero _) (Nat.succ_ne_zero _))
  have htaken : Alike scopes (scopes.takeWaiters 0 source.id) := alike_modify_waiters scopes 0 _
  rw [Scopes.announce, hdepth, broadcast]
  rw [foldl_call_triggers _ source (h.triggers source.id)]
  obtain ⟨halike, hdeliveries⟩ := foldl_resolve_alike source (scopes.waiters 0 source.id)
    { scopes.takeWaiters 0 source.id with
      deliveries := (scopes.takeWaiters 0 source.id).deliveries ++
        ((scopes.handlers 0 source.id).filterMap Handler.component?).map (.triggered · source) }
  refine ⟨htaken.trans (.trans ?_ halike), hdeliveries⟩
  exact .of_scopes rfl rfl fun _ host h => ⟨host, h, rfl⟩

/-- Setting a source changes nothing under other ids and calls all that are registered for its own. -/
theorem Rooted.set (h : Rooted scopes) (source : Source) :
    SameWires scopes (scopes.set 0 source).1 ∧
      (∀ name, source.id ≠ name → (scopes.set 0 source).1.stored? 0 name = scopes.stored? 0 name) ∧
      (scopes.set 0 source).1.deliveries = scopes.deliveries ++
        ((scopes.handlers 0 source.id).filterMap Handler.component?).map
          (.triggered · (scopes.set 0 source).2) := by
  obtain ⟨hid, hset⟩ := set_eq scopes 0 source
  generalize (scopes.set 0 source).2 = merged at hid hset ⊢
  rw [hset]
  have hsame : SameWires scopes ((scopes.own 0 merged.id).put 0 merged) :=
    (sameWires_own scopes 0 merged.id).trans (sameWires_put _ 0 merged)
  have hrooted : Rooted ((scopes.own 0 merged.id).put 0 merged) :=
    ⟨hsame.size ▸ h.there, (hsame.parent 0).trans h.top, fun id handler hhandler =>
      h.triggers id handler (hsame.handlers 0 id ▸ hhandler)⟩
  obtain ⟨halike, hdeliveries⟩ := hrooted.announce merged
  refine ⟨hsame.trans halike.toSameWires, fun name hname => ?_, ?_⟩
  · rw [halike.stored 0 name, stored?_put_of_ne fun hplace => hname (hid ▸ hplace.2), stored?_own]
  · rw [hdeliveries, hsame.handlers 0 merged.id, hid]
    rfl

end Scopes

end ReactiveMarkup
