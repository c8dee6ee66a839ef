import ReactiveMarkup.Proofs.Scope.Lineage

/-!
# Bridges

A bridge has two ends: a scope knows that it has one for an id, and its parent has a handler that
leads to the scope. The two ends always belong together, and there are never bridges without those
above them: where a scope has a bridge to a parent that has a parent of its own, the parent has a
bridge for the same id. So whoever sees to it that a scope is reached need only look at the scope.

While bridges are set up along a lineage, the last of these facts fails in one place, the scope that
is next; the lemma on `bridgeAlong` carries this place upwards until it is a scope with a bridge, or
one without a parent.
-/

namespace ReactiveMarkup.Scopes

variable {scopes before middle after : Scopes} {scope parent head : ScopeId} {id name : String}

/-! ## What may change beside the sources -/

/-- No source was touched, no scope was made, and no bridge was taken down. -/
structure Grows (before after : Scopes) : Prop where
  size : after.scopes.size = before.scopes.size
  parent : ∀ scope, after.parent? scope = before.parent? scope
  stored : ∀ scope id, after.stored? scope id = before.stored? scope id
  inherited : ∀ scope id, after.isInherited scope id = before.isInherited scope id
  bridges : ∀ scope id, before.hasBridge scope id = true → after.hasBridge scope id = true
  held : after.held = before.held
  hosts : ∀ number host, after.hosts.get? number = some host →
    ∃ earlier, before.hosts.get? number = some earlier ∧ earlier.actions = host.actions

theorem Grows.refl (scopes : Scopes) : Grows scopes scopes :=
  ⟨rfl, fun _ => rfl, fun _ _ => rfl, fun _ _ => rfl, fun _ _ h => h, rfl,
    fun _ host h => ⟨host, h, rfl⟩⟩

theorem Grows.trans (h : Grows before middle) (h' : Grows middle after) : Grows before after where
  size := h'.size.trans h.size
  parent scope := (h'.parent scope).trans (h.parent scope)
  stored scope id := (h'.stored scope id).trans (h.stored scope id)
  inherited scope id := (h'.inherited scope id).trans (h.inherited scope id)
  bridges scope id hbridge := h'.bridges scope id (h.bridges scope id hbridge)
  held := h'.held.trans h.held
  hosts number host hhost := by
    obtain ⟨later, hlater, hsame⟩ := h'.hosts number host hhost
    obtain ⟨earlier, hearlier, hactions⟩ := h.hosts number later hlater
    exact ⟨earlier, hearlier, hactions.trans hsame⟩

theorem grows_modify (scopes : Scopes) {f : Scope → Scope}
    (hparent : ∀ cell, (f cell).parent = cell.parent)
    (hsources : ∀ cell, (f cell).sources = cell.sources)
    (hinherited : ∀ cell, (f cell).inherited = cell.inherited)
    (hbridges : ∀ cell, (f cell).bridges = cell.bridges) : Grows scopes (scopes.modify scope f) where
  size := size_modify f
  parent _ := parent?_modify hparent
  stored _ _ := stored?_modify hsources
  inherited _ _ := isInherited_modify hinherited
  bridges _ _ h := (hasBridge_modify hbridges).trans h
  held := rfl
  hosts _ host h := ⟨host, h, rfl⟩

/-- Nothing was touched but what scopes store. -/
structure SameWires (before after : Scopes) : Prop where
  size : after.scopes.size = before.scopes.size
  parent : ∀ scope, after.parent? scope = before.parent? scope
  bridges : ∀ scope id, after.hasBridge scope id = before.hasBridge scope id
  handlers : ∀ scope id, after.handlers scope id = before.handlers scope id
  held : after.held = before.held
  hosts : ∀ number host, after.hosts.get? number = some host →
    ∃ earlier, before.hosts.get? number = some earlier ∧ earlier.actions = host.actions

theorem SameWires.refl (scopes : Scopes) : SameWires scopes scopes :=
  ⟨rfl, fun _ => rfl, fun _ _ => rfl, fun _ _ => rfl, rfl, fun _ host h => ⟨host, h, rfl⟩⟩

theorem SameWires.trans (h : SameWires before middle) (h' : SameWires middle after) :
    SameWires before after where
  size := h'.size.trans h.size
  parent scope := (h'.parent scope).trans (h.parent scope)
  bridges scope id := (h'.bridges scope id).trans (h.bridges scope id)
  handlers scope id := (h'.handlers scope id).trans (h.handlers scope id)
  held := h'.held.trans h.held
  hosts number host hhost := by
    obtain ⟨later, hlater, hsame⟩ := h'.hosts number host hhost
    obtain ⟨earlier, hearlier, hactions⟩ := h.hosts number later hlater
    exact ⟨earlier, hearlier, hactions.trans hsame⟩

theorem sameWires_modify (scopes : Scopes) {f : Scope → Scope}
    (hparent : ∀ cell, (f cell).parent = cell.parent)
    (hbridges : ∀ cell, (f cell).bridges = cell.bridges)
    (hhandlers : ∀ cell, (f cell).handlers = cell.handlers) :
    SameWires scopes (scopes.modify scope f) where
  size := size_modify f
  parent _ := parent?_modify hparent
  bridges _ _ := hasBridge_modify hbridges
  handlers _ _ := handlers_modify hhandlers
  held := rfl
  hosts _ host h := ⟨host, h, rfl⟩

theorem sameWires_put (scopes : Scopes) (scope : ScopeId) (source : Source) :
    SameWires scopes (scopes.put scope source) :=
  sameWires_modify scopes (fun _ => rfl) (fun _ => rfl) fun _ => rfl

theorem sameWires_own (scopes : Scopes) (scope : ScopeId) (id : String) :
    SameWires scopes (scopes.own scope id) :=
  sameWires_modify scopes (fun _ => rfl) (fun _ => rfl) fun _ => rfl

theorem sameWires_inherit (scopes : Scopes) (scope : ScopeId) (id : String) :
    SameWires scopes (scopes.inherit scope id) := by
  rw [inherit]
  split
  · exact .refl scopes
  · exact sameWires_modify scopes (fun _ => rfl) (fun _ => rfl) fun _ => rfl

/-- Nothing was touched that decides where a source goes. -/
structure Alike (before after : Scopes) : Prop extends SameWires before after where
  stored : ∀ scope id, after.stored? scope id = before.stored? scope id
  inherited : ∀ scope id, after.isInherited scope id = before.isInherited scope id

theorem Alike.trans (h : Alike before middle) (h' : Alike middle after) : Alike before after :=
  ⟨h.toSameWires.trans h'.toSameWires, fun scope id => (h'.stored scope id).trans (h.stored scope id),
    fun scope id => (h'.inherited scope id).trans (h.inherited scope id)⟩

theorem Alike.grows (h : Alike before after) : Grows before after :=
  ⟨h.size, h.parent, h.stored, h.inherited, fun _ _ hbridge => (h.bridges _ _).trans hbridge,
    h.held, h.hosts⟩

theorem Alike.of_scopes (hscopes : after.scopes = before.scopes) (hheld : after.held = before.held)
    (hhosts : ∀ number host, after.hosts.get? number = some host →
      ∃ earlier, before.hosts.get? number = some earlier ∧ earlier.actions = host.actions) :
    Alike before after := by
  have hlook : ∀ {α : Type} (scope : ScopeId) (default : α) (f : Scope → α),
      after.look scope default f = before.look scope default f := by
    intro α scope default f
    rw [look, look, hscopes]
  exact ⟨⟨by rw [hscopes], fun _ => hlook .., fun _ _ => by rw [hasBridge, hasBridge, hlook],
    fun _ _ => by rw [Scopes.handlers, Scopes.handlers, hlook], hheld, hhosts⟩,
    fun _ _ => by rw [stored?, stored?, hlook],
    fun _ _ => by rw [isInherited, isInherited, hlook]⟩

theorem alike_deliver (scopes : Scopes) (delivery : Delivery) :
    Alike scopes (scopes.deliver delivery) :=
  .of_scopes rfl rfl fun _ host h => ⟨host, h, rfl⟩

theorem alike_resolve (scopes : Scopes) (state : PromiseState) (promise : PromiseId) :
    Alike scopes (scopes.resolve state promise) :=
  .of_scopes rfl rfl fun _ host h => ⟨host, h, rfl⟩

theorem alike_modify_waiters (scopes : Scopes) (scope : ScopeId)
    (f : List (String × PromiseId) → List (String × PromiseId)) :
    Alike scopes (scopes.modify scope fun cell => { cell with waiters := f cell.waiters }) :=
  ⟨sameWires_modify scopes (fun _ => rfl) (fun _ => rfl) fun _ => rfl,
    fun _ _ => stored?_modify fun _ => rfl, fun _ _ => isInherited_modify fun _ => rfl⟩

/-! ## Bridges belong together -/

/-- Both ends of every bridge are there. -/
structure Wired (scopes : Scopes) : Prop where
  order : scopes.Ordered
  there : ∀ {scope parent : ScopeId} {id : String}, scopes.hasBridge scope id = true →
    scopes.parent? scope = some parent → .bridge scope ∈ scopes.handlers parent id
  back : ∀ {scope parent : ScopeId} {id : String}, .bridge scope ∈ scopes.handlers parent id →
    scopes.parent? scope = some parent ∧ scopes.hasBridge scope id = true

/-- Bridges go on above a parent, but for one id at one scope. -/
def RisingBut (scopes : Scopes) (id : String) (head : ScopeId) : Prop :=
  ∀ scope parent above name, scopes.hasBridge scope name = true →
    scopes.parent? scope = some parent → scopes.parent? parent = some above →
      scopes.hasBridge parent name = true ∨ parent = head ∧ name = id

/-- Bridges go on above a parent. -/
def Rising (scopes : Scopes) : Prop :=
  ∀ scope parent above name, scopes.hasBridge scope name = true →
    scopes.parent? scope = some parent → scopes.parent? parent = some above →
      scopes.hasBridge parent name = true

theorem Rising.but (h : scopes.Rising) (id : String) (head : ScopeId) : scopes.RisingBut id head :=
  fun scope parent above name hbridge hparent habove =>
    .inl (h scope parent above name hbridge hparent habove)

theorem Wired.congr (h : Wired before) (hparent : ∀ scope, after.parent? scope = before.parent? scope)
    (hbridge : ∀ scope id, after.hasBridge scope id = before.hasBridge scope id)
    (hhandlers : ∀ scope id child, .bridge child ∈ after.handlers scope id ↔
      .bridge child ∈ before.handlers scope id) : Wired after where
  order scope parent hscope := h.order scope parent (hparent scope ▸ hscope)
  there hscope hrises :=
    (hhandlers _ _ _).mpr (h.there (hbridge _ _ ▸ hscope) (hparent _ ▸ hrises))
  back hmem := by
    rw [hparent, hbridge]
    exact h.back ((hhandlers _ _ _).mp hmem)

theorem Rising.congr (h : Rising before) (hparent : ∀ scope, after.parent? scope = before.parent? scope)
    (hbridge : ∀ scope id, after.hasBridge scope id = before.hasBridge scope id) : Rising after := by
  intro scope parent above name hscope hrises habove
  rw [hbridge] at hscope ⊢
  rw [hparent] at hrises habove
  exact h scope parent above name hscope hrises habove

theorem Wired.sameWires (h : Wired before) (hsame : SameWires before after) : Wired after :=
  h.congr hsame.parent hsame.bridges fun scope id _ => by rw [hsame.handlers scope id]

theorem Rising.sameWires (h : Rising before) (hsame : SameWires before after) : Rising after :=
  h.congr hsame.parent hsame.bridges

/-! ## Registering -/

theorem grows_addLocalHandler (scopes : Scopes) (scope : ScopeId) (id : String) (handler : Handler) :
    Grows scopes (scopes.addLocalHandler scope id handler).1 := by
  rw [addLocalHandler]
  split
  · exact .refl scopes
  · exact grows_modify scopes (fun _ => rfl) (fun _ => rfl) (fun _ => rfl) fun _ => rfl

theorem hasBridge_addLocalHandler (handler : Handler) (other : ScopeId) :
    (scopes.addLocalHandler scope id handler).1.hasBridge other name =
      scopes.hasBridge other name := by
  rw [addLocalHandler]
  split
  · rfl
  · exact hasBridge_modify fun _ => rfl

/-- A bridge that a scope sets up to its parent: both ends at once. -/
def connect (scopes : Scopes) (id : String) (scope parent : ScopeId) : Scopes :=
  ((scopes.modify scope fun cell =>
    { cell with bridges := id :: cell.bridges }).addLocalHandler parent id (.bridge scope)).1

theorem hasBridge_connect (hparent : scopes.parent? scope = some parent) (other : ScopeId) :
    (scopes.connect id scope parent).hasBridge other name = true ↔
      scopes.hasBridge other name = true ∨ other = scope ∧ name = id := by
  rw [connect, hasBridge_addLocalHandler]
  by_cases hscope : scope = other
  · obtain rfl := hscope
    obtain ⟨cell, hcell⟩ := get?_of_lt
      (lt_size_of_parent? hparent)
    rw [hasBridge, look_modify_self, hasBridge, look, look, hcell]
    simp [or_comm]
  · rw [hasBridge, look_modify_of_ne scopes hscope, hasBridge]
    simp [Ne.symm hscope]

theorem grows_connect (scopes : Scopes) (hparent : scopes.parent? scope = some parent) :
    Grows scopes (scopes.connect id scope parent) := by
  have hmarked : ∀ {f : Scope → Scope}, Grows (scopes.modify scope f)
      ((scopes.modify scope f).addLocalHandler parent id (.bridge scope)).1 := 
    fun {f} => grows_addLocalHandler _ _ _ _
  refine ⟨?_, ?_, ?_, ?_, fun other name h => (hasBridge_connect hparent other).mpr (.inl h), ?_, ?_⟩
  · exact hmarked.size.trans (size_modify _)
  · exact fun other => (hmarked.parent other).trans (parent?_modify fun _ => rfl)
  · exact fun other name => (hmarked.stored other name).trans (stored?_modify fun _ => rfl)
  · exact fun other name => (hmarked.inherited other name).trans (isInherited_modify fun _ => rfl)
  · exact hmarked.held
  · exact hmarked.hosts

theorem Wired.connect (h : Wired scopes) (hparent : scopes.parent? scope = some parent)
    (hid : Unicode.lower id = id) : Wired (scopes.connect id scope parent) := by
  have hgrows : Grows scopes (scopes.connect id scope parent) := grows_connect scopes hparent
  have hlt : parent < scopes.scopes.size :=
    Nat.lt_trans (h.order scope parent hparent) (lt_size_of_parent? hparent)
  have hhandlers : ∀ (handler : Handler) (other : ScopeId) (name : String),
      handler ∈ (scopes.connect id scope parent).handlers other name ↔
        handler ∈ scopes.handlers other name ∨
          other = parent ∧ name = id ∧ handler = .bridge scope := by
    intro handler other name
    rw [Scopes.connect, mem_handlers_addLocalHandler, size_modify, hid,
      handlers_modify (fun _ => by rfl), and_iff_right hlt]
  refine ⟨?_, ?_, ?_⟩
  · intro other above hother
    exact h.order other above (hgrows.parent other ▸ hother)
  · intro other above name hbridge habove
    rw [hgrows.parent] at habove
    rw [hhandlers]
    rcases (hasBridge_connect hparent other).mp hbridge with hold | ⟨rfl, rfl⟩
    · exact .inl (h.there hold habove)
    · rw [hparent] at habove
      exact .inr ⟨(Option.some.inj habove).symm, rfl, rfl⟩
  · intro other above name hmem
    rw [hgrows.parent, hasBridge_connect hparent]
    rcases (hhandlers _ _ _).mp hmem with hold | ⟨rfl, rfl, hsame⟩
    · exact ⟨(h.back hold).1, .inl (h.back hold).2⟩
    · obtain rfl := Handler.bridge.inj hsame
      exact ⟨hparent, .inr ⟨rfl, rfl⟩⟩

/-- Setting up bridges along a lineage makes them go all the way up. -/
theorem bridgeAlong_spec (hid : Unicode.lower id = id) (height : Nat) (hheight : head < height)
    (hwired : Wired scopes) (hrising : scopes.RisingBut id head) :
    Wired (bridgeAlong id (scopes.lineageTo height head) scopes) ∧
      Rising (bridgeAlong id (scopes.lineageTo height head) scopes) ∧
        Grows scopes (bridgeAlong id (scopes.lineageTo height head) scopes) := by
  induction height generalizing scopes head with
  | zero => cases hheight
  | succ height ih =>
      rw [lineageTo]
      cases hparent : scopes.parent? head with
      | none =>
          change Wired scopes ∧ Rising scopes ∧ Grows scopes scopes
          refine ⟨hwired, fun scope parent above name hbridge hrises habove => ?_, .refl scopes⟩
          refine (hrising scope parent above name hbridge hrises habove).resolve_right ?_
          rintro ⟨rfl, -⟩
          rw [hparent] at habove
          cases habove
      | some parent =>
          have hlt := hwired.order head parent hparent
          obtain ⟨rest, hrest⟩ : ∃ rest, scopes.lineageTo height parent = parent :: rest := by
            cases height with
            | zero => exact absurd (Nat.lt_of_lt_of_le hlt (Nat.le_of_lt_succ hheight)) (Nat.not_lt_zero _)
            | succ height => exact ⟨_, rfl⟩
          dsimp only
          rw [hrest, bridgeAlong]
          split
          · next hbridged =>
              refine ⟨hwired, fun scope above higher name hbridge hrises habove => ?_, .refl scopes⟩
              rcases hrising scope above higher name hbridge hrises habove with hup | ⟨rfl, rfl⟩
              · exact hup
              · exact hbridged
          · have hgrows : Grows scopes (scopes.connect id head parent) :=
              grows_connect scopes hparent
            have hrises : (scopes.connect id head parent).RisingBut id parent := by
              intro scope above higher name hbridge habove hhigher
              rw [hgrows.parent] at habove hhigher
              rw [hasBridge_connect hparent]
              rcases (hasBridge_connect hparent scope).mp hbridge with hold | ⟨rfl, rfl⟩
              · rcases hrising scope above higher name hold habove hhigher with hup | hhead
                · exact .inl (.inl hup)
                · exact .inl (.inr hhead)
              · rw [hparent] at habove
                exact .inr ⟨(Option.some.inj habove).symm, rfl⟩
            have hlineage : (scopes.connect id head parent).lineageTo height parent =
                parent :: rest := (lineageTo_congr hgrows.parent height parent).trans hrest
            have hup := ih (Nat.lt_of_lt_of_le hlt (Nat.le_of_lt_succ hheight))
              (hwired.connect hparent hid) hrises
            rw [hlineage] at hup
            exact ⟨hup.1, hup.2.1, hgrows.trans hup.2.2⟩

theorem bridge_spec (scopes : Scopes) (scope : ScopeId) (id : String) (hwired : Wired scopes)
    (hrising : scopes.Rising) :
    Wired (scopes.bridge scope id) ∧ Rising (scopes.bridge scope id) ∧
      Grows scopes (scopes.bridge scope id) :=
  bridgeAlong_spec (Unicode.lower_lower id) _ (Nat.lt_succ_self scope) hwired (hrising.but _ _)

/-- A handler that is no bridge can be registered anywhere. -/
theorem Wired.addLocalHandler (h : Wired scopes) {handler : Handler}
    (hhandler : ∀ child, handler ≠ .bridge child) :
    Wired (scopes.addLocalHandler scope id handler).1 := by
  refine h.congr (grows_addLocalHandler _ _ _ _).parent
    (fun _ _ => hasBridge_addLocalHandler _ _) fun other name child => ?_
  rw [mem_handlers_addLocalHandler]
  constructor
  · rintro (hin | ⟨-, -, -, hsame⟩)
    · exact hin
    · exact absurd hsame.symm (hhandler child)
  · exact .inl

theorem grows_removeHandler (scopes : Scopes) (scope : ScopeId) (id : String) (handler : Handler) :
    Grows scopes (scopes.removeHandler scope id handler).1 := by
  rw [removeHandler]
  split
  · exact grows_modify scopes (fun _ => rfl) (fun _ => rfl) (fun _ => rfl) fun _ => rfl
  · exact .refl scopes

theorem hasBridge_removeHandler (handler : Handler) (other : ScopeId) :
    (scopes.removeHandler scope id handler).1.hasBridge other name =
      scopes.hasBridge other name := by
  rw [removeHandler]
  split
  · exact hasBridge_modify fun _ => rfl
  · rfl

/-- A handler that is no bridge can be taken away anywhere. -/
theorem Wired.removeHandler (h : Wired scopes) {handler : Handler}
    (hhandler : ∀ child, handler ≠ .bridge child) :
    Wired (scopes.removeHandler scope id handler).1 := by
  refine h.congr (grows_removeHandler _ _ _ _).parent
    (fun _ _ => hasBridge_removeHandler _ _) fun other name child => ?_
  exact ⟨mem_handlers_of_removeHandler,
    mem_handlers_removeHandler fun hsame => hhandler child hsame.symm⟩

/-! ## Subscriptions -/

/-- What registering does keeps bridges together and touches no source. -/
structure Extends (before after : Scopes) : Prop where
  wired : Wired after
  rising : Rising after
  grows : Grows before after

theorem extends_addHandler (hwired : Wired scopes) (hrising : Rising scopes) (scope : ScopeId)
    (id : String) {handler : Handler} (hhandler : ∀ child, handler ≠ .bridge child) :
    Extends scopes (scopes.addHandler scope id handler).1 := by
  have hgrows := grows_addLocalHandler scopes scope id handler
  obtain ⟨hup, hrises, hmore⟩ := bridge_spec (scopes.addLocalHandler scope id handler).1 scope id
    (hwired.addLocalHandler hhandler)
    (hrising.congr hgrows.parent fun _ _ => hasBridge_addLocalHandler _ _)
  exact ⟨hup, hrises, hgrows.trans hmore⟩

theorem extends_removeHandler (hwired : Wired scopes) (hrising : Rising scopes) (scope : ScopeId)
    (id : String) {handler : Handler} (hhandler : ∀ child, handler ≠ .bridge child) :
    Extends scopes (scopes.removeHandler scope id handler).1 :=
  ⟨hwired.removeHandler hhandler,
    hrising.congr (grows_removeHandler _ _ _ _).parent fun _ _ => hasBridge_removeHandler _ _,
    grows_removeHandler _ _ _ _⟩

theorem extends_wait (hwired : Wired scopes) (hrising : Rising scopes) (scope : ScopeId)
    (id : String) : Extends scopes (scopes.wait scope id).1 := by
  rw [wait]
  split
  · exact ⟨hwired, hrising, .refl scopes⟩
  · have halike : Alike scopes
        { scopes with promises := scopes.promises.push { scope, id := Unicode.lower id } } :=
      .of_scopes rfl rfl fun _ host h => ⟨host, h, rfl⟩
    have hlisted := alike_modify_waiters
      { scopes with promises := scopes.promises.push { scope, id := Unicode.lower id } } scope
      (· ++ [(Unicode.lower id, scopes.promises.size)])
    obtain ⟨hup, hrises, hmore⟩ := bridge_spec _ scope (Unicode.lower id)
      ((hwired.sameWires halike.toSameWires).sameWires hlisted.toSameWires)
      ((hrising.sameWires halike.toSameWires).sameWires hlisted.toSameWires)
    exact ⟨hup, hrises, (halike.grows.trans hlisted.grows).trans hmore⟩

end ReactiveMarkup.Scopes
