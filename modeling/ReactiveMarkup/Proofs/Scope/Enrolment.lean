import ReactiveMarkup.Proofs.Scope.Linked

/-!
# Who is enrolled

A component is enrolled for an id in a scope as often as its trigger is among the handlers of the id.
Only components register triggers, and only they remove them; what goes on in scopes besides, sources
that are set and handlers of the host with all that they do included, minds its own business. The one
exception is a scope that is disposed: it loses all handlers, so nothing is said of scopes that are. In
the middle of it bridges have one end only; before and after everything is linked that can be.

How deep broadcasts nest is of no importance here. A broadcast minds its business at every depth
because it does at a smaller one, and nobody has to be alive for it.
-/

namespace ReactiveMarkup.Scopes

variable {scopes before middle after : Scopes} {scope other : ScopeId} {id name : String}
  {handler : Handler} {component : ComponentId}

/-- How often a component is registered for an id in a scope. -/
def enrolled (scopes : Scopes) (scope : ScopeId) (id : String) (component : ComponentId) : Nat :=
  (scopes.handlers scope id).count (.trigger component)

theorem enrolled_of_handlers (h : after.handlers scope id = before.handlers scope id) :
    after.enrolled scope id component = before.enrolled scope id component := by
  rw [enrolled, h, enrolled]

/-- Bridges do not count. -/
theorem enrolled_eq_count_listeners (scopes : Scopes) (scope : ScopeId) (id : String)
    (component : ComponentId) :
    scopes.enrolled scope id component = (scopes.listeners scope id).count (.trigger component) := by
  rw [listeners, List.count_filter rfl, enrolled]

/-- A change that enrols no component and strikes none off, but in a scope that is disposed. -/
structure Neutral (before after : Scopes) : Prop extends SameTree before after where
  disposed : ∀ scope, before.isDisposed scope = true → after.isDisposed scope = true
  enrolled : ∀ scope id component, after.isDisposed scope = false →
    after.enrolled scope id component = before.enrolled scope id component

/-- Such a change, when it is over. -/
structure Minds (before after : Scopes) : Prop extends Neutral before after where
  linked : before.Ordered → before.Linked → after.Linked

theorem isDisposed_of_later (h : before.isDisposed scope = true → after.isDisposed scope = true)
    (hkept : after.isDisposed scope = false) : before.isDisposed scope = false := by
  cases hdisposed : before.isDisposed scope with
  | false => rfl
  | true => exact absurd (h hdisposed) (by rw [hkept]; exact Bool.false_ne_true)

theorem SameTree.ordered (h : SameTree before after) (hordered : before.Ordered) : after.Ordered :=
  fun scope parent hparent => hordered scope parent (h.parent scope ▸ hparent)

theorem Neutral.refl (scopes : Scopes) : Neutral scopes scopes :=
  ⟨(Leaves.refl scopes).toSameTree, fun _ h => h, fun _ _ _ _ => rfl⟩

theorem Neutral.trans (h : Neutral before middle) (h' : Neutral middle after) :
    Neutral before after where
  toSameTree := h.toSameTree.trans h'.toSameTree
  disposed scope hdisposed := h'.disposed scope (h.disposed scope hdisposed)
  enrolled scope id component hkept :=
    (h'.enrolled scope id component hkept).trans
      (h.enrolled scope id component (isDisposed_of_later (h'.disposed scope) hkept))

theorem Minds.refl (scopes : Scopes) : Minds scopes scopes := ⟨.refl scopes, fun _ h => h⟩

theorem Minds.trans (h : Minds before middle) (h' : Minds middle after) : Minds before after where
  toNeutral := h.toNeutral.trans h'.toNeutral
  linked hordered hlinked := h'.linked (h.toSameTree.ordered hordered) (h.linked hordered hlinked)

theorem Leaves.neutral (h : Leaves before after)
    (hcount : ∀ scope id component,
      after.enrolled scope id component = before.enrolled scope id component) :
    Neutral before after :=
  ⟨h.toSameTree, fun scope hdisposed => (h.disposed scope).trans hdisposed,
    fun scope id component _ => hcount scope id component⟩

theorem Neutral.foldl {α : Type} {step : Scopes → α → Scopes}
    (hstep : ∀ scopes item, Neutral scopes (step scopes item)) (scopes : Scopes) (items : List α) :
    Neutral scopes (items.foldl step scopes) := by
  induction items generalizing scopes with
  | nil => exact .refl scopes
  | cons item rest ih => exact (hstep scopes item).trans (ih _)

theorem Minds.foldl {α : Type} {step : Scopes → α → Scopes}
    (hstep : ∀ scopes item, Minds scopes (step scopes item)) (scopes : Scopes) (items : List α) :
    Minds scopes (items.foldl step scopes) := by
  induction items generalizing scopes with
  | nil => exact .refl scopes
  | cons item rest ih => exact (hstep scopes item).trans (ih _)

/-- Changes of a scope that leave its place and its handlers as they are. -/
theorem neutral_modify (scopes : Scopes) (scope : ScopeId) {f : Scope → Scope}
    (hparent : ∀ cell, (f cell).parent = cell.parent)
    (hdisposed : ∀ cell, cell.disposed = true → (f cell).disposed = true)
    (hhandlers : ∀ cell, (f cell).handlers = cell.handlers) :
    Neutral scopes (scopes.modify scope f) where
  toSameTree := sameTree_modify scopes hparent
  disposed other h := by
    by_cases hscope : scope = other
    · obtain rfl := hscope
      rw [isDisposed, look] at h
      rw [isDisposed, look_modify_self, look]
      cases hcell : scopes.scopes.get? scope with
      | none => rwa [hcell] at h
      | some cell =>
          rw [hcell] at h
          exact hdisposed cell h
    · rwa [isDisposed, look_modify_of_ne scopes hscope]
  enrolled _ _ _ _ := enrolled_of_handlers (handlers_modify hhandlers)

/-- Changes that leave the bridges as they are, too. -/
theorem minds_modify (scopes : Scopes) (scope : ScopeId) {f : Scope → Scope}
    (hparent : ∀ cell, (f cell).parent = cell.parent)
    (hdisposed : ∀ cell, (f cell).disposed = cell.disposed)
    (hhandlers : ∀ cell, (f cell).handlers = cell.handlers)
    (hbridges : ∀ cell, (f cell).bridges = cell.bridges) :
    Minds scopes (scopes.modify scope f) where
  toNeutral := neutral_modify scopes scope hparent (fun cell h => (hdisposed cell).trans h) hhandlers
  linked _ h := h.congr (fun _ => parent?_modify hparent)
    (fun _ hgone => (look_modify scopes hdisposed).trans hgone)
    (fun _ _ => hasBridge_modify hbridges) fun _ _ => handlers_modify hhandlers

/-- Changes outside of the scopes themselves. -/
theorem minds_of_scopes (hscopes : after.scopes = before.scopes) (hheld : after.held = before.held) :
    Minds before after where
  size := by rw [hscopes]
  parent _ := look_of_scopes hscopes _
  held := hheld
  disposed _ h := (look_of_scopes hscopes _).trans h
  enrolled scope id _ _ := enrolled_of_handlers (by
    rw [handlers, look_of_scopes hscopes, handlers])
  linked _ h := h.congr (fun _ => look_of_scopes hscopes _)
    (fun _ hgone => (look_of_scopes hscopes _).trans hgone)
    (fun _ _ => by rw [hasBridge, look_of_scopes hscopes, hasBridge])
    fun _ _ => by rw [handlers, look_of_scopes hscopes, handlers]

/-! ## Registering and removing -/

theorem enrolled_bridge (scopes : Scopes) (place : ScopeId) (bridged : String) :
    (scopes.bridge place bridged).enrolled scope id component =
      scopes.enrolled scope id component := by
  rw [enrolled_eq_count_listeners, bridge, (tells_bridgeAlong _ _ scopes).listeners,
    enrolled_eq_count_listeners]

theorem enrolled_addLocalHandler (scopes : Scopes) (place : ScopeId) (added : String)
    (handler : Handler) (hne : handler ≠ .trigger component) :
    (scopes.addLocalHandler place added handler).1.enrolled scope id component =
      scopes.enrolled scope id component := by
  rcases handlers_addLocalHandler scopes place added handler scope id with hsame | ⟨-, -, -, hmore⟩
  · exact enrolled_of_handlers hsame
  · rw [enrolled, hmore, List.count_append, List.count_singleton, if_neg (by simpa using hne),
      enrolled]
    rfl

theorem enrolled_removeHandler (scopes : Scopes) (place : ScopeId) (removed : String)
    (handler : Handler) (hne : handler ≠ .trigger component) :
    (scopes.removeHandler place removed handler).1.enrolled scope id component =
      scopes.enrolled scope id component := by
  rw [enrolled, handlers_removeHandler]
  split
  · rw [List.count_erase_of_ne hne.symm, enrolled]
  · rfl

theorem minds_addLocalHandler (scopes : Scopes) (scope : ScopeId) (id : String)
    (hhandler : ∀ component, handler ≠ .trigger component)
    (houtside : ∀ child, handler ≠ .bridge child) :
    Minds scopes (scopes.addLocalHandler scope id handler).1 where
  toNeutral := (leaves_addLocalHandler scopes scope id handler).neutral fun _ _ component =>
    enrolled_addLocalHandler scopes scope id handler (hhandler component)
  linked _ h := h.addLocalHandler houtside hhandler

theorem minds_bridge (scopes : Scopes) (scope : ScopeId) (id : String) :
    Minds scopes (scopes.bridge scope id) where
  toNeutral := (leaves_bridge scopes scope id).neutral fun _ _ _ => enrolled_bridge scopes scope id
  linked hordered h := h.bridgeMore hordered scope id

theorem minds_addHandler (scopes : Scopes) (scope : ScopeId) (id : String)
    (hhandler : ∀ component, handler ≠ .trigger component)
    (houtside : ∀ child, handler ≠ .bridge child) :
    Minds scopes (scopes.addHandler scope id handler).1 :=
  (minds_addLocalHandler scopes scope id hhandler houtside).trans (minds_bridge _ scope id)

theorem neutral_removeHandler (scopes : Scopes) (scope : ScopeId) (id : String)
    (hhandler : ∀ component, handler ≠ .trigger component) :
    Neutral scopes (scopes.removeHandler scope id handler).1 :=
  (leaves_removeHandler scopes scope id handler).neutral fun _ _ component =>
    enrolled_removeHandler scopes scope id handler (hhandler component)

theorem minds_removeHandler (scopes : Scopes) (scope : ScopeId) (id : String)
    (hhandler : ∀ component, handler ≠ .trigger component)
    (houtside : ∀ child, handler ≠ .bridge child) :
    Minds scopes (scopes.removeHandler scope id handler).1 where
  toNeutral := neutral_removeHandler scopes scope id hhandler
  linked _ h := h.removeHandler scope id houtside

/-- Registering a component for an id. -/
theorem enrolled_addTrigger (scopes : Scopes) {place : ScopeId} (hlt : place < scopes.scopes.size)
    (added : String) (other : ComponentId) :
    (scopes.addHandler place added (.trigger other)).1.enrolled scope id component =
      if scope = place ∧ id = Unicode.lower added ∧ component = other then
        max 1 (scopes.enrolled scope id component)
      else scopes.enrolled scope id component := by
  change ((scopes.addLocalHandler place added (.trigger other)).1.bridge place added).enrolled
    scope id component = _
  rw [enrolled_bridge]
  split
  · next hplace =>
      obtain ⟨rfl, rfl, rfl⟩ := hplace
      have hthere : .trigger component ∈ (scopes.addLocalHandler scope added
          (.trigger component)).1.handlers scope (Unicode.lower added) :=
        mem_handlers_addLocalHandler.mpr (.inr ⟨hlt, rfl, rfl, rfl⟩)
      rcases handlers_addLocalHandler scopes scope added (.trigger component) scope
        (Unicode.lower added) with hsame | ⟨-, -, hnew, hmore⟩
      · have hcount := List.count_pos_iff.mpr hthere
        rw [hsame] at hcount
        rw [enrolled, hsame, enrolled]
        omega
      · rw [enrolled, hmore, List.count_append, List.count_singleton_self, enrolled,
          List.count_eq_zero.mpr hnew]
        rfl
  · next hplace =>
      rcases handlers_addLocalHandler scopes place added (.trigger other) scope id with
        hsame | ⟨hscope, hid, -, -⟩
      · exact enrolled_of_handlers hsame
      · exact enrolled_addLocalHandler scopes place added _ fun hsame =>
          hplace ⟨hscope, hid, (Handler.trigger.inj hsame).symm⟩

/-- Striking a component off. -/
theorem enrolled_removeTrigger (scopes : Scopes) (place : ScopeId) (removed : String)
    (other : ComponentId) :
    (scopes.removeHandler place removed (.trigger other)).1.enrolled scope id component =
      if scope = place ∧ id = Unicode.lower removed ∧ component = other then
        scopes.enrolled scope id component - 1
      else scopes.enrolled scope id component := by
  split
  · next hplace =>
      obtain ⟨rfl, rfl, rfl⟩ := hplace
      rw [enrolled, handlers_removeHandler, if_pos ⟨rfl, rfl⟩, List.count_erase_self, enrolled]
  · next hplace =>
      by_cases hother : component = other
      · rw [enrolled, handlers_removeHandler, if_neg, enrolled]
        rintro ⟨rfl, rfl⟩
        exact hplace ⟨rfl, rfl, hother⟩
      · exact enrolled_removeHandler scopes place removed _ fun hsame =>
          hother (Handler.trigger.inj hsame).symm

/-- Striking a component off for one id after another. -/
theorem enrolled_removeTriggers (names : List String) (place : ScopeId) (other : ComponentId)
    (hnames : ∀ name ∈ names, Unicode.lower name = name) (scopes : Scopes) :
    Leaves scopes (names.foldl
        (fun scopes name => (scopes.removeHandler place name (.trigger other)).1) scopes) ∧
      ∀ scope id component, (names.foldl
          (fun scopes name => (scopes.removeHandler place name (.trigger other)).1)
            scopes).enrolled scope id component =
        if scope = place ∧ component = other then
          scopes.enrolled scope id component - names.count id
        else scopes.enrolled scope id component := by
  induction names generalizing scopes with
  | nil => exact ⟨.refl scopes, fun scope id component => by simp⟩
  | cons first rest ih =>
      obtain ⟨hleaves, henrolled⟩ := ih (fun name hname => hnames name (List.mem_cons_of_mem _ hname))
        (scopes.removeHandler place first (.trigger other)).1
      refine ⟨(leaves_removeHandler scopes place first _).trans hleaves, fun scope id component => ?_⟩
      rw [List.foldl_cons, henrolled, enrolled_removeTrigger, hnames first List.mem_cons_self,
        List.count_cons]
      by_cases hplace : scope = place ∧ component = other
      · obtain ⟨rfl, rfl⟩ := hplace
        by_cases hid : id = first
        · simp [hid, Nat.sub_sub, Nat.add_comm]
        · simp [hid, Ne.symm hid]
      · rw [if_neg hplace, if_neg hplace, if_neg fun h => hplace ⟨h.1, h.2.2⟩]

/-! ## Waiting and disposing -/

theorem minds_wait (scopes : Scopes) (scope : ScopeId) (id : String) :
    Minds scopes (scopes.wait scope id).1 := by
  rw [wait]
  split
  · exact .refl scopes
  · have hpromised : Minds scopes
        { scopes with promises := scopes.promises.push { scope, id := Unicode.lower id } } :=
      minds_of_scopes rfl rfl
    have hlisted : ∀ waiting : Scopes, Minds waiting (waiting.modify scope fun cell =>
        { cell with waiters := cell.waiters ++ [(Unicode.lower id, scopes.promises.size)] }) :=
      fun waiting => minds_modify waiting scope (fun _ => rfl) (fun _ => rfl) (fun _ => rfl) fun _ => rfl
    exact (hpromised.trans (hlisted _)).trans (minds_bridge _ scope _)

theorem neutral_removeBridges (scopes : Scopes) (scope : ScopeId) :
    Neutral scopes (scopes.removeBridges scope) := by
  have hcut : Neutral scopes (scopes.modify scope fun cell => { cell with bridges := [] }) :=
    neutral_modify scopes scope (fun _ => rfl) (fun _ h => h) fun _ => rfl
  rw [removeBridges]
  split
  · next parent _ =>
      have hremoved : ∀ scopes id,
          Neutral scopes (scopes.removeHandler parent id (.bridge scope)).1 :=
        fun scopes id => neutral_removeHandler scopes parent id fun _ hsame => by cases hsame
      exact hcut.trans (.foldl hremoved _ _)
  · exact hcut

/-- A scope that is disposed is cleared and nobody cares. -/
theorem neutral_clear (h : scopes.isDisposed scope = true ∨ scopes.scopes.size ≤ scope) :
    Neutral scopes (scopes.clear scope) where
  toSameTree := sameTree_clear scopes scope
  disposed other hdisposed := (look_clear (fun _ => rfl) scopes scope other).trans hdisposed
  enrolled other id component hkept := by
    refine enrolled_of_handlers ?_
    rw [handlers_clear]
    split
    · next hscope =>
        obtain rfl := hscope
        rw [isDisposed, look_clear (fun _ => rfl)] at hkept
        rcases h with hdisposed | hge
        · exact absurd hdisposed (by rw [isDisposed, hkept]; exact Bool.false_ne_true)
        · rw [handlers, look_of_ge hge]
          rfl
    · rfl

/-- Disposing a scope takes its own handlers, and those that lead to it, which are bridges. -/
theorem minds_dispose (scopes : Scopes) (scope : ScopeId) : Minds scopes (scopes.dispose scope) := by
  refine ⟨?_, fun _ h => h.dispose scope⟩
  cases hdisposed : scopes.isDisposed scope with
  | true =>
      rw [dispose_of_disposed hdisposed]
      exact .refl scopes
  | false =>
      have hmarked : Neutral scopes (scopes.markDisposed scope) :=
        neutral_modify scopes scope (fun _ => rfl) (fun _ _ => rfl) fun _ => rfl
      have hcut := hmarked.trans (neutral_removeBridges _ scope)
      rw [dispose_of_kept hdisposed]
      refine hcut.trans (neutral_clear ?_)
      rcases Nat.lt_or_ge scope scopes.scopes.size with hlt | hge
      · refine .inl ((neutral_removeBridges _ scope).disposed scope ?_)
        obtain ⟨cell, hcell⟩ := get?_of_lt hlt
        rw [isDisposed, markDisposed, look_modify_self, look, hcell]
        rfl
      · exact .inr (hcut.size ▸ hge)

/-! ## Broadcasts -/

variable {cast : Cast}

theorem minds_put (scopes : Scopes) (scope : ScopeId) (source : Source) :
    Minds scopes (scopes.put scope source) :=
  minds_modify scopes scope (fun _ => rfl) (fun _ => rfl) (fun _ => rfl) fun _ => rfl

theorem minds_receiveBy (hcast : ∀ scopes scope source, Minds scopes (cast scopes scope source))
    (scopes : Scopes) (scope : ScopeId) (source : Source) :
    Minds scopes (receiveBy cast scopes scope source) := by
  rw [receiveBy]
  split
  · exact .refl scopes
  · have hinherited : Minds scopes (scopes.inherit scope source.id) := by
      rw [inherit]
      split
      · exact .refl scopes
      · exact minds_modify scopes scope (fun _ => rfl) (fun _ => rfl) (fun _ => rfl) fun _ => rfl
    exact (hinherited.trans (minds_put _ scope source)).trans (hcast _ scope source)

theorem minds_setBy (hcast : ∀ scopes scope source, Minds scopes (cast scopes scope source))
    (scopes : Scopes) (scope : ScopeId) (source : Source) :
    Minds scopes (setBy cast scopes scope source).1 := by
  have howned : Minds scopes (scopes.own scope source.id) :=
    minds_modify scopes scope (fun _ => rfl) (fun _ => rfl) (fun _ => rfl) fun _ => rfl
  exact (howned.trans (minds_put _ scope _)).trans (hcast _ scope _)

theorem minds_actBy (hcast : ∀ scopes scope source, Minds scopes (cast scopes scope source))
    (scopes : Scopes) (action : HandlerAction) : Minds scopes (actBy cast scopes action) := by
  cases action with
  | set scope id value =>
      rw [actBy]
      split
      · exact minds_setBy hcast scopes scope _
      · exact .refl scopes
  | wait scope id =>
      rw [actBy]
      split
      · exact minds_wait scopes scope id
      · exact .refl scopes
  | dispose scope =>
      rw [actBy]
      split
      · exact minds_dispose scopes scope
      · exact .refl scopes

theorem minds_callBy (hcast : ∀ scopes scope source, Minds scopes (cast scopes scope source))
    (source : Source) (scopes : Scopes) (handler : Handler) :
    Minds scopes (callBy cast source scopes handler) := by
  cases handler with
  | host number =>
      have hdelivered : Minds scopes (scopes.deliver (.handled number source)) :=
        minds_of_scopes rfl rfl
      rw [callBy, callHostBy]
      split
      · have hcalled : Minds (scopes.deliver (.handled number source))
            { scopes.deliver (.handled number source) with
              hosts := (scopes.deliver (.handled number source)).hosts.modify number fun host =>
                { host with called := true } } := minds_of_scopes rfl rfl
        exact (hdelivered.trans hcalled).trans (.foldl (minds_actBy hcast) _ _)
      · exact hdelivered
  | bridge child =>
      rw [callBy]
      split
      · exact minds_receiveBy hcast scopes child source
      · exact .refl scopes
  | trigger component => exact minds_of_scopes rfl rfl

theorem minds_broadcast (depth : Nat) (scopes : Scopes) (scope : ScopeId) (source : Source) :
    Minds scopes (broadcast depth scopes scope source) := by
  induction depth generalizing scopes scope source with
  | zero => exact .refl scopes
  | succ depth ih =>
      have htaken : Minds scopes (scopes.takeWaiters scope source.id) :=
        minds_modify scopes scope (fun _ => rfl) (fun _ => rfl) (fun _ => rfl) fun _ => rfl
      have hserved : ∀ scopes : Scopes, ∀ promise : PromiseId,
          Minds scopes (scopes.resolve (.fulfilled source) promise) :=
        fun scopes promise => minds_of_scopes rfl rfl
      rw [broadcast]
      exact (htaken.trans (.foldl (minds_callBy ih source) _ _)).trans (.foldl hserved _ _)

theorem minds_announce (scopes : Scopes) (scope : ScopeId) (source : Source) :
    Minds scopes (announce scopes scope source) :=
  minds_broadcast scopes.castDepth scopes scope source

theorem minds_set (scopes : Scopes) (scope : ScopeId) (source : Source) :
    Minds scopes (scopes.set scope source).1 := minds_setBy minds_announce scopes scope source

theorem minds_receive (scopes : Scopes) (scope : ScopeId) (source : Source) :
    Minds scopes (scopes.receive scope source) := minds_receiveBy minds_announce scopes scope source

theorem minds_putAndAnnounce (scopes : Scopes) (scope : ScopeId) (source : Source) :
    Minds scopes (scopes.putAndAnnounce scope source) :=
  (minds_put scopes scope source).trans (minds_announce _ scope source)

/-! ## Holds and new scopes -/

/-- Every parent comes before its children, and only scopes that exist are held. -/
structure Standing (scopes : Scopes) : Prop where
  ordered : scopes.Ordered
  held : ∀ held ∈ scopes.held, held < scopes.scopes.size

/-- What may become of scopes in the course of time: some are new, none come back to life and none are
disposed no more. -/
structure Ages (before after : Scopes) : Prop where
  size : before.scopes.size ≤ after.scopes.size
  parent : ∀ scope < before.scopes.size, after.parent? scope = before.parent? scope
  standing : before.Standing → after.Standing
  alive : before.Standing → ∀ scope < before.scopes.size,
    after.isAlive scope = true → before.isAlive scope = true
  disposed : ∀ scope, before.isDisposed scope = true → after.isDisposed scope = true

/-- What may become of scopes if it is not for components. -/
structure Heeds (before after : Scopes) : Prop extends Ages before after where
  enrolled : ∀ scope id component, after.isDisposed scope = false →
    after.enrolled scope id component = before.enrolled scope id component
  linked : before.Ordered → before.Linked → after.Linked

theorem SameTree.standing (h : SameTree before after) (hstanding : before.Standing) :
    after.Standing where
  ordered := h.ordered hstanding.ordered
  held := by
    rw [h.held, h.size]
    exact hstanding.held

theorem Minds.heeds (h : Minds before after) : Heeds before after where
  size := Nat.le_of_eq h.size.symm
  parent scope _ := h.parent scope
  standing := h.toSameTree.standing
  alive _ scope _ halive := by rwa [h.isAlive] at halive
  disposed := h.disposed
  enrolled := h.enrolled
  linked := h.linked

/-- Nobody can take a hold on a scope that is dead. -/
theorem heeds_hold (halive : scopes.isAlive scope = true) : Heeds scopes (scopes.hold scope) where
  size := Nat.le_refl _
  parent _ _ := rfl
  standing h := by
    refine ⟨h.ordered, fun held hmem => ?_⟩
    rcases List.mem_cons.mp hmem with rfl | hmem
    · exact h.ordered.lt_size_of_isAlive h.held halive
    · exact h.held held hmem
  alive h _ _ := (h.ordered.isAlive_hold halive).mp
  disposed _ h := h
  enrolled _ _ _ _ := rfl
  linked _ h := h.congr (fun _ => rfl) (fun _ hgone => hgone) (fun _ _ => rfl) fun _ _ => rfl

theorem heeds_release (scopes : Scopes) (scope : ScopeId) : Heeds scopes (scopes.release scope) where
  size := Nat.le_refl _
  parent _ _ := rfl
  standing h := ⟨h.ordered, fun held hmem => h.held held (List.mem_of_mem_erase hmem)⟩
  alive _ _ _ := isAlive_of_release
  disposed _ h := h
  enrolled _ _ _ _ := rfl
  linked _ h := h.congr (fun _ => rfl) (fun _ hgone => hgone) (fun _ _ => rfl) fun _ _ => rfl

/-- A new scope lives below one that does, and nobody is enrolled in it. -/
theorem heeds_grow {parent : ScopeId} (halive : scopes.isAlive parent = true) (settings : Fields) :
    Heeds scopes (scopes.grow (some parent) settings) where
  size := by
    rw [size_grow]
    exact Nat.le_succ _
  parent scope hlt := by rw [parent?_grow, if_neg (Nat.ne_of_lt hlt)]
  standing h := by
    refine ⟨h.ordered.grow (h.ordered.lt_size_of_isAlive h.held halive), fun held hmem => ?_⟩
    rw [size_grow]
    rcases List.mem_cons.mp hmem with rfl | hmem
    · exact Nat.lt_succ_self _
    · exact Nat.lt_succ_of_lt (h.held held hmem)
  alive h other hlt hother :=
    ((h.ordered.isAlive_grow h.held halive).mp hother).resolve_left (Nat.ne_of_lt hlt)
  disposed other h := (look_grow_of_blank (f := Scope.disposed) rfl other).trans h
  enrolled _ _ _ _ := enrolled_of_handlers (handlers_grow ..)
  linked hordered h := h.grow hordered (some parent) settings

end ReactiveMarkup.Scopes
