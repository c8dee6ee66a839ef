import Mathlib.Data.List.Chain
import ReactiveMarkup.Proofs.Scope.Listeners

/-!
# What operations of scopes leave alone

Storing, registering and setting up bridges do not touch the tree, the holds on it or the waits in it.
Bridges are set up one after another along a lineage, so what one of them does is what all of them do:
`bridge_connects` takes a set-up apart, and each of the facts on it is then an induction with one case.
Disposing a scope goes the other way. It takes the handlers, waits and bridges of the scope away and
touches no other scope, but for the far ends of the bridges.
-/

namespace ReactiveMarkup.Scopes

open Relation

variable {scopes before middle after : Scopes} {scope other parent : ScopeId} {id name : String}
  {handler : Handler} {promise : PromiseId}

/-- A change that leaves the value it is made to as it is, changes nothing. -/
theorem modify_eq_self {α : Type} {arena : Arena α} {index : Nat} {f : α → α}
    (h : ∀ value, arena.get? index = some value → f value = value) : arena.modify index f = arena := by
  refine congrArg Arena.mk (Array.ext_getElem? fun other => ?_)
  rw [Array.getElem?_modify]
  split
  · next hindex =>
      subst hindex
      cases hvalue : arena.cells[index]? with
      | none => rfl
      | some value => exact congrArg some (h value hvalue)
  · rfl

/-- The tree and the holds on it are as they were. -/
structure SameTree (before after : Scopes) : Prop where
  size : after.scopes.size = before.scopes.size
  parent : ∀ scope, after.parent? scope = before.parent? scope
  held : after.held = before.held

theorem SameTree.trans (h : SameTree before middle) (h' : SameTree middle after) :
    SameTree before after :=
  ⟨h'.size.trans h.size, fun scope => (h'.parent scope).trans (h.parent scope),
    h'.held.trans h.held⟩

theorem sameTree_modify (scopes : Scopes) {f : Scope → Scope}
    (hparent : ∀ cell, (f cell).parent = cell.parent) : SameTree scopes (scopes.modify scope f) :=
  ⟨size_modify f, fun _ => parent?_modify hparent, rfl⟩

theorem SameTree.lineage (h : SameTree before after) (scope : ScopeId) :
    after.lineage scope = before.lineage scope := lineageTo_congr h.parent _ _

theorem SameTree.isAlive (h : SameTree before after) (scope : ScopeId) :
    after.isAlive scope = before.isAlive scope := by
  simp only [Scopes.isAlive, h.held, h.lineage]

/-- The tree, the holds on it and the waits in it are as they were. -/
structure Leaves (before after : Scopes) : Prop extends SameTree before after where
  disposed : ∀ scope, after.isDisposed scope = before.isDisposed scope
  waiters : ∀ scope, after.look scope [] Scope.waiters = before.look scope [] Scope.waiters
  promises : after.promises = before.promises

theorem Leaves.refl (scopes : Scopes) : Leaves scopes scopes :=
  ⟨⟨rfl, fun _ => rfl, rfl⟩, fun _ => rfl, fun _ => rfl, rfl⟩

theorem Leaves.trans (h : Leaves before middle) (h' : Leaves middle after) : Leaves before after where
  toSameTree := h.toSameTree.trans h'.toSameTree
  disposed scope := (h'.disposed scope).trans (h.disposed scope)
  waiters scope := (h'.waiters scope).trans (h.waiters scope)
  promises := h'.promises.trans h.promises

theorem leaves_modify (scopes : Scopes) {f : Scope → Scope}
    (hparent : ∀ cell, (f cell).parent = cell.parent)
    (hdisposed : ∀ cell, (f cell).disposed = cell.disposed)
    (hwaiters : ∀ cell, (f cell).waiters = cell.waiters) :
    Leaves scopes (scopes.modify scope f) where
  toSameTree := sameTree_modify scopes hparent
  disposed _ := look_modify scopes hdisposed
  waiters _ := look_modify scopes hwaiters
  promises := rfl

/-- Changes outside of the scopes themselves are seen by none of them. -/
theorem look_of_scopes {α : Type} {default : α} {f : Scope → α} (h : after.scopes = before.scopes)
    (scope : ScopeId) : after.look scope default f = before.look scope default f := by
  rw [look, look, h]

theorem Leaves.of_scopes (hscopes : after.scopes = before.scopes) (hheld : after.held = before.held)
    (hpromises : after.promises = before.promises) : Leaves before after :=
  ⟨⟨by rw [hscopes], fun _ => look_of_scopes hscopes _, hheld⟩, fun _ => look_of_scopes hscopes _,
    fun _ => look_of_scopes hscopes _, hpromises⟩

theorem Leaves.waiters_eq (h : Leaves before after) (scope : ScopeId) (id : String) :
    after.waiters scope id = before.waiters scope id := by
  rw [Scopes.waiters, h.waiters, Scopes.waiters]

theorem leaves_put (scopes : Scopes) (scope : ScopeId) (source : Source) :
    Leaves scopes (scopes.put scope source) :=
  leaves_modify scopes (fun _ => rfl) (fun _ => rfl) fun _ => rfl

theorem leaves_own (scopes : Scopes) (scope : ScopeId) (id : String) :
    Leaves scopes (scopes.own scope id) :=
  leaves_modify scopes (fun _ => rfl) (fun _ => rfl) fun _ => rfl

theorem leaves_inherit (scopes : Scopes) (scope : ScopeId) (id : String) :
    Leaves scopes (scopes.inherit scope id) := by
  rw [inherit]
  split
  · exact .refl scopes
  · exact leaves_modify scopes (fun _ => rfl) (fun _ => rfl) fun _ => rfl

theorem leaves_addLocalHandler (scopes : Scopes) (scope : ScopeId) (id : String) (handler : Handler) :
    Leaves scopes (scopes.addLocalHandler scope id handler).1 := by
  rw [addLocalHandler]
  split
  · exact .refl scopes
  · exact leaves_modify scopes (fun _ => rfl) (fun _ => rfl) fun _ => rfl

theorem leaves_removeHandler (scopes : Scopes) (scope : ScopeId) (id : String) (handler : Handler) :
    Leaves scopes (scopes.removeHandler scope id handler).1 := by
  rw [removeHandler]
  split
  · exact leaves_modify scopes (fun _ => rfl) (fun _ => rfl) fun _ => rfl
  · exact .refl scopes

/-! ## Setting bridges up -/

/-- One bridge is set up from a scope of a lineage to its parent. -/
def Connects (id : String) (lineage : List ScopeId) (before after : Scopes) : Prop :=
  ∃ below ∈ lineage, ∃ parent, before.parent? below = some parent ∧
    after = before.connect id below parent

theorem leaves_connect (scopes : Scopes) (id : String) (scope parent : ScopeId) :
    Leaves scopes (scopes.connect id scope parent) := by
  have hmarked : Leaves scopes (scopes.modify scope fun cell =>
      { cell with bridges := id :: cell.bridges }) :=
    leaves_modify scopes (fun _ => rfl) (fun _ => rfl) fun _ => rfl
  exact hmarked.trans (leaves_addLocalHandler _ parent id (.bridge scope))

theorem isChain_lineageTo (scopes : Scopes) (height : Nat) (scope : ScopeId) :
    (scopes.lineageTo height scope).IsChain fun below parent =>
      scopes.parent? below = some parent := by
  induction height generalizing scope with
  | zero => exact .nil
  | succ height ih =>
      rw [lineageTo]
      cases hparent : scopes.parent? scope with
      | none => exact .singleton scope
      | some parent =>
          dsimp only
          have hrest := ih parent
          cases height with
          | zero => exact .singleton scope
          | succ height =>
              rw [lineageTo] at hrest ⊢
              exact List.isChain_cons_cons.mpr ⟨hparent, hrest⟩

theorem bridgeAlong_connects (id : String) (lineage : List ScopeId) (scopes : Scopes)
    (hchain : lineage.IsChain fun below parent => scopes.parent? below = some parent) :
    ReflTransGen (Connects id lineage) scopes (bridgeAlong id lineage scopes) := by
  induction lineage generalizing scopes with
  | nil => exact .refl
  | cons scope above ih =>
      cases above with
      | nil => exact .refl
      | cons parent above =>
          rw [List.isChain_cons_cons] at hchain
          obtain ⟨hparent, hrest⟩ := hchain
          rw [bridgeAlong]
          split
          · exact .refl
          · have hup := ih (scopes.connect id scope parent)
              (hrest.imp fun below higher habove => by
                rwa [(leaves_connect scopes id scope parent).parent])
            have hmore : ∀ first second, Connects id (parent :: above) first second →
                Connects id (scope :: parent :: above) first second := by
              rintro first second ⟨below, hbelow, hhigher⟩
              exact ⟨below, List.mem_cons_of_mem _ hbelow, hhigher⟩
            exact .head ⟨scope, List.mem_cons_self, parent, hparent, rfl⟩
              (ReflTransGen.mono hmore _ _ hup)

theorem bridge_connects (scopes : Scopes) (scope : ScopeId) (id : String) :
    ReflTransGen (Connects (Unicode.lower id) (scopes.lineage scope)) scopes
      (scopes.bridge scope id) :=
  bridgeAlong_connects _ _ scopes (isChain_lineageTo scopes (scope + 1) scope)

theorem leaves_bridge (scopes : Scopes) (scope : ScopeId) (id : String) :
    Leaves scopes (scopes.bridge scope id) := by
  have hsteps := bridge_connects scopes scope id
  generalize scopes.bridge scope id = after at hsteps ⊢
  induction hsteps with
  | refl => exact .refl scopes
  | tail _ hstep ih =>
      obtain ⟨below, -, parent, -, rfl⟩ := hstep
      exact ih.trans (leaves_connect _ _ _ _)

theorem leaves_addHandler (scopes : Scopes) (scope : ScopeId) (id : String) (handler : Handler) :
    Leaves scopes (scopes.addHandler scope id handler).1 :=
  (leaves_addLocalHandler scopes scope id handler).trans (leaves_bridge _ scope id)

/-! ## Where bridges lead -/

/-- Every bridge is registered once, in the parent of the scope it leads to, which knows of it. Unlike
where nothing is disposed, a scope may believe in a bridge that its parent has dropped. -/
structure Backed (scopes : Scopes) : Prop where
  back : ∀ parent id child, .bridge child ∈ scopes.handlers parent id →
    scopes.parent? child = some parent ∧ scopes.hasBridge child id = true
  once : ∀ scope id, (scopes.handlers scope id).Nodup
  small : ∀ scope id, scopes.hasBridge scope id = true → Unicode.lower id = id

theorem Backed.congr (h : Backed before)
    (hparent : ∀ scope, after.parent? scope = before.parent? scope)
    (hbridges : ∀ scope id, after.hasBridge scope id = before.hasBridge scope id)
    (hhandlers : ∀ scope id, after.handlers scope id = before.handlers scope id) : Backed after where
  back parent id child hmem := by
    rw [hhandlers] at hmem
    rw [hparent, hbridges]
    exact h.back parent id child hmem
  once scope id := by
    rw [hhandlers]
    exact h.once scope id
  small scope id hbridge := by
    rw [hbridges] at hbridge
    exact h.small scope id hbridge

theorem Backed.addLocalHandler (h : Backed scopes)
    (hhandler : ∀ child, handler = .bridge child →
      scopes.parent? child = some scope ∧ scopes.hasBridge child (Unicode.lower id) = true) :
    Backed (scopes.addLocalHandler scope id handler).1 where
  back parent name child hmem := by
    rw [(leaves_addLocalHandler scopes scope id handler).parent, hasBridge_addLocalHandler]
    rcases mem_handlers_addLocalHandler.mp hmem with hold | ⟨-, rfl, rfl, hsame⟩
    · exact h.back parent name child hold
    · exact hhandler child hsame.symm
  once other name := nodup_handlers_addLocalHandler (h.once other name)
  small other name hbridge := by
    rw [hasBridge_addLocalHandler] at hbridge
    exact h.small other name hbridge

theorem Backed.connect (h : Backed scopes) (hparent : scopes.parent? scope = some parent)
    (hid : Unicode.lower id = id) : Backed (scopes.connect id scope parent) where
  back above name child hmem := by
    rw [(leaves_connect scopes id scope parent).parent, hasBridge_connect hparent]
    have hmarked : ∀ other name, (scopes.modify scope fun cell =>
        { cell with bridges := id :: cell.bridges }).handlers other name =
          scopes.handlers other name := fun _ _ => handlers_modify fun _ => rfl
    rcases mem_handlers_addLocalHandler.mp hmem with hold | ⟨-, rfl, rfl, hsame⟩
    · rw [hmarked] at hold
      obtain ⟨habove, hbridge⟩ := h.back above name child hold
      exact ⟨habove, .inl hbridge⟩
    · obtain rfl := Handler.bridge.inj hsame
      exact ⟨hparent, .inr ⟨rfl, hid⟩⟩
  once other name := (tells_connect scopes id scope parent).once other name (h.once other name)
  small other name hbridge := by
    rcases (hasBridge_connect hparent other).mp hbridge with hold | ⟨-, rfl⟩
    · exact h.small other name hold
    · exact hid

theorem Backed.bridge (h : Backed scopes) (scope : ScopeId) (id : String) :
    Backed (scopes.bridge scope id) := by
  have hsteps := bridge_connects scopes scope id
  generalize scopes.bridge scope id = after at hsteps ⊢
  induction hsteps with
  | refl => exact h
  | tail _ hstep ih =>
      obtain ⟨below, -, parent, hparent, rfl⟩ := hstep
      exact ih.connect hparent (Unicode.lower_lower id)

theorem Backed.addHandler (h : Backed scopes) (hhandler : ∀ child, handler ≠ .bridge child) :
    Backed (scopes.addHandler scope id handler).1 :=
  (h.addLocalHandler fun child hsame => absurd hsame (hhandler child)).bridge scope id

/-! ## Taking handlers away -/

theorem map_filter_erase (entries : List (String × Handler)) (id name : String) (handler : Handler) :
    ((entries.erase (id, handler)).filter (·.1 == name)).map Prod.snd =
      if id = name then ((entries.filter (·.1 == name)).map Prod.snd).erase handler
      else (entries.filter (·.1 == name)).map Prod.snd := by
  induction entries with
  | nil => simp
  | cons entry rest ih =>
      obtain ⟨first, other⟩ := entry
      by_cases hentry : (first, other) = (id, handler)
      · obtain ⟨rfl, rfl⟩ := Prod.mk.inj hentry
        by_cases hname : first = name
        · simp [hname]
        · simp [hname]
      · rw [List.erase_cons_tail (by simpa using hentry)]
        by_cases hfirst : first = name
        · subst hfirst
          by_cases hid : id = first
          · subst hid
            have hother : other ≠ handler := fun hsame => hentry (by rw [hsame])
            simp only [if_true] at ih
            simp [ih, List.erase_cons_tail, hother]
          · simpa [hid] using ih
        · simpa [hfirst] using ih

theorem handlers_removeHandler (scopes : Scopes) (scope : ScopeId) (id : String) (removed : Handler)
    (other : ScopeId) (name : String) :
    (scopes.removeHandler scope id removed).1.handlers other name =
      if scope = other ∧ Unicode.lower id = name then (scopes.handlers other name).erase removed
      else scopes.handlers other name := by
  rw [removeHandler]
  split
  · by_cases hscope : scope = other
    · obtain rfl := hscope
      rw [handlers, look_modify_self, handlers, look, look]
      cases scopes.scopes.get? scope with
      | none => simp
      | some cell => simp only [Function.comp_apply, map_filter_erase, true_and]
    · rw [handlers, look_modify_of_ne scopes hscope, handlers, if_neg fun h => hscope h.1]
  · next habsent =>
      split
      · next hplace =>
          obtain ⟨rfl, rfl⟩ := hplace
          refine (List.erase_of_not_mem fun hmem => habsent ?_).symm
          exact List.contains_iff_mem.mpr hmem
      · rfl

theorem Backed.removeHandler (h : Backed scopes) (scope : ScopeId) (id : String)
    (handler : Handler) : Backed (scopes.removeHandler scope id handler).1 where
  back parent name child hmem := by
    rw [(leaves_removeHandler scopes scope id handler).parent, hasBridge_removeHandler]
    exact h.back parent name child (mem_handlers_of_removeHandler hmem)
  once other name :=
    (handlers_removeHandler_sublist scopes scope id handler other name).nodup (h.once other name)
  small other name hbridge := by
    rw [hasBridge_removeHandler] at hbridge
    exact h.small other name hbridge

/-! ## Waiting -/

theorem wait_of_disposed (h : scopes.isDisposed scope = true) (id : String) :
    scopes.wait scope id = (scopes, none) := if_pos h

/-- The scopes with a new promise, of which its scope knows. -/
def awaiting (scopes : Scopes) (scope : ScopeId) (id : String) : Scopes :=
  { scopes with promises := scopes.promises.push { scope, id } }.modify scope fun cell =>
    { cell with waiters := cell.waiters ++ [(id, scopes.promises.size)] }

theorem wait_of_kept (h : scopes.isDisposed scope = false) (id : String) :
    scopes.wait scope id =
      ((scopes.awaiting scope (Unicode.lower id)).bridge scope (Unicode.lower id),
        some scopes.promises.size) :=
  if_neg (by rw [h]; exact Bool.false_ne_true)

theorem waiters_awaiting (hlt : scope < scopes.scopes.size) (other : ScopeId) (name : String) :
    (scopes.awaiting scope id).waiters other name =
      if scope = other ∧ id = name then scopes.waiters other name ++ [scopes.promises.size]
      else scopes.waiters other name := by
  have hsame : ∀ {α : Type} (default : α) (f : Scope → α), Scopes.look
      { scopes with promises := scopes.promises.push { scope, id } } other default f =
        scopes.look other default f := fun _ _ => rfl
  by_cases hscope : scope = other
  · obtain rfl := hscope
    obtain ⟨cell, hcell⟩ := get?_of_lt hlt
    rw [waiters, awaiting, look_modify_self, waiters, hsame, look, look, hcell]
    by_cases hid : id = name
    · obtain rfl := hid
      simp
    · have hne : (id == name) = false := beq_false_of_ne hid
      simp [hid, hne]
  · rw [waiters, awaiting, look_modify_of_ne _ hscope, hsame, waiters, if_neg fun h => hscope h.1]

theorem handlers_awaiting (scope : ScopeId) (id : String) (other : ScopeId) (name : String) :
    (scopes.awaiting scope id).handlers other name = scopes.handlers other name := by
  have hlisted : (scopes.awaiting scope id).handlers other name = Scopes.handlers
      { scopes with promises := scopes.promises.push { scope, id } } other name :=
    handlers_modify fun _ => rfl
  rw [hlisted]
  rfl

theorem sameTree_awaiting (scopes : Scopes) (scope : ScopeId) (id : String) :
    SameTree scopes (scopes.awaiting scope id) := by
  have hlisted : SameTree { scopes with promises := scopes.promises.push { scope, id } }
      (scopes.awaiting scope id) := sameTree_modify _ fun _ => rfl
  exact ⟨hlisted.size, hlisted.parent, hlisted.held⟩

theorem hasBridge_awaiting (scope : ScopeId) (id : String) (other : ScopeId) (name : String) :
    (scopes.awaiting scope id).hasBridge other name = scopes.hasBridge other name := by
  have hlisted : (scopes.awaiting scope id).hasBridge other name = Scopes.hasBridge
      { scopes with promises := scopes.promises.push { scope, id } } other name :=
    hasBridge_modify fun _ => rfl
  rw [hlisted]
  rfl

theorem sameTree_wait (scopes : Scopes) (scope : ScopeId) (id : String) :
    SameTree scopes (scopes.wait scope id).1 := by
  cases hdisposed : scopes.isDisposed scope with
  | true =>
      rw [wait_of_disposed hdisposed]
      exact (Leaves.refl scopes).toSameTree
  | false =>
      rw [wait_of_kept hdisposed]
      exact (sameTree_awaiting scopes scope _).trans (leaves_bridge _ scope _).toSameTree

theorem isDisposed_wait (scopes : Scopes) (scope : ScopeId) (id : String) (other : ScopeId) :
    (scopes.wait scope id).1.isDisposed other = scopes.isDisposed other := by
  cases hdisposed : scopes.isDisposed scope with
  | true => rw [wait_of_disposed hdisposed]
  | false =>
      rw [wait_of_kept hdisposed]
      refine ((leaves_bridge _ scope _).disposed other).trans ?_
      have hlisted : (scopes.awaiting scope (Unicode.lower id)).isDisposed other =
          { scopes with promises := scopes.promises.push { scope, id := Unicode.lower id } }.isDisposed
            other := look_modify _ fun _ => rfl
      exact hlisted

theorem Backed.wait (h : Backed scopes) (scope : ScopeId) (id : String) :
    Backed (scopes.wait scope id).1 := by
  cases hdisposed : scopes.isDisposed scope with
  | true =>
      rw [wait_of_disposed hdisposed]
      exact h
  | false =>
      rw [wait_of_kept hdisposed]
      exact (h.congr (sameTree_awaiting scopes scope _).parent (hasBridge_awaiting scope _)
        (handlers_awaiting scope _)).bridge scope _

/-! ## Taking and serving waits -/

theorem waiters_takeWaiters (scopes : Scopes) (scope : ScopeId) (id : String) (other : ScopeId)
    (name : String) : (scopes.takeWaiters scope id).waiters other name =
      if scope = other ∧ id = name then [] else scopes.waiters other name := by
  by_cases hscope : scope = other
  · obtain rfl := hscope
    rw [waiters, takeWaiters, look_modify_self, waiters, look, look]
    cases scopes.scopes.get? scope with
    | none => simp
    | some cell =>
        by_cases hid : id = name
        · obtain rfl := hid
          simp [List.filter_filter]
        · have hkept : ∀ entry : String × PromiseId,
              (entry.1 == name && entry.1 != id) = (entry.1 == name) := by
            intro entry
            by_cases hname : entry.1 = name
            · simp [hname, Ne.symm hid]
            · simp [hname]
          simp [hid, List.filter_filter, hkept]
  · rw [waiters, takeWaiters, look_modify_of_ne _ hscope, waiters, if_neg fun h => hscope h.1]

theorem promises_resolveAll (state : PromiseState) (promises : List PromiseId) (scopes : Scopes)
    (promise : PromiseId) :
    (promises.foldl (fun scopes promise => scopes.resolve state promise) scopes).promises.get?
        promise =
      (scopes.promises.get? promise).map fun cell =>
        match cell.state with
        | .pending => if promise ∈ promises then { cell with state } else cell
        | _ => cell := by
  induction promises generalizing scopes with
  | nil =>
      simp only [List.foldl_nil, List.not_mem_nil, if_false]
      cases scopes.promises.get? promise with
      | none => rfl
      | some cell => cases hstate : cell.state <;> simp [hstate]
  | cons first rest ih =>
      rw [List.foldl_cons, ih, resolve]
      dsimp only
      rw [Arena.get?_modify]
      cases hcell : scopes.promises.get? promise with
      | none => simp
      | some cell =>
          by_cases hfirst : first = promise
          · obtain rfl := hfirst
            rw [if_pos rfl]
            cases hstate : cell.state <;> cases state <;> simp [hstate]
          · have hne : promise ≠ first := Ne.symm hfirst
            rw [if_neg hfirst]
            simp [hne]

/-- Ending waits is seen in their promises only. -/
theorem resolveAll_eq (state : PromiseState) (promises : List PromiseId) (scopes : Scopes) :
    promises.foldl (fun scopes promise => scopes.resolve state promise) scopes =
      { scopes with promises :=
          (promises.foldl (fun scopes promise => scopes.resolve state promise) scopes).promises } := by
  induction promises generalizing scopes with
  | nil => rfl
  | cons first rest ih =>
      rw [List.foldl_cons, ih]
      rfl

/-! ## Clearing and disposing -/

section

variable {α : Type} {default : α} {f : Scope → α}

/-- What clearing a scope does is seen in its handlers and waits, and in promises. -/
theorem look_clear (hf : ∀ cell : Scope, f { cell with handlers := [], waiters := [] } = f cell)
    (scopes : Scopes) (scope other : ScopeId) :
    (scopes.clear scope).look other default f = scopes.look other default f := by
  rw [clear, look_modify _ hf, resolveAll_eq]
  rfl

theorem look_clear_of_ne (scopes : Scopes) (h : scope ≠ other) :
    (scopes.clear scope).look other default f = scopes.look other default f := by
  rw [clear, look_modify_of_ne _ h, resolveAll_eq]
  rfl

theorem look_clear_self (hf : ∀ cell : Scope, f { cell with handlers := [], waiters := [] } = default)
    (scopes : Scopes) (scope : ScopeId) : (scopes.clear scope).look scope default f = default := by
  rw [clear, look_modify_self, look]
  split
  · exact hf _
  · rfl

end

theorem sameTree_clear (scopes : Scopes) (scope : ScopeId) :
    SameTree scopes (scopes.clear scope) := by
  refine ⟨?_, fun other => look_clear (fun _ => rfl) scopes scope other, ?_⟩
  · rw [clear, size_modify, resolveAll_eq]
  · rw [clear, modify]
    dsimp only
    rw [resolveAll_eq]

theorem handlers_clear (scopes : Scopes) (scope other : ScopeId) (id : String) :
    (scopes.clear scope).handlers other id = if scope = other then [] else scopes.handlers other id := by
  split
  · next hscope =>
      rw [handlers, hscope, look_clear_self fun _ => rfl]
      rfl
  · next hscope => rw [handlers, look_clear_of_ne scopes hscope, handlers]

theorem waiters_clear (scopes : Scopes) (scope other : ScopeId) (id : String) :
    (scopes.clear scope).waiters other id = if scope = other then [] else scopes.waiters other id := by
  split
  · next hscope =>
      rw [waiters, hscope, look_clear_self fun _ => rfl]
      rfl
  · next hscope => rw [waiters, look_clear_of_ne scopes hscope, waiters]

theorem hasBridge_clear (scopes : Scopes) (scope other : ScopeId) (id : String) :
    (scopes.clear scope).hasBridge other id = scopes.hasBridge other id := by
  rw [hasBridge, look_clear (fun _ => rfl), hasBridge]

theorem promises_clear (scopes : Scopes) (scope : ScopeId) (promise : PromiseId) :
    (scopes.clear scope).promises.get? promise =
      (scopes.promises.get? promise).map fun cell =>
        match cell.state with
        | .pending =>
          if promise ∈ (scopes.look scope [] Scope.waiters).map Prod.snd then
            { cell with state := .cancelled }
          else cell
        | _ => cell :=
  promises_resolveAll .cancelled _ scopes promise

theorem Backed.clear (h : Backed scopes) (scope : ScopeId) : Backed (scopes.clear scope) where
  back parent id child hmem := by
    rw [(sameTree_clear scopes scope).parent, hasBridge_clear]
    rw [handlers_clear] at hmem
    split at hmem
    · cases hmem
    · exact h.back parent id child hmem
  once other id := by
    rw [handlers_clear]
    split
    · exact List.nodup_nil
    · exact h.once other id
  small other id hbridge := by
    rw [hasBridge_clear] at hbridge
    exact h.small other id hbridge

/-- Removing a handler for several ids. -/
theorem removeAll_spec (ids : List String) (parent : ScopeId) (removed : Handler)
    (hids : ∀ id ∈ ids, Unicode.lower id = id)
    (honce : ∀ scope id, (scopes.handlers scope id).Nodup)
    (hafter : after = ids.foldl (fun scopes id => (scopes.removeHandler parent id removed).1) scopes) :
    Leaves scopes after ∧ (∀ other name, (after.handlers other name).Nodup) ∧
      (∀ other name, after.hasBridge other name = scopes.hasBridge other name) ∧
      ∀ other name handler, handler ∈ after.handlers other name ↔
        handler ∈ scopes.handlers other name ∧ ¬(parent = other ∧ name ∈ ids ∧ handler = removed) := by
  induction ids generalizing scopes with
  | nil =>
      rw [List.foldl_nil] at hafter
      subst hafter
      exact ⟨.refl after, honce, fun _ _ => rfl, by simp⟩
  | cons first rest ih =>
      have hfirst : Unicode.lower first = first := hids first List.mem_cons_self
      obtain ⟨hleaves, hnodup, hbridges, hmem⟩ := ih
        (fun id hid => hids id (List.mem_cons_of_mem _ hid))
        (fun other name => (handlers_removeHandler_sublist scopes parent first removed other
          name).nodup (honce other name)) hafter
      refine ⟨(leaves_removeHandler scopes parent first removed).trans hleaves, hnodup, ?_, ?_⟩
      · intro other name
        rw [hbridges, hasBridge_removeHandler]
      · intro other name handler
        rw [hmem, handlers_removeHandler, hfirst]
        split
        · next hplace =>
            obtain ⟨rfl, rfl⟩ := hplace
            rw [(honce parent first).mem_erase_iff]
            simp only [List.mem_cons, true_and]
            tauto
        · next hplace =>
            simp only [List.mem_cons]
            tauto

theorem hasBridge_forgetBridges (scopes : Scopes) (scope other : ScopeId) (name : String) :
    (scopes.modify scope fun cell => { cell with bridges := [] }).hasBridge other name =
      (decide (scope ≠ other) && scopes.hasBridge other name) := by
  by_cases hscope : scope = other
  · subst hscope
    rw [hasBridge, look_modify_self, look]
    cases scopes.scopes.get? scope <;> simp
  · rw [hasBridge, look_modify_of_ne scopes hscope, hasBridge]
    simp [hscope]

/-- Bridges are backed after all of one scope are gone, on both ends. -/
theorem Backed.unlinked (h : Backed scopes) (hleaves : Leaves scopes after)
    (honce : ∀ other name, (after.handlers other name).Nodup)
    (hbridges : ∀ other name, after.hasBridge other name =
      (decide (scope ≠ other) && scopes.hasBridge other name))
    (hmem : ∀ other name handler, handler ∈ after.handlers other name ↔
      handler ∈ scopes.handlers other name ∧ handler ≠ .bridge scope) : Backed after where
  back parent name child hchild := by
    obtain ⟨hold, hne⟩ := (hmem _ _ _).mp hchild
    have hother : scope ≠ child := fun hscope => hne (by rw [hscope])
    rw [hleaves.parent, hbridges]
    simpa [hother] using h.back parent name child hold
  once := honce
  small other name hbridge := by
    rw [hbridges] at hbridge
    exact h.small other name (Bool.and_eq_true_iff.mp hbridge).2

/-- A scope that takes its bridges from its parent has none, and nothing leads to it any more. -/
theorem Backed.removeBridges (h : Backed scopes) (scope : ScopeId) :
    Leaves scopes (scopes.removeBridges scope) ∧ Backed (scopes.removeBridges scope) ∧
      (∀ other name, (scopes.removeBridges scope).hasBridge other name =
        (decide (scope ≠ other) && scopes.hasBridge other name)) ∧
      ∀ other name handler, handler ∈ (scopes.removeBridges scope).handlers other name ↔
        handler ∈ scopes.handlers other name ∧ handler ≠ .bridge scope := by
  have hleaves : Leaves scopes (scopes.modify scope fun cell => { cell with bridges := [] }) :=
    leaves_modify scopes (fun _ => rfl) (fun _ => rfl) fun _ => rfl
  have hhandlers : ∀ other name, (scopes.modify scope fun cell =>
      { cell with bridges := [] }).handlers other name = scopes.handlers other name :=
    fun _ _ => handlers_modify fun _ => rfl
  have hcut := hasBridge_forgetBridges scopes scope
  -- Whatever leads to the scope is registered in its parent, under an id the scope has a bridge for.
  have hgone : ∀ other name, .bridge scope ∈ scopes.handlers other name →
      scopes.parent? scope = some other ∧ name ∈ scopes.look scope [] Scope.bridges := by
    intro other name hmem
    obtain ⟨hparent, hbridge⟩ := h.back other name scope hmem
    exact ⟨hparent, List.contains_iff_mem.mp hbridge⟩
  rw [Scopes.removeBridges]
  cases hparent : scopes.parent? scope with
  | none =>
      have hmem : ∀ other name handler, handler ∈ (scopes.modify scope fun cell =>
          { cell with bridges := [] }).handlers other name ↔
            handler ∈ scopes.handlers other name ∧ handler ≠ .bridge scope := by
        intro other name handler
        rw [hhandlers]
        refine ⟨fun hin => ⟨hin, ?_⟩, And.left⟩
        rintro rfl
        have hnone := (hgone other name hin).1
        rw [hparent] at hnone
        cases hnone
      exact ⟨hleaves, h.unlinked hleaves
        (fun other name => hhandlers other name ▸ h.once other name) hcut hmem, hcut, hmem⟩
  | some parent =>
      have hids : ∀ id ∈ scopes.look scope [] Scope.bridges, Unicode.lower id = id := fun id hid =>
        h.small scope id (List.contains_iff_mem.mpr hid)
      obtain ⟨hremoved, honce, hbridges, hmem⟩ := removeAll_spec _ parent (.bridge scope) hids
        (fun other name => hhandlers other name ▸ h.once other name) rfl
      dsimp only
      generalize List.foldl _ _ _ = removed at hremoved honce hbridges hmem ⊢
      have hsame := hleaves.trans hremoved
      have hboth := fun other name => (hbridges other name).trans (hcut other name)
      have hexact : ∀ other name handler, handler ∈ removed.handlers other name ↔
          handler ∈ scopes.handlers other name ∧ handler ≠ .bridge scope := by
        intro other name handler
        rw [hmem, hhandlers]
        refine and_congr_right fun hin => ?_
        constructor
        · rintro hkept rfl
          obtain ⟨habove, hname⟩ := hgone other name hin
          rw [hparent] at habove
          exact hkept ⟨Option.some.inj habove, hname, rfl⟩
        · exact fun hne hplace => hne hplace.2.2
      exact ⟨hsame, h.unlinked hsame honce hboth hexact, hboth, hexact⟩

/-- The scopes with one of them marked as disposed. -/
def markDisposed (scopes : Scopes) (scope : ScopeId) : Scopes :=
  scopes.modify scope fun cell => { cell with disposed := true }

theorem dispose_of_kept (h : scopes.isDisposed scope = false) :
    scopes.dispose scope = ((scopes.markDisposed scope).removeBridges scope).clear scope :=
  if_neg (by rw [h]; exact Bool.false_ne_true)

/-- What disposing a scope does. -/
structure Disposes (before after : Scopes) (scope : ScopeId) : Prop where
  tree : SameTree before after
  backed : Backed after
  disposed : ∀ other, after.isDisposed other = (before.isDisposed other || decide (scope = other))
  bridges : ∀ other id, after.hasBridge other id =
    (decide (scope ≠ other) && before.hasBridge other id)
  handlers : ∀ other id handler, handler ∈ after.handlers other id ↔
    scope ≠ other ∧ handler ∈ before.handlers other id ∧ handler ≠ .bridge scope
  waiters : ∀ other id, after.waiters other id =
    if scope = other then [] else before.waiters other id
  promises : ∀ promise, after.promises.get? promise =
    (before.promises.get? promise).map fun cell =>
      match cell.state with
      | .pending =>
        if promise ∈ (before.look scope [] Scope.waiters).map Prod.snd then
          { cell with state := .cancelled }
        else cell
      | _ => cell

theorem Backed.disposes (h : Backed scopes) (hlt : scope < scopes.scopes.size)
    (hkept : scopes.isDisposed scope = false) : Disposes scopes (scopes.dispose scope) scope := by
  have htree : SameTree scopes (scopes.markDisposed scope) := sameTree_modify scopes fun _ => rfl
  have hhandlers : ∀ other name, (scopes.markDisposed scope).handlers other name =
      scopes.handlers other name := fun _ _ => handlers_modify fun _ => rfl
  have hbridges : ∀ other name, (scopes.markDisposed scope).hasBridge other name =
      scopes.hasBridge other name := fun _ _ => hasBridge_modify fun _ => rfl
  have hwaiters : ∀ other, (scopes.markDisposed scope).look other [] Scope.waiters =
      scopes.look other [] Scope.waiters := fun _ => look_modify scopes fun _ => rfl
  have hmarked : ∀ other, (scopes.markDisposed scope).isDisposed other =
      (scopes.isDisposed other || decide (scope = other)) := by
    intro other
    by_cases hscope : scope = other
    · subst hscope
      obtain ⟨cell, hcell⟩ := get?_of_lt hlt
      rw [isDisposed, markDisposed, look_modify_self, look, hcell]
      simp
    · rw [isDisposed, markDisposed, look_modify_of_ne scopes hscope, isDisposed]
      simp [hscope]
  obtain ⟨hleaves, hbacked, hcut, hmem⟩ :=
    (h.congr htree.parent hbridges hhandlers).removeBridges scope
  rw [dispose_of_kept hkept]
  constructor
  case tree => exact (htree.trans hleaves.toSameTree).trans (sameTree_clear _ scope)
  case backed => exact hbacked.clear scope
  case disposed =>
    intro other
    rw [isDisposed, look_clear (fun _ => rfl)]
    exact (hleaves.disposed other).trans (hmarked other)
  case bridges =>
    intro other name
    rw [hasBridge_clear, hcut, hbridges]
  case handlers =>
    intro other name handler
    rw [handlers_clear]
    split
    · next hscope => simp [hscope]
    · next hscope => rw [hmem, hhandlers, and_iff_right hscope]
  case waiters =>
    intro other name
    rw [waiters_clear, hleaves.waiters_eq, waiters, hwaiters, waiters]
  case promises =>
    intro promise
    rw [promises_clear, hleaves.promises, hleaves.waiters, hwaiters]
    rfl

theorem dispose_of_disposed (h : scopes.isDisposed scope = true) : scopes.dispose scope = scopes :=
  if_pos h

theorem Backed.dispose (h : Backed scopes) (hlt : scope < scopes.scopes.size) :
    SameTree scopes (scopes.dispose scope) ∧ Backed (scopes.dispose scope) ∧
      ∀ other, (scopes.dispose scope).isDisposed other =
        (scopes.isDisposed other || decide (scope = other)) := by
  cases hdisposed : scopes.isDisposed scope with
  | true =>
      rw [dispose_of_disposed hdisposed]
      refine ⟨(Leaves.refl scopes).toSameTree, h, fun other => ?_⟩
      by_cases hscope : scope = other
      · rw [← hscope, hdisposed]
        rfl
      · simp [hscope]
  | false =>
      have hdone := h.disposes hlt hdisposed
      exact ⟨hdone.tree, hdone.backed, hdone.disposed⟩

end ReactiveMarkup.Scopes
