import Mathlib.Data.List.Nodup
import ReactiveMarkup.Proofs.Scope.Spread

/-!
# Who listens

The handlers of a scope are bridges and those that were registered from outside. It is the latter
that a source is told to in the end, and a broadcast leaves a trace of it: a delivery for each of
them, in the order of the calls.

Two facts make sure that nobody is told twice and nobody is forgotten. No handler is registered
twice for an id in one scope. And a scope where anybody listens has a bridge to its parent, because
registering sees to one and bridges stay; with what is known of bridges, so have all the scopes
above it.

`Tells` is what a broadcast may do to all this, put so that its parts compose: the handlers from
outside stay, bridges come but do not go, and there are new deliveries behind the old ones. Waits
that are registered in the middle of a broadcast tell nobody anything, but they set up bridges.
-/

namespace ReactiveMarkup

/-- What a handler from outside is called with. Nobody sees a bridge being called. -/
def Handler.delivery? (source : Source) : Handler → Option Delivery
  | .host id => some (.handled id source)
  | .bridge _ => none
  | .trigger component => some (.triggered component source)

/-- Whether a handler was registered from outside. -/
def Handler.isOutside : Handler → Bool
  | .bridge _ => false
  | _ => true

/-- Who was called. -/
def Delivery.handler : Delivery → Handler
  | .handled id _ => .host id
  | .triggered component _ => .trigger component

namespace Scopes

variable {scopes before middle after : Scopes} {direct : Direct} {scope parent : ScopeId}
  {id name : String} {source : Source} {new more : List Delivery}

/-- The calls that tell a source to all handlers of an id in a scope that are from outside. -/
def calls (scopes : Scopes) (scope : ScopeId) (id : String) (source : Source) : List Delivery :=
  (scopes.handlers scope id).filterMap (Handler.delivery? source)

theorem calls_of_ge (h : scopes.scopes.size ≤ scope) : scopes.calls scope id source = [] := by
  rw [calls, handlers, look_of_ge h]
  rfl

theorem nodup_calls (h : (scopes.handlers scope id).Nodup) :
    (scopes.calls scope id source).Nodup := by
  refine h.filterMap fun handler other delivery hhandler hother => ?_
  cases handler <;> cases other <;> cases hhandler <;> cases hother <;> rfl

/-! ## Registering one handler -/

/-- A handler is registered behind the others, if at all. -/
theorem handlers_addLocalHandler (scopes : Scopes) (scope : ScopeId) (id : String)
    (added : Handler) (other : ScopeId) (name : String) :
    (scopes.addLocalHandler scope id added).1.handlers other name = scopes.handlers other name ∨
      (other = scope ∧ name = Unicode.lower id ∧ added ∉ scopes.handlers other name ∧
        (scopes.addLocalHandler scope id added).1.handlers other name =
          scopes.handlers other name ++ [added]) := by
  rw [addLocalHandler]
  split
  · exact .inl rfl
  · next habsent =>
      have hnew : added ∉ scopes.handlers scope (Unicode.lower id) :=
        fun hmem => habsent (List.contains_iff_mem.mpr hmem)
      by_cases hscope : scope = other
      · obtain rfl := hscope
        rw [handlers, look_modify_self, handlers, look, look]
        cases hcell : scopes.scopes.get? scope with
        | none => exact .inl rfl
        | some cell =>
            by_cases hname : name = Unicode.lower id
            · obtain rfl := hname
              rw [handlers, look, hcell] at hnew
              exact .inr ⟨rfl, rfl, hnew, by simp⟩
            · have hne : (Unicode.lower id == name) = false := beq_false_of_ne (Ne.symm hname)
              exact .inl (by simp [hne])
      · rw [handlers, look_modify_of_ne scopes hscope, handlers]
        exact .inl rfl

theorem nodup_handlers_addLocalHandler {added : Handler} {other : ScopeId}
    (h : (scopes.handlers other name).Nodup) :
    ((scopes.addLocalHandler scope id added).1.handlers other name).Nodup := by
  rcases handlers_addLocalHandler scopes scope id added other name with hsame | ⟨-, -, hnew, hmore⟩
  · rwa [hsame]
  · rw [hmore]
    exact List.concat_eq_append ▸ h.concat hnew

theorem handlers_removeHandler_sublist (scopes : Scopes) (scope : ScopeId) (id : String)
    (removed : Handler) (other : ScopeId) (name : String) :
    ((scopes.removeHandler scope id removed).1.handlers other name).Sublist
      (scopes.handlers other name) := by
  rw [removeHandler]
  split
  · by_cases hscope : scope = other
    · obtain rfl := hscope
      rw [handlers, look_modify_self, handlers, look, look]
      cases scopes.scopes.get? scope with
      | none => exact List.Sublist.refl _
      | some cell => exact (List.erase_sublist.filter _).map _
    · rw [handlers, look_modify_of_ne scopes hscope, handlers]
  · exact List.Sublist.refl _

/-! ## What telling may do -/

/-- The handlers from outside are those there were, and they were told the given things. -/
structure Tells (before after : Scopes) (new : List Delivery) : Prop where
  parent : ∀ scope, after.parent? scope = before.parent? scope
  bridges : ∀ scope id, before.hasBridge scope id = true → after.hasBridge scope id = true
  once : ∀ scope id, (before.handlers scope id).Nodup → (after.handlers scope id).Nodup
  calls : ∀ scope id source, after.calls scope id source = before.calls scope id source
  deliveries : after.deliveries = before.deliveries ++ new

theorem Tells.refl (scopes : Scopes) : Tells scopes scopes [] :=
  ⟨fun _ => rfl, fun _ _ h => h, fun _ _ h => h, fun _ _ _ => rfl, (List.append_nil _).symm⟩

theorem Tells.trans (h : Tells before middle new) (h' : Tells middle after more) :
    Tells before after (new ++ more) where
  parent scope := (h'.parent scope).trans (h.parent scope)
  bridges scope id hbridge := h'.bridges scope id (h.bridges scope id hbridge)
  once scope id honce := h'.once scope id (h.once scope id honce)
  calls scope id source := (h'.calls scope id source).trans (h.calls scope id source)
  deliveries := by rw [h'.deliveries, h.deliveries, List.append_assoc]

/-- The handlers of an id in a scope that are from outside. -/
def listeners (scopes : Scopes) (scope : ScopeId) (id : String) : List Handler :=
  (scopes.handlers scope id).filter Handler.isOutside

theorem mem_listeners {handler : Handler} :
    handler ∈ scopes.listeners scope id ↔
      handler ∈ scopes.handlers scope id ∧ handler.isOutside = true := List.mem_filter

/-- Who is called with a source can be read off the calls. -/
theorem map_handler_calls (scopes : Scopes) (scope : ScopeId) (id : String) (source : Source) :
    (scopes.calls scope id source).map Delivery.handler = scopes.listeners scope id := by
  rw [calls, listeners, List.map_filterMap, ← List.filterMap_eq_filter]
  congr 1
  funext handler
  cases handler <;> rfl

theorem Tells.listeners (h : Tells before after new) (scope : ScopeId) (id : String) :
    after.listeners scope id = before.listeners scope id := by
  rw [← map_handler_calls after scope id default, ← map_handler_calls before scope id default, h.calls]

theorem Tells.quiet_trans (h : Tells before middle []) (h' : Tells middle after new) :
    Tells before after new := h.trans h'

theorem Tells.trans_quiet (h : Tells before middle new) (h' : Tells middle after []) :
    Tells before after new := List.append_nil new ▸ h.trans h'

theorem SameWires.tells (h : SameWires before after)
    (hdeliveries : after.deliveries = before.deliveries ++ new) : Tells before after new where
  parent := h.parent
  bridges scope id hbridge := (h.bridges scope id).trans hbridge
  once scope id honce := by rwa [h.handlers scope id]
  calls scope id source := by rw [Scopes.calls, h.handlers scope id, Scopes.calls]
  deliveries := hdeliveries

theorem SameWires.quiet (h : SameWires before after)
    (hdeliveries : after.deliveries = before.deliveries) : Tells before after [] :=
  h.tells (hdeliveries.trans (List.append_nil _).symm)

theorem Tells.foldl {α : Type} {step : Scopes → α → Scopes} {items : List α}
    (hstep : ∀ item ∈ items, ∀ scopes, Tells scopes (step scopes item) []) (scopes : Scopes) :
    Tells scopes (items.foldl step scopes) [] := by
  induction items generalizing scopes with
  | nil => exact .refl scopes
  | cons item rest ih =>
      exact (hstep item List.mem_cons_self scopes).quiet_trans
        (ih (fun other hother => hstep other (List.mem_cons_of_mem _ hother)) _)

theorem tells_deliver (scopes : Scopes) (delivery : Delivery) :
    Tells scopes (scopes.deliver delivery) [delivery] :=
  (alike_deliver scopes delivery).toSameWires.tells rfl

theorem deliveries_addLocalHandler (handler : Handler) :
    (scopes.addLocalHandler scope id handler).1.deliveries = scopes.deliveries := by
  rw [addLocalHandler]
  split <;> rfl

/-- Setting up a bridge tells nobody anything. -/
theorem tells_connect (scopes : Scopes) (id : String) (scope parent : ScopeId) :
    Tells scopes (scopes.connect id scope parent) [] := by
  -- The scope takes note of its end first; what changes of the handlers, changes with the other.
  have hmarked : Grows (scopes.modify scope fun cell => { cell with bridges := id :: cell.bridges })
      (scopes.connect id scope parent) := grows_addLocalHandler ..
  have hhandlers : ∀ other name, (scopes.modify scope fun cell =>
      { cell with bridges := id :: cell.bridges }).handlers other name =
        scopes.handlers other name := fun _ _ => handlers_modify fun _ => rfl
  constructor
  · exact fun other => (hmarked.parent other).trans (parent?_modify fun _ => rfl)
  · intro other name hbridge
    refine hmarked.bridges other name ?_
    by_cases hscope : scope = other
    · obtain rfl := hscope
      rw [hasBridge, look] at hbridge
      rw [hasBridge, look_modify_self, look]
      cases hcell : scopes.scopes.get? scope with
      | none => rwa [hcell] at hbridge
      | some cell =>
          rw [hcell] at hbridge
          have hmem := List.contains_iff_mem.mp hbridge
          exact List.contains_iff_mem.mpr (List.mem_cons_of_mem _ hmem)
    · rwa [hasBridge, look_modify_of_ne scopes hscope]
  · intro other name honce
    exact nodup_handlers_addLocalHandler (hhandlers other name ▸ honce)
  · intro other name source
    rw [calls, calls, ← hhandlers other name]
    rcases handlers_addLocalHandler (scopes.modify scope fun cell =>
      { cell with bridges := id :: cell.bridges }) parent id (.bridge scope) other name with
      hsame | ⟨-, -, -, hmore⟩
    · rw [connect, hsame]
    · rw [connect, hmore, List.filterMap_append]
      exact List.append_nil _
  · rw [connect, deliveries_addLocalHandler]
    exact (List.append_nil _).symm

theorem tells_bridgeAlong (id : String) (lineage : List ScopeId) (scopes : Scopes) :
    Tells scopes (bridgeAlong id lineage scopes) [] := by
  induction lineage generalizing scopes with
  | nil => exact .refl scopes
  | cons scope above ih =>
      cases above with
      | nil => exact .refl scopes
      | cons parent above =>
          rw [bridgeAlong]
          split
          · exact .refl scopes
          · exact (tells_connect scopes id scope parent).quiet_trans (ih _)

theorem tells_wait (scopes : Scopes) (scope : ScopeId) (id : String) :
    Tells scopes (scopes.wait scope id).1 [] := by
  rw [wait]
  split
  · exact .refl scopes
  · have halike : Alike scopes
        { scopes with promises := scopes.promises.push { scope, id := Unicode.lower id } } :=
      .of_scopes rfl rfl fun _ host h => ⟨host, h, rfl⟩
    have hlisted := alike_modify_waiters
      { scopes with promises := scopes.promises.push { scope, id := Unicode.lower id } } scope
      (· ++ [(Unicode.lower id, scopes.promises.size)])
    exact ((halike.trans hlisted).toSameWires.quiet rfl).quiet_trans (tells_bridgeAlong _ _ _)

/-- A handler of the host that only waits takes delivery of the source, and nobody else does. -/
theorem Calm.tells_callHost (h : Calm scopes) (cast : Cast) (number : HandlerId)
    (source : Source) :
    Tells scopes (callHostBy cast scopes number source) [.handled number source] := by
  have hdelivered := tells_deliver scopes (.handled number source)
  rw [callHostBy]
  split
  · next actions hhost =>
      have hcalled : Tells (scopes.deliver (.handled number source))
          { scopes.deliver (.handled number source) with
            hosts := (scopes.deliver (.handled number source)).hosts.modify number fun host =>
              { host with called := true } } [] :=
        ⟨fun _ => rfl, fun _ _ h => h, fun _ _ h => h, fun _ _ _ => rfl, (List.append_nil _).symm⟩
      refine hdelivered.trans_quiet
        (hcalled.quiet_trans (.foldl (fun action haction scopes => ?_) _))
      obtain ⟨scope, id, rfl⟩ := h.quiet number _ hhost action haction
      rw [actBy]
      split
      · exact tells_wait scopes scope id
      · exact .refl scopes
  · exact hdelivered

/-! ## Nobody twice, and nobody forgotten -/

/-- No handler is registered twice, and sources that are set further up come to wherever anybody
listens. -/
structure Attuned (scopes : Scopes) : Prop where
  once : ∀ scope id, (scopes.handlers scope id).Nodup
  heard : ∀ {scope parent : ScopeId} {id : String} {source : Source},
    scopes.parent? scope = some parent → scopes.calls scope id source ≠ [] →
      scopes.hasBridge scope id = true

theorem Attuned.tells (h : Attuned before) (htells : Tells before after new) : Attuned after where
  once scope id := htells.once scope id (h.once scope id)
  heard hparent hcalls :=
    htells.bridges _ _ (h.heard (htells.parent _ ▸ hparent) (htells.calls _ _ _ ▸ hcalls))

/-- Registering sees to a bridge, unless there is no parent. -/
theorem Ordered.hasBridge_bridge (h : scopes.Ordered)
    (hparent : scopes.parent? scope = some parent) :
    (scopes.bridge scope id).hasBridge scope (Unicode.lower id) = true := by
  rw [bridge, h.lineage_eq, hparent]
  dsimp only
  rw [h.lineage_eq parent, bridgeAlong]
  split
  · assumption
  · exact (tells_bridgeAlong _ _ _).bridges _ _
      ((hasBridge_connect hparent scope).mpr (.inr ⟨rfl, rfl⟩))

theorem Attuned.addHandler (h : Attuned scopes) (horder : scopes.Ordered) (scope : ScopeId)
    (id : String) (handler : Handler) : Attuned (scopes.addHandler scope id handler).1 := by
  have hgrows := grows_addLocalHandler scopes scope id handler
  have htells : Tells (scopes.addLocalHandler scope id handler).1
      (scopes.addHandler scope id handler).1 [] := tells_bridgeAlong _ _ _
  have hsame : ∀ other, (scopes.addHandler scope id handler).1.parent? other =
      scopes.parent? other := fun other => (htells.parent other).trans (hgrows.parent other)
  constructor
  · exact fun other name => htells.once other name (nodup_handlers_addLocalHandler (h.once ..))
  · intro other parent name source hparent hcalls
    rw [hsame] at hparent
    rcases handlers_addLocalHandler scopes scope id handler other name with
      hold | ⟨rfl, rfl, -, -⟩
    · rw [htells.calls, calls, hold] at hcalls
      exact htells.bridges _ _ (hgrows.bridges _ _ (h.heard hparent hcalls))
    · have horderAfter : (scopes.addLocalHandler other id handler).1.Ordered :=
        fun below above hbelow => horder below above (hgrows.parent below ▸ hbelow)
      exact horderAfter.hasBridge_bridge ((hgrows.parent other).trans hparent)

theorem Attuned.removeHandler (h : Attuned scopes) (scope : ScopeId) (id : String)
    (handler : Handler) : Attuned (scopes.removeHandler scope id handler).1 := by
  have hless := handlers_removeHandler_sublist scopes scope id handler
  constructor
  · exact fun other name => (hless other name).nodup (h.once other name)
  · intro other parent name source hparent hcalls
    rw [hasBridge_removeHandler]
    rw [(grows_removeHandler scopes scope id handler).parent] at hparent
    have hmore : scopes.calls other name source ≠ [] := by
      intro hnone
      have hfewer := (hless other name).filterMap (Handler.delivery? source)
      exact hcalls (List.sublist_nil.mp (hnone ▸ hfewer))
    exact h.heard hparent hmore

end Scopes

end ReactiveMarkup
