import ReactiveMarkup.Scope.Basic

/-!
# Subscriptions

Handlers and waits are registered in a scope and make it set up the bridges that bring it the
sources of its parent; the parent does the same with its own parent, and so on until a scope already
has a bridge for the id. A bridge stays when the handler it was made for is removed. Disposing a
scope takes its bridges and all its handlers and waits away; its sources stay.
-/

namespace ReactiveMarkup.Scopes

/-- The handlers of an id in a scope, in the order of their registration. -/
def handlers (scopes : Scopes) (scope : ScopeId) (id : String) : List Handler :=
  ((scopes.look scope [] Scope.handlers).filter (·.1 == id)).map Prod.snd

/-- The waits for an id in a scope, in the order of their registration. -/
def waiters (scopes : Scopes) (scope : ScopeId) (id : String) : List PromiseId :=
  ((scopes.look scope [] Scope.waiters).filter (·.1 == id)).map Prod.snd

/-- Registers a handler in a scope alone. The flag tells whether it was not registered yet. -/
def addLocalHandler (scopes : Scopes) (scope : ScopeId) (id : String) (handler : Handler) :
    Scopes × Bool :=
  let id := Unicode.lower id
  if (scopes.handlers scope id).contains handler then (scopes, false)
  else (scopes.modify scope fun cell =>
    { cell with handlers := cell.handlers ++ [(id, handler)] }, true)

/-- Whether a scope has a bridge for an id on its parent. -/
def hasBridge (scopes : Scopes) (scope : ScopeId) (id : String) : Bool :=
  (scopes.look scope [] Scope.bridges).contains id

/-- Sets bridges up along a lineage until one is there. -/
def bridgeAlong (id : String) : List ScopeId → Scopes → Scopes
  | scope :: parent :: above, scopes =>
    if scopes.hasBridge scope id then scopes
    else
      let bridged := scopes.modify scope fun cell => { cell with bridges := id :: cell.bridges }
      bridgeAlong id (parent :: above) (bridged.addLocalHandler parent id (.bridge scope)).1
  | _, scopes => scopes

/-- Sees to it that the sources of an id that are set above a scope are forwarded to it. -/
def bridge (scopes : Scopes) (scope : ScopeId) (id : String) : Scopes :=
  bridgeAlong (Unicode.lower id) (scopes.lineage scope) scopes

/-- Registers a handler. The flag tells whether it was not registered yet. -/
def addHandler (scopes : Scopes) (scope : ScopeId) (id : String) (handler : Handler) :
    Scopes × Bool :=
  let (scopes, added) := scopes.addLocalHandler scope id handler
  (scopes.bridge scope id, added)

/-- Removes a handler. The flag tells whether it was registered. -/
def removeHandler (scopes : Scopes) (scope : ScopeId) (id : String) (handler : Handler) :
    Scopes × Bool :=
  let id := Unicode.lower id
  if (scopes.handlers scope id).contains handler then
    (scopes.modify scope fun cell => { cell with handlers := cell.handlers.erase (id, handler) },
      true)
  else (scopes, false)

/-- Registers a wait for the next source of an id. A disposed scope takes none. -/
def wait (scopes : Scopes) (scope : ScopeId) (id : String) : Scopes × Option PromiseId :=
  if scopes.isDisposed scope then (scopes, none)
  else
    let promise := scopes.promises.size
    let id := Unicode.lower id
    let waiting := { scopes with promises := scopes.promises.push { scope, id } }
    let waiting := waiting.modify scope fun cell =>
      { cell with waiters := cell.waiters ++ [(id, promise)] }
    (waiting.bridge scope id, some promise)

/-- Removes all handlers of a scope and cancels its waits. -/
def clear (scopes : Scopes) (scope : ScopeId) : Scopes :=
  let waiting := (scopes.look scope [] Scope.waiters).map Prod.snd
  (waiting.foldl (fun scopes promise => scopes.resolve .cancelled promise) scopes).modify scope
    fun cell => { cell with handlers := [], waiters := [] }

/-- Takes the bridges of a scope from its parent. -/
def removeBridges (scopes : Scopes) (scope : ScopeId) : Scopes :=
  let bridges := scopes.look scope [] Scope.bridges
  let cut := scopes.modify scope fun cell => { cell with bridges := [] }
  match scopes.parent? scope with
  | some parent =>
    bridges.foldl (fun scopes id => (scopes.removeHandler parent id (.bridge scope)).1) cut
  | none => cut

/-- Disposes a scope; doing so again changes nothing. -/
def dispose (scopes : Scopes) (scope : ScopeId) : Scopes :=
  if scopes.isDisposed scope then scopes
  else
    let disposed := scopes.modify scope fun cell => { cell with disposed := true }
    (disposed.removeBridges scope).clear scope

end ReactiveMarkup.Scopes
