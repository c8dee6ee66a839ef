import ReactiveMarkup.Scope.Subscription

/-!
# Broadcasts

Setting a source merges it into what its scope stores under the id and tells everybody who is
registered for the id there, in the order of registration: handlers of the host and components take
delivery of the merged source, bridges pass it on to their child scopes. The waits that were
registered before the broadcast began are served with it at the end. Who is told is settled at the
beginning; a handler that sets sources begins a broadcast inside the broadcast.

Broadcasts can only nest so deep: a bridge leads to a scope with a greater number, and a handler
begins a broadcast of its own in its first call only.
-/

namespace ReactiveMarkup.Scopes

/-- How a stored source is made known. -/
abbrev Cast := Scopes → ScopeId → Source → Scopes

/-- Forwards a source to a scope. A source of the scope's own hides it. -/
def receiveBy (cast : Cast) (scopes : Scopes) (scope : ScopeId) (source : Source) : Scopes :=
  if (scopes.local? scope source.id).isSome && !scopes.isInherited scope source.id then scopes
  else cast ((scopes.inherit scope source.id).put scope source) scope source

/-- Sets a source in a scope. -/
def setBy (cast : Cast) (scopes : Scopes) (scope : ScopeId) (source : Source) : Scopes × Source :=
  let merged := match scopes.stored? scope source.id with
    | some stored => stored.merge source
    | none => source
  (cast ((scopes.own scope source.id).put scope merged) scope merged, merged)

/-- Does what a handler of the host does in its first call. Scopes that live no more stay as they
are. -/
def actBy (cast : Cast) (scopes : Scopes) : HandlerAction → Scopes
  | .set scope id value =>
    if scopes.isAlive scope then (setBy cast scopes scope (Source.ofValue id value)).1 else scopes
  | .wait scope id => if scopes.isAlive scope then (scopes.wait scope id).1 else scopes
  | .dispose scope => if scopes.isAlive scope then scopes.dispose scope else scopes

def deliver (scopes : Scopes) (delivery : Delivery) : Scopes :=
  { scopes with deliveries := scopes.deliveries ++ [delivery] }

/-- Calls a handler of the host. -/
def callHostBy (cast : Cast) (scopes : Scopes) (handler : HandlerId) (source : Source) : Scopes :=
  let delivered := scopes.deliver (.handled handler source)
  match scopes.hosts.get? handler with
  | some { called := false, actions, .. } =>
    actions.foldl (actBy cast)
      { delivered with
        hosts := delivered.hosts.modify handler fun host => { host with called := true } }
  | _ => delivered

def callBy (cast : Cast) (source : Source) (scopes : Scopes) : Handler → Scopes
  | .host handler => callHostBy cast scopes handler source
  | .bridge child => if scopes.isAlive child then receiveBy cast scopes child source else scopes
  | .trigger component => scopes.deliver (.triggered component source)

/-- Takes the waits for an id out of a scope. -/
def takeWaiters (scopes : Scopes) (scope : ScopeId) (id : String) : Scopes :=
  scopes.modify scope fun cell => { cell with waiters := cell.waiters.filter (·.1 != id) }

/-- Tells everybody about a stored source. The first argument bounds how deep broadcasts nest. -/
def broadcast : Nat → Cast
  | 0, scopes, _, _ => scopes
  | depth + 1, scopes, scope, source =>
    let handlers := scopes.handlers scope source.id
    let waiters := scopes.waiters scope source.id
    let called := handlers.foldl (callBy (broadcast depth) source)
      (scopes.takeWaiters scope source.id)
    waiters.foldl (fun scopes promise => scopes.resolve (.fulfilled source) promise) called

/-- How deep broadcasts nest at most. -/
def castDepth (scopes : Scopes) : Nat := (scopes.hosts.size + 1) * (scopes.scopes.size + 1)

/-- Tells everybody about a stored source. -/
def announce : Cast := fun scopes scope source => broadcast scopes.castDepth scopes scope source

/-- Sets a source in a scope and gives the merged one. -/
def set (scopes : Scopes) (scope : ScopeId) (source : Source) : Scopes × Source :=
  setBy announce scopes scope source

/-- Forwards a source of the parent to a scope. -/
def receive (scopes : Scopes) (scope : ScopeId) (source : Source) : Scopes :=
  receiveBy announce scopes scope source

/-- Stores a source in a scope as it is and makes it known there. -/
def putAndAnnounce (scopes : Scopes) (scope : ScopeId) (source : Source) : Scopes :=
  announce (scopes.put scope source) scope source

end ReactiveMarkup.Scopes
