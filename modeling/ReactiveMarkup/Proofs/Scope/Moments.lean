import ReactiveMarkup.Proofs.Scope.Resolution

/-!
# One thing at a time

Setting a source is not over at once. Handlers are called in the middle of it, and a handler may do
whatever the host can do: set sources, which begins broadcasts inside the broadcast, register and wait,
dispose scopes, let go of them. To say what holds at every moment, broadcasts are taken apart here.

A `Moment` is scopes together with the broadcasts that are under way, the innermost first, and a record
of what happened so far. From one moment to the next either the host does something, a `Deed`, or the
innermost broadcast goes on by one call. What a handler does is left open: between two calls there may
be any deeds, so whatever can be said of all later moments holds for handlers of any behaviour. That the
operations of scopes, in which handlers have a list of actions, lead to such moments is shown in the
module on replaying them.
-/

namespace ReactiveMarkup

/-- A broadcast that is under way. -/
structure Telling where
  /-- The moment it began. -/
  since : Nat
  scope : ScopeId
  source : Source
  /-- The handlers that are still to be called. -/
  handlers : List Handler
  /-- The waits that are served in the end. -/
  waiters : List PromiseId

/-- An entry of the record. Its place in the record is the moment it happened. -/
inductive Happening where
  | waited (scope : ScopeId) (id : String) (promise : PromiseId)
  /-- A handler was registered that was not registered yet. -/
  | registered (scope : ScopeId) (id : String) (handler : Handler)
  | disposed (scope : ScopeId)
  /-- A broadcast began, by itself or because the one that began at the given moment handed its source
  on. -/
  | began (scope : ScopeId) (source : Source) (origin : Option Nat)
  /-- A handler from outside was called by the broadcast that began at the given moment. -/
  | called (since : Nat) (scope : ScopeId) (handler : Handler) (source : Source)
  | served (since : Nat) (scope : ScopeId) (promise : PromiseId)

/-- Something a host does, on its own or in a handler. -/
inductive Deed where
  | create (parent : ScopeId) (settings : Fields)
  | hold (scope : ScopeId)
  | release (scope : ScopeId)
  | subscribe (scope : ScopeId) (id : String) (handler : Handler) (onlyHere : Bool)
  | unsubscribe (scope : ScopeId) (id : String) (handler : Handler)
  | wait (scope : ScopeId) (id : String)
  | set (scope : ScopeId) (source : Source)
  | put (scope : ScopeId) (source : Source)
  | receive (scope : ScopeId) (source : Source)
  | dispose (scope : ScopeId)
  | clear (scope : ScopeId)
  /-- Makes handlers, and attends to calls of them. -/
  | arrange (hosts : Arena HostHandler) (deliveries : List Delivery)

structure Moment where
  scopes : Scopes
  tellings : List Telling := []
  past : List Happening := []

namespace Scopes

/-- What a scope stores after a source is set in it. -/
def mergedWith (scopes : Scopes) (scope : ScopeId) (source : Source) : Source :=
  match scopes.stored? scope source.id with
  | some stored => stored.merge source
  | none => source

/-- Registers a handler in a scope, with the bridges it takes or without. -/
def register (scopes : Scopes) (scope : ScopeId) (id : String) (handler : Handler)
    (onlyHere : Bool) : Scopes × Bool :=
  if onlyHere then scopes.addLocalHandler scope id handler else scopes.addHandler scope id handler

/-- Takes note that a handler of the host was called. -/
def markCalled (scopes : Scopes) (handler : HandlerId) : Scopes :=
  { scopes with hosts := scopes.hosts.modify handler fun host => { host with called := true } }

end Scopes

namespace Moment

/-- A root scope, to which nothing happened yet. -/
def first (settings : Fields) : Moment where
  scopes := (Scopes.create {} none settings).1.hold 0

/-- Begins to tell a stored source. -/
def tell (m : Moment) (scope : ScopeId) (source : Source) (origin : Option Nat) : Moment where
  scopes := m.scopes.takeWaiters scope source.id
  tellings := {
    since := m.past.length
    scope, source
    handlers := m.scopes.handlers scope source.id
    waiters := m.scopes.waiters scope source.id } :: m.tellings
  past := m.past ++ [.began scope source origin]

/-- Forwards a source to a scope. -/
def receive (m : Moment) (scope : ScopeId) (source : Source) (origin : Option Nat) : Moment :=
  if (m.scopes.local? scope source.id).isSome && !m.scopes.isInherited scope source.id then m
  else { m with scopes := (m.scopes.inherit scope source.id).put scope source }.tell scope source origin

/-- What a deed leads to at once. Setting a source only begins its broadcast. -/
def act (m : Moment) : Deed → Moment
  | .create parent settings => { m with scopes := m.scopes.grow (some parent) settings }
  | .hold scope => { m with scopes := m.scopes.hold scope }
  | .release scope => { m with scopes := m.scopes.release scope }
  | .subscribe scope id handler onlyHere =>
    let (scopes, added) := m.scopes.register scope id handler onlyHere
    { m with
      scopes
      past := m.past ++ if added then [.registered scope (Unicode.lower id) handler] else [] }
  | .unsubscribe scope id handler =>
    { m with scopes := (m.scopes.removeHandler scope id handler).1 }
  | .wait scope id =>
    let (scopes, promise) := m.scopes.wait scope id
    { m with scopes, past := m.past ++ (promise.map (.waited scope (Unicode.lower id))).toList }
  | .set scope source =>
    let merged := m.scopes.mergedWith scope source
    { m with scopes := (m.scopes.own scope source.id).put scope merged }.tell scope merged none
  | .put scope source =>
    { m with scopes := m.scopes.put scope source }.tell scope source none
  | .receive scope source => m.receive scope source none
  | .dispose scope =>
    { m with
      scopes := m.scopes.dispose scope
      past := m.past ++ if m.scopes.isDisposed scope then [] else [.disposed scope] }
  | .clear scope => { m with scopes := m.scopes.clear scope }
  | .arrange hosts deliveries => { m with scopes := { m.scopes with hosts, deliveries } }

/-- Serves the waits of a broadcast that has called everybody. -/
def serve (m : Moment) (telling : Telling) : Moment :=
  { m with
    scopes := telling.waiters.foldl
      (fun scopes promise => scopes.resolve (.fulfilled telling.source) promise) m.scopes
    past := m.past ++ telling.waiters.map (.served telling.since telling.scope) }

/-- Calls a handler on behalf of a broadcast. -/
def call (m : Moment) (telling : Telling) : Handler → Moment
  | .bridge child =>
    if m.scopes.isAlive child then m.receive child telling.source (some telling.since) else m
  | .host handler =>
    { m with
      scopes := (m.scopes.deliver (.handled handler telling.source)).markCalled handler
      past := m.past ++ [.called telling.since telling.scope (.host handler) telling.source] }
  | .trigger component =>
    { m with
      scopes := m.scopes.deliver (.triggered component telling.source)
      past := m.past ++ [.called telling.since telling.scope (.trigger component) telling.source] }

/-- The innermost broadcast goes on: it makes its next call, or serves its waits and is over. -/
def proceed (m : Moment) : Moment :=
  match m.tellings with
  | [] => m
  | telling :: others =>
    match telling.handlers with
    | [] => { m with tellings := others }.serve telling
    | handler :: rest =>
      let telling := { telling with handlers := rest }
      { m with tellings := telling :: others }.call telling handler

/-- Whether a host can do something. Only what lives can be worked with, only a scope hands out bridges,
and what a broadcast goes on in is let go of when the broadcast is over. -/
def Allows (m : Moment) : Deed → Prop
  | .create parent _ => m.scopes.isAlive parent = true
  | .hold scope => m.scopes.isAlive scope = true
  | .release scope =>
    ∀ telling ∈ m.tellings, (m.scopes.release scope).isAlive telling.scope = true
  | .subscribe scope _ handler _ =>
    m.scopes.isAlive scope = true ∧ ∀ child, handler ≠ .bridge child
  | .unsubscribe scope _ handler =>
    m.scopes.isAlive scope = true ∧ ∀ child, handler ≠ .bridge child
  | .wait scope _ => m.scopes.isAlive scope = true
  | .set scope source => m.scopes.isAlive scope = true ∧ Unicode.lower source.id = source.id
  | .put scope source => m.scopes.isAlive scope = true ∧ Unicode.lower source.id = source.id
  | .receive scope source => m.scopes.isAlive scope = true ∧ Unicode.lower source.id = source.id
  | .dispose scope => m.scopes.isAlive scope = true
  | .clear scope => m.scopes.isAlive scope = true
  | .arrange _ _ => True

/-- The moments that may come after one, if the host does nothing but what it `may` do. -/
inductive Later (may : Moment → Deed → Prop) (m : Moment) : Moment → Prop
  | refl : Later may m m
  | act {middle : Moment} (before : Later may m middle) {deed : Deed} (allowed : middle.Allows deed)
      (permitted : may middle deed) : Later may m (middle.act deed)
  | proceed {middle : Moment} (before : Later may m middle) : Later may m middle.proceed

/-- The moments that come after a first one. -/
def Reached (may : Moment → Deed → Prop) (m : Moment) : Prop :=
  ∃ settings, Later may (first settings) m

end Moment

end ReactiveMarkup
