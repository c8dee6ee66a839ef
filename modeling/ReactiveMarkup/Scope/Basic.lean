import ReactiveMarkup.Arena
import ReactiveMarkup.Binding.Token
import ReactiveMarkup.Source.Merge

/-!
# Scopes

Scopes form a tree. Each of them stores sources and sees those of the scopes above it. A scope has
handlers, which are called whenever a source of their id is set in it, and waiters, which are served
once. A source that is set in a parent reaches the handlers of a child over a bridge: a handler that
the child registers on its parent, once for every id it takes an interest in. What comes over a
bridge is stored in the child as an inherited copy, unless the child was given a source of its own
under that id.

A scope lives as long as somebody holds it or a scope below it. Handlers and bridges do not hold
scopes.
-/

namespace ReactiveMarkup

/-- The number of a scope; a parent has a smaller one than its children. -/
abbrev ScopeId := Nat

abbrev ComponentId := Nat

/-- The number of a handler of the host. -/
abbrev HandlerId := Nat

abbrev PromiseId := Nat

/-- Who is told that a source was set. -/
inductive Handler where
  | host (id : HandlerId)
  /-- A child scope, to which the source is forwarded. -/
  | bridge (child : ScopeId)
  /-- A component, which is rendered. -/
  | trigger (component : ComponentId)
deriving DecidableEq, Repr

/-- What a handler of the host does besides taking note of the source. -/
inductive HandlerAction where
  | set (scope : ScopeId) (id : String) (value : Value)
  | wait (scope : ScopeId) (id : String)
  | dispose (scope : ScopeId)
deriving Inhabited

/-- A handler of the host. It acts in its first call only. -/
structure HostHandler where
  name : String
  actions : List HandlerAction := []
  called : Bool := false
deriving Inhabited

/-- What became of a wait. -/
inductive PromiseState where
  | pending
  | fulfilled (source : Source)
  | cancelled
deriving Inhabited

/-- A wait for the next source of an id in a scope. -/
structure Promise where
  scope : ScopeId
  id : String
  state : PromiseState := .pending
deriving Inhabited

structure Scope where
  parent : Option ScopeId := none
  settings : Fields := []
  /-- The stored sources, one of an id. -/
  sources : List Source := []
  /-- The ids of the stored sources that came over a bridge. -/
  inherited : List String := []
  /-- The handlers of all ids, in the order of their registration. -/
  handlers : List (String × Handler) := []
  /-- The waits of all ids that are not served yet. -/
  waiters : List (String × PromiseId) := []
  /-- The ids with a bridge on the parent. -/
  bridges : List String := []
  disposed : Bool := false
deriving Inhabited

/-- Something a handler was called with. -/
inductive Delivery where
  | handled (handler : HandlerId) (source : Source)
  | triggered (component : ComponentId) (source : Source)
deriving Inhabited

/-- All scopes, with their promises and the handlers of the host. -/
structure Scopes where
  scopes : Arena Scope := .empty
  promises : Arena Promise := .empty
  hosts : Arena HostHandler := .empty
  /-- Every hold on a scope. -/
  held : List ScopeId := []
  /-- The calls of handlers that nobody has attended to yet, in order. -/
  deliveries : List Delivery := []
deriving Inhabited

namespace Scopes

def modify (scopes : Scopes) (scope : ScopeId) (f : Scope → Scope) : Scopes :=
  { scopes with scopes := scopes.scopes.modify scope f }

/-- A part of a scope, or what stands for it in a scope that does not exist. -/
def look {α : Type} (scopes : Scopes) (scope : ScopeId) (default : α) (f : Scope → α) : α :=
  match scopes.scopes.get? scope with
  | some cell => f cell
  | none => default

def create (scopes : Scopes) (parent : Option ScopeId) (settings : Fields := []) :
    Scopes × ScopeId :=
  ({ scopes with scopes := scopes.scopes.push { parent, settings } }, scopes.scopes.size)

def parent? (scopes : Scopes) (scope : ScopeId) : Option ScopeId :=
  scopes.look scope none Scope.parent

/-- A scope and the scopes above it, up to a height. -/
def lineageTo (scopes : Scopes) : Nat → ScopeId → List ScopeId
  | 0, _ => []
  | height + 1, scope =>
    scope :: match scopes.parent? scope with
      | some parent => lineageTo scopes height parent
      | none => []

/-- A scope and the scopes above it, from the inside out. As parents have smaller numbers, there are
no more of them than its own number allows. -/
def lineage (scopes : Scopes) (scope : ScopeId) : List ScopeId := scopes.lineageTo (scope + 1) scope

/-- Takes a hold on a scope. -/
def hold (scopes : Scopes) (scope : ScopeId) : Scopes :=
  { scopes with held := scope :: scopes.held }

/-- Gives a hold on a scope back. -/
def release (scopes : Scopes) (scope : ScopeId) : Scopes :=
  { scopes with held := scopes.held.erase scope }

/-- Whether a scope is held, or a scope below it. -/
def isAlive (scopes : Scopes) (scope : ScopeId) : Bool :=
  scopes.held.any fun held => (scopes.lineage held).contains scope

def isDisposed (scopes : Scopes) (scope : ScopeId) : Bool := scopes.look scope false Scope.disposed

/-- The setting of a name in the nearest scope that has it. -/
def setting? (scopes : Scopes) (scope : ScopeId) (name : String) : Option Value :=
  (scopes.lineage scope).findSome? fun above =>
    Fields.get? (scopes.look above [] Scope.settings) name

/-! ### Sources -/

/-- The source that a scope itself stores under an id in lower case. -/
def stored? (scopes : Scopes) (scope : ScopeId) (id : String) : Option Source :=
  (scopes.look scope [] Scope.sources).find? (·.id == id)

/-- The source that a scope itself stores under an id in any case. -/
def local? (scopes : Scopes) (scope : ScopeId) (id : String) : Option Source :=
  scopes.stored? scope (Unicode.lower id)

/-- The source of an id in the nearest scope that stores one. -/
def find? (scopes : Scopes) (scope : ScopeId) (id : String) : Option Source :=
  (scopes.lineage scope).findSome? fun above => scopes.local? above id

/-- The ids of the sources a scope itself stores, in ascending order. -/
def ids (scopes : Scopes) (scope : ScopeId) : List String :=
  sortIds ((scopes.look scope [] Scope.sources).map Source.id)

/-- Sources with one of them in the place of that of its id, or behind the others. -/
def putIn (source : Source) : List Source → List Source
  | [] => [source]
  | other :: rest => if other.id = source.id then source :: rest else other :: putIn source rest

/-- Stores a source in a scope, and nothing else. -/
def put (scopes : Scopes) (scope : ScopeId) (source : Source) : Scopes :=
  scopes.modify scope fun cell => { cell with sources := putIn source cell.sources }

/-- Whether what a scope stores under an id came over a bridge. -/
def isInherited (scopes : Scopes) (scope : ScopeId) (id : String) : Bool :=
  (scopes.look scope [] Scope.inherited).contains id

/-- Takes note that what a scope stores under an id came over a bridge. -/
def inherit (scopes : Scopes) (scope : ScopeId) (id : String) : Scopes :=
  if scopes.isInherited scope id then scopes
  else scopes.modify scope fun cell => { cell with inherited := id :: cell.inherited }

/-- Takes note that what a scope stores under an id is its own. -/
def own (scopes : Scopes) (scope : ScopeId) (id : String) : Scopes :=
  scopes.modify scope fun cell => { cell with inherited := cell.inherited.filter (· != id) }

/-! ### Promises -/

/-- What became of a wait. The waits in a scope that lives no more are cancelled. -/
def promiseState (scopes : Scopes) (promise : PromiseId) : PromiseState :=
  match scopes.promises.get? promise with
  | some { scope, state := .pending, .. } =>
    if scopes.isAlive scope then .pending else .cancelled
  | some { state, .. } => state
  | none => .cancelled

/-- The id a promise waits for. -/
def promisedId (scopes : Scopes) (promise : PromiseId) : String :=
  ((scopes.promises.get? promise).map Promise.id).getD ""

/-- Ends a wait. A wait ends once. -/
def resolve (scopes : Scopes) (state : PromiseState) (promise : PromiseId) : Scopes :=
  { scopes with
    promises := scopes.promises.modify promise fun cell =>
      match cell.state with
      | .pending => { cell with state }
      | _ => cell }

end Scopes

end ReactiveMarkup
