import ReactiveMarkup.Component.Registry
import ReactiveMarkup.Page.Queue
import ReactiveMarkup.Scope.Broadcast

/-!
# Pages

Everything that a host works with: markup, scopes, components and their collections, registries,
providers, the queue, and a log of what happened. A page acts in steps; what may be suspended is
described in the modules below, and is no part of the page.

Holds decide what lives. A component lives while it is held, and so does its node; a node also lives
below a node that does. Nobody can tell dead things from things that were never there: the handlers
of a dead component do nothing, and a dead node is nobody's parent.
-/

namespace ReactiveMarkup

abbrev CollectionId := Nat

abbrev InboxId := Nat

/-- How far a collection has come. It runs once. -/
inductive CollectionState where
  | ready
  | running
  | ran
  | disposed
deriving DecidableEq, Repr, Inhabited

/-- Components that were extracted from markup, to be run together. -/
structure Collection where
  scope : ScopeId
  registry : RegistryId
  components : List ComponentId := []
  state : CollectionState := .ready
deriving Inhabited

inductive Event where
  /-- Something the host took note of. -/
  | note (entry : List Value)
  /-- A handler of the host was called. -/
  | handled (name : String) (source : Source)
  /-- A source was about to be set for a preview. -/
  | previewed (source : Source)
  /-- A component of the host was made for a keyword, in sight of these keywords. -/
  | created (name : String) (keywords : List String)
  /-- The provider of a host was asked. -/
  | requested (id : String) (parameters : Fields)
  /-- A delivery of the provider of a host was accepted, or not. -/
  | answered (accepted : Bool)
deriving Inhabited

structure Page where
  options : Options
  patterns : BindingPatterns
  markup : Markup := .empty
  scopes : Scopes := {}
  components : Arena Component := .empty
  collections : Arena Collection := .empty
  registries : Registries := .empty
  providers : Providers := {}
  queue : Queue := {}
  gates : Gates := {}
  /-- What was delivered to those who asked a provider on their own. -/
  inboxes : Arena (List ResultSets) := .empty
  /-- The collections of the mounted fragments. -/
  mounts : List CollectionId := []
  /-- Every hold on a node, a component, a collection. -/
  heldNodes : List NodeId := []
  heldComponents : List ComponentId := []
  heldCollections : List CollectionId := []
  /-- The number of the next job under way. -/
  flights : FlightId := 0
  log : List Event := []

namespace Page

/-- The scope every page begins with. -/
def rootScope : ScopeId := 0

/-- The registry every page begins with. -/
def rootRegistry : RegistryId := 0

/-- A page with a root scope, which is held, and the standard commands. -/
def ofOptions (options : Options) : Except Error Page := do
  let patterns ← options.patterns
  let (scopes, root) := Scopes.create {} none options.settings
  let registries := Arena.empty.push { commands := Registries.standard }
  return { options, patterns, scopes := scopes.hold root, registries }

/-- Adds an entry to the log. -/
def record (page : Page) (event : Event) : Page := { page with log := page.log ++ [event] }

def changeMarkup (page : Page) (f : Markup → Markup) : Page := { page with markup := f page.markup }

def changeComponent (page : Page) (component : ComponentId) (f : Component → Component) : Page :=
  { page with components := page.components.modify component f }

def changeCollection (page : Page) (collection : CollectionId) (f : Collection → Collection) :
    Page :=
  { page with collections := page.collections.modify collection f }

/-! ### Holds -/

/-- Takes a hold on a scope. -/
def holdScope (page : Page) (scope : ScopeId) : Page :=
  { page with scopes := page.scopes.hold scope }

/-- Gives a hold on a scope back. -/
def releaseScope (page : Page) (scope : ScopeId) : Page :=
  { page with scopes := page.scopes.release scope }

/-- Takes a hold on a node. -/
def holdNode (page : Page) (node : NodeId) : Page :=
  { page with heldNodes := node :: page.heldNodes }

/-- Gives a hold on a node back. -/
def releaseNode (page : Page) (node : NodeId) : Page :=
  { page with heldNodes := page.heldNodes.erase node }

/-- Takes a hold on a component. -/
def holdComponent (page : Page) (component : ComponentId) : Page :=
  { page with heldComponents := component :: page.heldComponents }

/-- Gives a hold on a component back. -/
def releaseComponent (page : Page) (component : ComponentId) : Page :=
  { page with heldComponents := page.heldComponents.erase component }

def isComponentAlive (page : Page) (component : ComponentId) : Bool :=
  page.heldComponents.contains component

/-- A node and the nodes above it, up to a height. -/
def nodesAbove (markup : Markup) : Nat → NodeId → List NodeId
  | 0, _ => []
  | height + 1, node =>
    node :: match markup.parent? node with
      | some parent => nodesAbove markup height parent
      | none => []

/-- The nodes that are held, by hosts and by living components. -/
def holdingNodes (page : Page) : List NodeId :=
  page.heldNodes ++ page.heldComponents.flatMap fun id =>
    match page.components.get? id with
    | some component => component.node :: component.behaviour.ownNodes
    | none => []

def isNodeAlive (page : Page) (node : NodeId) : Bool :=
  let holding := page.holdingNodes
  (nodesAbove page.markup page.markup.size node).any (holding.contains ·)

/-- Takes a hold on a collection. -/
def holdCollection (page : Page) (collection : CollectionId) : Page :=
  { page with heldCollections := collection :: page.heldCollections }

/-- Gives a hold on a collection back. With the last one the collection lets go of its scope and its
components. -/
def releaseCollection (page : Page) (collection : CollectionId) : Page :=
  let released := { page with heldCollections := page.heldCollections.erase collection }
  if released.heldCollections.contains collection then released
  else match page.collections.get? collection with
    | some cell => (cell.components.foldl releaseComponent released).releaseScope cell.scope
    | none => released

/-! ### Sources -/

/-- Puts a job into the queue. A job to render a component holds it. -/
def enqueue (page : Page) (job : Job) : Page :=
  let pushed := { page with queue := page.queue.push job }
  match job with
  | .render component _ => if page.queue.closed then pushed else pushed.holdComponent component
  | .host _ => pushed

/-- Lets go of what a job holds. -/
def releaseJob (page : Page) : Job → Page
  | .render component _ => page.releaseComponent component
  | .host _ => page

def closeQueue (page : Page) : Page :=
  page.queue.jobs.foldl releaseJob { page with queue := page.queue.close }

/-- Attends to a call of a handler: a host's goes into the log, a component's into the queue. -/
def attendTo (page : Page) : Delivery → Page
  | .handled handler source =>
    page.record (.handled (((page.scopes.hosts.get? handler).map HostHandler.name).getD "") source)
  | .triggered component source =>
    if page.isComponentAlive component then page.enqueue (.render component source) else page

/-- Attends to all calls of handlers. -/
def attend (page : Page) : Page :=
  page.scopes.deliveries.foldl attendTo
    { page with scopes := { page.scopes with deliveries := [] } }

/-- Changes the scopes and attends to the calls of handlers that come with it. -/
def changeScopes {α : Type} (page : Page) (f : Scopes → Scopes × α) : Page × α :=
  let (scopes, result) := f page.scopes
  ({ page with scopes }.attend, result)

/-- Sets a source in a scope and gives the merged one. -/
def setSource (page : Page) (scope : ScopeId) (source : Source) : Page × Source :=
  page.changeScopes (·.set scope source)

/-- Sets a source as a preview, which is noted first. -/
def previewSource (page : Page) (scope : ScopeId) (source : Source) : Page × Source :=
  (page.record (.previewed source)).setSource scope source

/-! ### Components -/

/-- Registers a component for sources; gives the number of ids it was not registered for yet. -/
def subscribe (page : Page) (id : ComponentId) (ids : List String) : Page × Nat :=
  match page.components.get? id with
  | none => (page, 0)
  | some component =>
    if component.disposed || !page.scopes.isAlive component.scope then (page, 0)
    else
      let (scopes, triggers) := ids.foldl
        (fun (state : Scopes × List String) name =>
          let (scopes, triggers) := state
          let name := Unicode.lower name
          if triggers.contains name then (scopes, triggers)
          else ((scopes.addHandler component.scope name (.trigger id)).1, triggers ++ [name]))
        (page.scopes, component.triggers)
      ({ page with scopes }.changeComponent id fun cell => { cell with triggers },
        triggers.length - component.triggers.length)

/-- Disposes a component: it is registered for nothing any more and renders no more. -/
def disposeComponent (page : Page) (id : ComponentId) : Page :=
  match page.components.get? id with
  | none => page
  | some component =>
    let scopes :=
      if component.disposed || !page.scopes.isAlive component.scope then page.scopes
      else component.triggers.foldl
        (fun scopes name => (scopes.removeHandler component.scope name (.trigger id)).1) page.scopes
    { page with scopes }.changeComponent id fun cell =>
      { cell with triggers := [], disposed := true, behaviour := cell.behaviour.forget }

/-- Disposes a collection and its components. -/
def disposeCollection (page : Page) (id : CollectionId) : Page :=
  match page.collections.get? id with
  | none => page
  | some { state := .disposed, .. } => page
  | some collection =>
    let disposed := collection.components.foldl disposeComponent
      (page.changeCollection id fun cell => { cell with state := .disposed, components := [] })
    collection.components.foldl releaseComponent disposed

/-- Disposes all mounted fragments, closes the queue and disposes the root scope. -/
def dispose (page : Page) : Page :=
  let disposed := page.mounts.foldl disposeCollection { page with mounts := [] }
  let released := page.mounts.foldl releaseCollection disposed
  let closed := released.closeQueue
  { closed with scopes := closed.scopes.dispose rootScope }

end Page

end ReactiveMarkup
