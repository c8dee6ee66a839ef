import ReactiveMarkup.Page.Basic

/-!
# What a host does with a page

The operations of a host that are over at once. Everything that is made for a host is held by it
until it gives the hold back.
-/

namespace ReactiveMarkup.Page

/-- A new scope below another one, which is held. -/
def createScope (page : Page) (parent : ScopeId) (settings : Fields := []) : Page × ScopeId :=
  let (scopes, scope) := page.scopes.create (some parent) settings
  ({ page with scopes := scopes.hold scope }, scope)

def disposeScope (page : Page) (scope : ScopeId) : Page :=
  { page with scopes := page.scopes.dispose scope }

/-- Removes all handlers of a scope and cancels its waits. -/
def clearScope (page : Page) (scope : ScopeId) : Page :=
  { page with scopes := page.scopes.clear scope }

/-- Forwards a source to a scope as if it came from the parent. -/
def receiveSource (page : Page) (scope : ScopeId) (source : Source) : Page :=
  (page.changeScopes fun scopes => (scopes.receive scope source, ())).1

/-- Stores a source in a scope as it is and makes it known there. -/
def putSource (page : Page) (scope : ScopeId) (source : Source) : Page :=
  (page.changeScopes fun scopes => (scopes.putAndAnnounce scope source, ())).1

/-- A new handler of the host. -/
def createHandler (page : Page) (name : String) (actions : List HandlerAction) :
    Page × HandlerId :=
  ({ page with
      scopes := { page.scopes with hosts := page.scopes.hosts.push { name, actions } } },
    page.scopes.hosts.size)

/-- Registers a handler of the host in a scope, without bridges if it is for that scope only. -/
def addHandler (page : Page) (scope : ScopeId) (id : String) (handler : HandlerId)
    (onlyHere : Bool := false) : Page × Bool :=
  page.changeScopes fun scopes =>
    if onlyHere then scopes.addLocalHandler scope id (.host handler)
    else scopes.addHandler scope id (.host handler)

/-- Removes a handler of the host from a scope. -/
def removeHandler (page : Page) (scope : ScopeId) (id : String) (handler : HandlerId) :
    Page × Bool :=
  page.changeScopes fun scopes => scopes.removeHandler scope id (.host handler)

/-- Opens a gate for good. Those that wait at it go on when they are polled. -/
def openGate (page : Page) (gate : String) : Page :=
  { page with gates := page.gates.openGate gate }

/-- A new registry below another one. -/
def createRegistry (page : Page) (parent : RegistryId) : Page × RegistryId :=
  let (registries, registry) := page.registries.create (some parent)
  ({ page with registries }, registry)

/-- Gives a meaning to a keyword. -/
def register (page : Page) (registry : RegistryId) (keyword : String) (command : Command) : Page :=
  { page with registries := page.registries.register registry keyword command }

/-- Gives a name to a new provider. -/
def registerProvider (page : Page) (name : String) (provider : Provider) : Page :=
  { page with providers := page.providers.register name provider }

/-- A new component of the host at a node, which is held. -/
def createComponent (page : Page) (scope : ScopeId) (node : NodeId) (host : HostComponent)
    (priority : Priority) : Page × ComponentId :=
  let id := page.components.size
  let component := { node, scope, priority, behaviour := .host host }
  ({ page with components := page.components.push component }.holdComponent id, id)

def createInbox (page : Page) : Page × InboxId :=
  ({ page with inboxes := page.inboxes.push [] }, page.inboxes.size)

/-- The result sets in an inbox. -/
def inbox (page : Page) (id : InboxId) : List ResultSets := (page.inboxes.get? id).getD []

/-- The components of a collection. -/
def members (page : Page) (collection : CollectionId) : List ComponentId :=
  ((page.collections.get? collection).map Collection.components).getD []

/-- Takes the entries of the log. -/
def takeLog (page : Page) : Page × List Event := ({ page with log := [] }, page.log)

end ReactiveMarkup.Page
