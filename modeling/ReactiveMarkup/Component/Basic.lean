import ReactiveMarkup.Component.LoadCommand
import ReactiveMarkup.Face.Command
import ReactiveMarkup.Scope.Basic

/-!
# Components

A component keeps a node up to date. It belongs to a scope, in which it is registered for the
sources it reads, and it is rendered again whenever one of them is set. What it does is given by its
behaviour: it shows a text or an attribute with bindings, unwraps a wrapper, loads data, shows the
rows of a source with faces, or runs steps of the host. A component that is rendered is busy, and
a render that is asked for while it is busy is left out, unless it allows several at a time.
-/

namespace ReactiveMarkup

/-- One thing the code of a host does. -/
inductive HostStep where
  | note (entry : List Value)
  /-- Takes note of an entry and of the id of the source that caused the render, if one did. -/
  | noteCause (entry : List Value)
  /-- Waits until a gate is open. -/
  | await (gate : String)
  /-- Lets others go first, so many times. -/
  | pause (turns : Nat)
  /-- Registers the component for sources. -/
  | subscribe (ids : List String)
  /-- Sets a source in a scope that lives. -/
  | set (scope : ScopeId) (id : String) (value : Value)
  /-- Puts a job of its own into the queue. -/
  | enqueue (steps : List HostStep)
  | close
  | fail (error : Error)
deriving Inhabited

/-- A component that runs steps of the host. -/
structure HostComponent where
  name : String
  prepare : List HostStep := []
  render : List HostStep := []
  allowsMany : Bool := false
deriving Inhabited

inductive Behaviour where
  | text (token : Token)
  | attributeText (name : String) (token : Token)
  | wrapper
  | load (command : LoadCommand)
  | faces (command : ShowCommand)
  | host (component : HostComponent)
deriving Inhabited

structure Component where
  node : NodeId
  scope : ScopeId
  priority : Priority
  behaviour : Behaviour
  /-- How many renders are under way. -/
  inFlight : Nat := 0
  disposed : Bool := false
  /-- The ids the component is registered for. -/
  triggers : List String := []
deriving Inhabited

namespace Behaviour

/-- Whether several renders may be under way. -/
def allowsMany : Behaviour → Bool
  | .host component => component.allowsMany
  | _ => false

/-- The ids of the sources that a component registers for by itself. -/
def dependencies : Behaviour → List String
  | .text token => token.dependencies
  | .attributeText _ token => token.dependencies
  | .wrapper => []
  | .load command => command.dependencies
  | .faces command => command.dependencies
  | .host _ => []

/-- The nodes that live as long as the component: templates, and what it showed last. -/
def ownNodes : Behaviour → List NodeId
  | .faces command =>
    let sections := match command.arrangement with
      | .list _ divider incomplete => divider ++ incomplete
      | _ => []
    command.faces.flatMap Face.template ++ command.layout.wrapper ++ command.layout.empty
      ++ sections ++ command.cache.slots.flatMap fun slot => slot.2.nodes
  | _ => []

/-- The behaviour after its component is disposed. -/
def forget : Behaviour → Behaviour
  | .faces command => .faces { command with cache := { command.cache with slots := [] } }
  | behaviour => behaviour

end Behaviour

namespace Component

/-- Whether a render is under way. -/
def isBusy (component : Component) : Bool := 0 < component.inFlight

/-- Whether a render that is asked for now takes place. -/
def admits (component : Component) : Bool :=
  !component.disposed && (!component.isBusy || component.behaviour.allowsMany)

end Component

end ReactiveMarkup
