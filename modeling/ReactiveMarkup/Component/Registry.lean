import ReactiveMarkup.Component.Basic

/-!
# Registries

Keywords of commands, with what they stand for. A registry may have a parent, in which the keywords
that it does not have itself are looked up. Keywords are in lower case.
-/

namespace ReactiveMarkup

/-- What a keyword stands for. -/
inductive Command where
  | load
  | faces (kind : ShowKind)
  | wrapper
  /-- A component of the host, made from the element. -/
  | host (make : NodeKind → HostComponent × Priority)

/-- The number of a registry; a parent has a smaller one than its children. -/
abbrev RegistryId := Nat

/-- Keywords with their commands, the latest ones first. -/
structure Registry where
  parent : Option RegistryId := none
  commands : List (String × Command) := []

abbrev Registries := Arena Registry

namespace Registries

/-- The commands every page knows. -/
def standard : List (String × Command) :=
  [("list", .faces .list), ("tree", .faces .tree), ("view", .faces .view), ("source", .load)]

def create (registries : Registries) (parent : Option RegistryId) : Registries × RegistryId :=
  (registries.push { parent }, registries.size)

/-- Gives a meaning to a keyword. -/
def register (registries : Registries) (registry : RegistryId) (keyword : String)
    (command : Command) : Registries :=
  registries.modify registry fun cell =>
    { cell with commands := (Unicode.lower keyword, command) :: cell.commands }

/-- The commands of a registry and of those above it, the nearest first, up to a height. -/
def commandsTo (registries : Registries) : Nat → RegistryId → List (String × Command)
  | 0, _ => []
  | height + 1, registry =>
    match registries.get? registry with
    | none => []
    | some cell =>
      cell.commands ++ match cell.parent with
        | some parent => commandsTo registries height parent
        | none => []

/-- The commands of a registry and of those above it, the nearest first. -/
def commands (registries : Registries) (registry : RegistryId) : List (String × Command) :=
  registries.commandsTo (registry + 1) registry

/-- What a keyword in any case stands for. -/
def resolve? (registries : Registries) (registry : RegistryId) (keyword : String) :
    Option Command :=
  (registries.commands registry).lookup (Unicode.lower keyword)

/-- The keywords that stand for something, in ascending order. -/
def keywords (registries : Registries) (registry : RegistryId) : List String :=
  sortIds ((registries.commands registry).map Prod.fst)

end Registries

end ReactiveMarkup
