import ReactiveMarkup.Page.Basic

/-!
# Extraction

Going over markup and making components: one for every text and every attribute with a binding, for
every element with a command, and for every wrapper. The content of a command belongs to the command
and is not gone over. An error stops the extraction, and none of its components is kept.
-/

namespace ReactiveMarkup

/-- Making components: an error leaves the page as far as it was changed. -/
abbrev Extraction := ExceptT Error (StateM Page)

namespace Extraction

/-- A result that does not depend on the page. -/
def ofExcept {α : Type} : Except Error α → Extraction α
  | .ok result => pure result
  | .error error => throw error

/-- Reads from the markup of the page. -/
def reading {α : Type} (reading : Reading α) : Extraction α := do
  let page ← get
  let (result, markup) := reading.run page.markup
  set { page with markup }
  ofExcept result

def make (component : Component) : Extraction ComponentId :=
  modifyGet fun page =>
    (page.components.size, { page with components := page.components.push component })

/-- Makes the component of an element with a command. -/
def command (scope : ScopeId) (registry : RegistryId) (keyword : String) (node : NodeId) :
    Extraction ComponentId := do
  let page ← get
  match page.registries.resolve? registry keyword with
  | none => throw (.unknownCommand keyword)
  | some .load =>
    let (command, priority) ←
      reading (LoadCommand.read page.options page.patterns page.providers node)
    make { node, scope, priority, behaviour := .load command }
  | some (.faces kind) =>
    let (command, priority) ← reading (ShowCommand.read page.patterns kind node)
    make { node, scope, priority, behaviour := .faces command }
  | some .wrapper => make { node, scope, priority := .low, behaviour := .wrapper }
  | some (.host makeHost) =>
    let (host, priority) := makeHost (page.markup.kind node)
    modify (·.record (.created host.name (page.registries.keywords registry)))
    make { node, scope, priority, behaviour := .host host }

/-- Makes the component of a text, if it has a binding. -/
def text (scope : ScopeId) (node : NodeId) (content : String) : Extraction (List ComponentId) := do
  let patterns := (← get).patterns
  if patterns.isBinding content then
    let token ← ofExcept (Binding.compile patterns content)
    return [← make { node, scope, priority := .normal, behaviour := .text token }]
  else return []

/-- Makes the components of the attributes with a binding. -/
def attributes (scope : ScopeId) (node : NodeId) :
    List (String × String) → Extraction (List ComponentId)
  | [] => return []
  | (name, value) :: rest => do
    let patterns := (← get).patterns
    if patterns.isBinding value then
      let token ← ofExcept (Binding.compile patterns value)
      let made ← make
        { node, scope, priority := .normal, behaviour := .attributeText name token }
      return made :: (← attributes scope node rest)
    else attributes scope node rest

/-- Makes the component of a wrapper. -/
def wrapper (scope : ScopeId) (node : NodeId) (tag : String) : Extraction (List ComponentId) := do
  if (← get).options.passthroughTags.any (Unicode.sameName · tag) then
    return [← make { node, scope, priority := .low, behaviour := .wrapper }]
  else return []

/-- Makes the components of a node and of what is below it, down to a depth. -/
def nodeTo (scope : ScopeId) (registry : RegistryId) : Nat → NodeId → Extraction (List ComponentId)
  | 0, _ => return []
  | depth + 1, node => do
    let page ← get
    match page.markup.kind node with
    | .text content => text scope node content
    | .element tag entries =>
      match entries.find? fun entry => Unicode.sameName entry.1 page.options.commandAttribute with
      | some (_, value) => return [← command scope registry (Text.trim value) node]
      | none =>
        let bound ← attributes scope node entries
        let wrapping ← wrapper scope node tag
        let inner ← (page.markup.children node).mapM (nodeTo scope registry depth)
        return bound ++ wrapping ++ inner.flatten
    | .comment _ => return []
    | .anchor _ => return []

/-- Makes the components of some nodes and of what is below them. -/
def nodes (scope : ScopeId) (registry : RegistryId) (roots : List NodeId) :
    Extraction (List ComponentId) := do
  let depth := (← get).markup.size
  return (← roots.mapM (nodeTo scope registry depth)).flatten

end Extraction

namespace Page

/-- Makes the component of a command and takes a hold on it. -/
def createCommand (page : Page) (scope : ScopeId) (registry : RegistryId) (keyword : String)
    (node : NodeId) : Page × Except Error ComponentId :=
  match (Extraction.command scope registry keyword node).run page with
  | (.ok component, page) => (page.holdComponent component, .ok component)
  | (.error error, page) => (page, .error error)

/-- A new collection, which is held and holds its scope. -/
def createCollection (page : Page) (scope : ScopeId) (registry : RegistryId) :
    Page × CollectionId :=
  let id := page.collections.size
  (({ page with collections := page.collections.push { scope, registry } }.holdScope
    scope).holdCollection id, id)

/-- Extracts the components of some nodes into a collection; gives their number. -/
def extract (page : Page) (id : CollectionId) (roots : List NodeId) : Page × Except Error Nat :=
  match page.collections.get? id with
  | none => (page, .ok 0)
  | some collection =>
    match (Extraction.nodes collection.scope collection.registry roots).run page with
    | (.error error, page) => (page, .error error)
    | (.ok found, page) =>
      (found.foldl holdComponent (page.changeCollection id fun cell =>
        { cell with components := cell.components ++ found }), .ok found.length)

end Page

end ReactiveMarkup
