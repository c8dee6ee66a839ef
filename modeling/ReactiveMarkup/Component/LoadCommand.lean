import ReactiveMarkup.Binding.Compile
import ReactiveMarkup.Component.Priority
import ReactiveMarkup.Component.Provider
import ReactiveMarkup.Markup.Reading

/-!
# Load commands

A command that asks a provider for result sets and publishes each of them under the name of a
member. All attributes that have no meaning of their own are parameters of the request. The members
are children of the element and are taken out of it while they are read.
-/

namespace ReactiveMarkup

/-- A result set that is published. -/
structure Member where
  name : String
  options : SourceOptions
deriving Inhabited

/-- A command that loads and publishes sources. -/
structure LoadCommand where
  name : String
  provider : ProviderId
  members : List Member
  parameters : List (String × Token)
  /-- How often a request is made at most. -/
  retries : Nat
deriving Inhabited

namespace Member

/-- The merge type of a word. -/
def readMergeType (member word : String) : Except Error MergeType :=
  if word = "" || word = "replace" then .ok .replace
  else if word = "append" then .ok .append
  else .error (.invalidMarkup (.badMergeType member word))

/-- Reads a member from its element. -/
def read (kind : NodeKind) : Except Error Member :=
  match kind.attribute? "name" with
  | none => .error (.missingAttribute "member" "name")
  | some name =>
    if Text.isBlank name then .error (.missingAttribute "member" "name")
    else do
      let mergeType ← readMergeType name (Text.trim ((kind.attribute? "merge-type").getD ""))
      let keyField := kind.attribute? "key-field"
      let statusField := kind.attribute? "status-field"
      return { name := Text.trim name, options := { mergeType, keyField, statusField } }

end Member

namespace LoadCommand

/-- How often a request is made when the command does not say so. -/
def defaultRetries : Nat := 3

/-- Attributes that are no parameters. -/
def ownAttributes : List String := ["name", "provider", "retry", "priority"]

/-- How often a request is made at most. -/
def readRetries (kind : NodeKind) : Except Error Nat :=
  match kind.attribute? "retry" with
  | none => .ok defaultRetries
  | some text =>
    match Decimal.readNat 0xffffffffffffffff (Text.trimChars text.toList) with
    | some n => .ok n
    | none => .error (.invalidMarkup (.badRetry text))

/-- Reads members one after another; each is taken out of the markup, also one that is wrong. -/
def readMembers : List NodeId → Reading (List Member)
  | [] => return []
  | id :: rest => do
    let member := Member.read ((← get).kind id)
    modify (·.detach id)
    let member ← Reading.ofExcept member
    let members ← readMembers rest
    return member :: members

/-- Compiles the parameters among some attributes. -/
def readParameters (commandAttribute : String) (patterns : BindingPatterns) :
    List (String × String) → Except Error (List (String × Token))
  | [] => .ok []
  | (name, text) :: rest =>
    let lowered := Unicode.lower name
    if lowered = Unicode.lower commandAttribute || ownAttributes.contains lowered then
      readParameters commandAttribute patterns rest
    else do
      let token ← Binding.compile patterns text
      let parameters ← readParameters commandAttribute patterns rest
      return (name, token) :: parameters

/-- Reads a command from its element. -/
def read (options : Options) (patterns : BindingPatterns) (providers : Providers) (id : NodeId) :
    Reading (LoadCommand × Priority) := do
  let kind := (← get).kind id
  match kind.filledAttribute? "name" with
  | none => throw (.missingAttribute (kind.tag?.getD "") "name")
  | some name =>
    let provider ← Reading.ofExcept
      (providers.find ((kind.attribute? "provider").getD Providers.defaultName))
    let retries ← Reading.ofExcept (readRetries kind)
    let priority := ((kind.attribute? "priority").bind Priority.ofWord?).getD .high
    let markup ← get
    let members ← readMembers ((markup.children id).filter (markup.hasTag "member"))
    let parameters ← Reading.ofExcept
      (readParameters options.commandAttribute patterns kind.attributes)
    return ({ name := Unicode.lower name, provider, members, parameters, retries }, priority)

/-- The ids of the sources the parameters read. -/
def dependencies (command : LoadCommand) : List String :=
  command.parameters.flatMap fun (_, token) => token.dependencies

/-- The parameters of a request over the sources there are. -/
def resolveParameters (command : LoadCommand) (find : String → Option Source) : Fields :=
  Fields.ofList (command.parameters.map fun (name, token) => (name, token.value find))

/-- The sources that result sets are published as. -/
def sources (command : LoadCommand) (sets : ResultSets) : List Source :=
  (command.members.zip sets).map fun (member, rows) =>
    Source.make (command.name ++ "." ++ member.name) rows member.options

end LoadCommand

end ReactiveMarkup
