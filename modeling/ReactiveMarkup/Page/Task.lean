import ReactiveMarkup.Page.Basic

/-!
# Tasks

Work on a page that may stop in the middle: a component that prepares itself or renders, a job of
the host, a request to a provider. A task runs until it is finished or has to wait, for its turn or
at a gate; what is left of it is plain data, and resuming it goes on with that. Texts, attributes,
wrappers and faces are rendered at once and never wait.

A render is counted in its component from the moment it starts until it is finished or its task is
dropped, so a failure leaves no component busy.
-/

namespace ReactiveMarkup

/-- What work waits for. -/
inductive Suspension where
  /-- Its next turn: it can go on at once. -/
  | turn
  /-- A gate to be opened. -/
  | gate (name : String)
  /-- Something else that has to happen outside. -/
  | call
deriving DecidableEq, Repr, Inhabited

/-- How far work has come: it is finished, or it waits with something left. -/
inductive Progress (α : Type) where
  | finished (result : Except Error Unit)
  | suspended (on : Suspension) (rest : α)

namespace Progress

/-- Changes what is left. -/
def map {α β : Type} (f : α → β) : Progress α → Progress β
  | .finished result => .finished result
  | .suspended on rest => .suspended on (f rest)

def done {α : Type} : Progress α := .finished (.ok ())

end Progress

/-- Who takes the deliveries of a provider. -/
inductive Receiver where
  /-- A command, which publishes them in a scope. -/
  | command (component : ComponentId) (scope : ScopeId)
  /-- An inbox; the flag is its answer to every delivery. -/
  | inbox (id : InboxId) (keep : Bool)
deriving Inhabited

/-- A request to a provider that is under way. -/
structure Load where
  receiver : Receiver
  provider : ProviderId
  id : String
  parameters : Fields := []
  /-- The attempts of a request that is repeated when it fails. -/
  attempts : Option Attempts := none
  /-- What was wrong with a delivery. -/
  fault : Option Error := none
  /-- What is left of the answer. -/
  rest : List ProviderStep := []
deriving Inhabited

/-- What is left of a task. -/
inductive Work where
  /-- Steps of the host, in a render with the source that caused it. -/
  | steps (cause : Option Source) (rest : List HostStep)
  | load (load : Load)
deriving Inhabited

/-- A task that waits. -/
structure Task where
  /-- The component it works for; the task holds it. -/
  component : Option ComponentId := none
  /-- Whether it is a render, and counted as one. -/
  renders : Bool := false
  work : Work
deriving Inhabited

namespace Page

/-! ### Steps of the host -/

/-- Runs steps of the host for a component or a job. -/
def runSteps (owner : Option ComponentId) (cause : Option Source) :
    Page → List HostStep → Page × Progress (List HostStep)
  | page, [] => (page, .done)
  | page, .note entry :: rest => runSteps owner cause (page.record (.note entry)) rest
  | page, .noteCause entry :: rest =>
    let id := (cause.map fun source => Value.string source.id).getD .null
    runSteps owner cause (page.record (.note (entry ++ [id]))) rest
  | page, .await gate :: rest =>
    if page.gates.isOpen gate then runSteps owner cause page rest
    else (page, .suspended (.gate gate) (.await gate :: rest))
  | page, .pause 0 :: rest => runSteps owner cause page rest
  | page, .pause (turns + 1) :: rest => (page, .suspended .turn (.pause turns :: rest))
  | page, .subscribe ids :: rest =>
    match owner with
    | some component => runSteps owner cause (page.subscribe component ids).1 rest
    | none => runSteps owner cause page rest
  | page, .set scope id value :: rest =>
    if page.scopes.isAlive scope then
      runSteps owner cause (page.setSource scope (Source.ofValue id value)).1 rest
    else runSteps owner cause page rest
  | page, .enqueue steps :: rest => runSteps owner cause (page.enqueue (.host steps)) rest
  | page, .close :: rest => runSteps owner cause page.closeQueue rest
  | page, .fail error :: _ => (page, .finished (.error error))

/-! ### Requests to providers -/

/-- Asks a provider once more. -/
def ask (page : Page) (load : Load) : Page × Load :=
  match page.providers.providers.get? load.provider with
  | none => (page, { load with rest := [] })
  | some provider =>
    let (provider, steps) := provider.answer load.id
    ({ page with
        providers := { page.providers with
          providers := page.providers.providers.modify load.provider fun _ => provider } },
      { load with rest := steps })

def publish (page : Page) (scope : ScopeId) (sources : List Source) : Page :=
  sources.foldl (fun page source => (page.setSource scope source).1) page

/-- The load command of a component. -/
def loadCommand? (page : Page) (id : ComponentId) : Option (Component × LoadCommand) :=
  match page.components.get? id with
  | some component =>
    match component.behaviour with
    | .load command => some (component, command)
    | _ => none
  | none => none

/-- Hands result sets to the receiver of a request; the flag is its answer. A command that is
disposed takes none, and none it has not a member for each of. -/
def accept (page : Page) (load : Load) (sets : ResultSets) : Page × Load × Bool :=
  match load.receiver with
  | .inbox id keep =>
    ({ page with inboxes := page.inboxes.modify id (· ++ [sets]) }, load, keep)
  | .command id scope =>
    match page.loadCommand? id with
    | none => (page, load, false)
    | some (component, command) =>
      if component.disposed then (page, load, false)
      else if sets.length != command.members.length then
        (page,
          { load with
            fault := some (.memberCount command.name command.members.length sets.length) },
          false)
      else (page.publish scope (command.sources sets), load, true)

/-- Runs the steps of an answer. -/
def runAnswer : Page → Load → List ProviderStep → Page × Load × Progress (List ProviderStep)
  | page, load, [] => (page, load, .done)
  | page, load, .report :: rest =>
    runAnswer (page.record (.requested load.id load.parameters)) load rest
  | page, load, .await gate :: rest =>
    if page.gates.isOpen gate then runAnswer page load rest
    else (page, load, .suspended (.gate gate) (.await gate :: rest))
  | page, load, .pause 0 :: rest => runAnswer page load rest
  | page, load, .pause (turns + 1) :: rest =>
    (page, load, .suspended .turn (.pause turns :: rest))
  | page, load, .deliver sets reported :: rest =>
    let (page, load, accepted) := page.accept load sets
    let page := if reported then page.record (.answered accepted) else page
    if accepted then runAnswer page load rest
    else (page, load, .finished (ProviderStep.resultAfterRefusal rest))
  | page, load, .insist sets reported :: rest =>
    let (page, load, accepted) := page.accept load sets
    runAnswer (if reported then page.record (.answered accepted) else page) load rest
  | page, load, .fail error :: _ => (page, load, .finished (.error error))

/-- Goes on with a request, and makes it again after a failure while attempts are left; no more of
them than the first argument says. A request that succeeds in the end fails if a delivery had the
wrong number of result sets. -/
def runLoad : Nat → Page → Load → Page × Progress Load
  | more, page, load =>
    match page.runAnswer load load.rest with
    | (page, load, .suspended on rest) => (page, .suspended on { load with rest })
    | (page, load, .finished (.ok _)) =>
      (page, .finished (match load.fault with | some fault => .error fault | none => .ok ()))
    | (page, load, .finished (.error failure)) =>
      match load.attempts with
      | none => (page, .finished (.error failure))
      | some attempts =>
        match attempts.afterFailure failure, more with
        | .error final, _ => (page, .finished (.error final))
        | .ok _, 0 => (page, .finished (.error failure))
        | .ok attempts, more + 1 =>
          let (page, load) := page.ask { load with attempts := some attempts }
          runLoad more page load

/-- Lets go of what a receiver holds: a command holds its scope until its request is over. -/
def releaseReceiver (page : Page) : Receiver → Page
  | .command _ scope => page.releaseScope scope
  | .inbox _ _ => page

def continueLoad (page : Page) (load : Load) : Page × Progress Work :=
  match page.runLoad ((load.attempts.map Attempts.limit).getD 0) load with
  | (page, .finished result) => (page.releaseReceiver load.receiver, .finished result)
  | (page, .suspended on load) => (page, .suspended on (.load load))

/-! ### Renders -/

/-- Renders what is rendered at once. In a scope that lives no more nothing changes. -/
def renderNow (page : Page) (id : ComponentId) (component : Component) : Page × Except Error Unit :=
  let find := page.scopes.find? component.scope
  let node := component.node
  match component.behaviour with
  | .text token =>
    if page.scopes.isAlive component.scope then
      (page.changeMarkup (·.setKind node (NodeKind.setContent (token.text find))), .ok ())
    else (page, .ok ())
  | .attributeText name token =>
    if page.scopes.isAlive component.scope then
      (page.changeMarkup (·.setKind node (NodeKind.setAttribute name (token.text find))), .ok ())
    else (page, .ok ())
  | .wrapper =>
    match page.markup.parent? node with
    | some parent =>
      if page.isNodeAlive parent then (page.changeMarkup (·.unwrap parent node), .ok ())
      else (page, .ok ())
    | none => (page, .ok ())
  | .faces command =>
    if page.scopes.isAlive component.scope then
      match find command.sourceId with
      | none => (page, .ok ())
      | some source =>
        match command.refresh find page.patterns.row page.markup source with
        | .error error => (page, .error error)
        | .ok (markup, command, output) =>
          ({ page with markup := markup.replaceChildren node output }.changeComponent id fun cell =>
            { cell with behaviour := .faces command }, .ok ())
    else (page, .ok ())
  | .load _ => (page, .ok ())
  | .host _ => (page, .ok ())

/-- Begins the work of a render. -/
def beginRender (page : Page) (id : ComponentId) (component : Component) (cause : Option Source) :
    Page × Progress Work :=
  match component.behaviour with
  | .host host =>
    let (page, progress) := page.runSteps (some id) cause host.render
    (page, progress.map (.steps cause))
  | .load command =>
    if page.scopes.isAlive component.scope then
      let (page, load) := (page.holdScope component.scope).ask {
        receiver := .command id component.scope
        provider := command.provider
        id := command.name
        parameters := command.resolveParameters (page.scopes.find? component.scope)
        attempts := some (Attempts.ofLimit command.retries) }
      page.continueLoad load
    else (page, .done)
  | _ =>
    let (page, result) := page.renderNow id component
    (page, .finished result)

/-! ### Tasks -/

/-- Lets go of what a task holds, and ends its render. -/
def releaseTask (page : Page) (component : Option ComponentId) (renders : Bool) : Page :=
  match component with
  | none => page
  | some id =>
    let counted :=
      if renders then
        page.changeComponent id fun cell => { cell with inFlight := cell.inFlight - 1 }
      else page
    counted.releaseComponent id

/-- Ends a task whose work is finished, or puts it together from what is left. -/
def closeTask (page : Page) (component : Option ComponentId) (renders : Bool) :
    Progress Work → Page × Progress Task
  | .finished result => (page.releaseTask component renders, .finished result)
  | .suspended on work => (page, .suspended on { component, renders, work })

/-- Renders a component, unless it is disposed or busy. -/
def render (page : Page) (id : ComponentId) (cause : Option Source) : Page × Progress Task :=
  match page.components.get? id with
  | none => (page, .done)
  | some component =>
    if component.admits then
      let entered := (page.holdComponent id).changeComponent id fun cell =>
        { cell with inFlight := cell.inFlight + 1 }
      let (page, progress) := entered.beginRender id component cause
      page.closeTask (some id) true progress
    else (page, .done)

/-- Prepares a component: it registers for the sources it reads. -/
def prepare (page : Page) (id : ComponentId) : Page × Progress Task :=
  match page.components.get? id with
  | none => (page, .done)
  | some component =>
    match component.behaviour with
    | .host host =>
      let (page, progress) := (page.holdComponent id).runSteps (some id) none host.prepare
      page.closeTask (some id) false (progress.map (.steps none))
    | behaviour => ((page.subscribe id behaviour.dependencies).1, .done)

/-- Asks a provider on behalf of an inbox. -/
def load (page : Page) (provider : ProviderId) (id : String) (inbox : InboxId) (keep : Bool) :
    Page × Progress Task :=
  let (page, load) := page.ask { receiver := .inbox inbox keep, provider, id }
  let (page, progress) := page.continueLoad load
  page.closeTask none false progress

/-- Begins a job of the queue. -/
def beginJob (page : Page) : Job → Page × Progress Task
  | .render id cause =>
    let (page, progress) := page.render id (some cause)
    (page.releaseComponent id, progress)
  | .host steps =>
    let (page, progress) := page.runSteps none none steps
    page.closeTask none false (progress.map (.steps none))

def resume (page : Page) (task : Task) : Page × Progress Task :=
  match task.work with
  | .steps cause rest =>
    let (page, progress) := page.runSteps task.component cause rest
    page.closeTask task.component task.renders (progress.map (.steps cause))
  | .load load =>
    let (page, progress) := page.continueLoad load
    page.closeTask task.component task.renders progress

/-- Drops a task: what it has not done yet is never done. -/
def dropTask (page : Page) (task : Task) : Page :=
  let released := match task.work with
    | .load load => page.releaseReceiver load.receiver
    | .steps .. => page
  released.releaseTask task.component task.renders

end Page

end ReactiveMarkup
