import ReactiveMarkup.Page.Drain
import ReactiveMarkup.Page.Run

/-!
# Activities

What a host can begin and has to drive on: waiting for a source, evaluating a token that may wait,
preparing or rendering a component, asking a provider, running a collection, mounting a fragment,
draining the queue, and working the queue off until it is closed. An activity goes on only when it
is polled. It holds what it works on, and dropping it ends what it had under way.
-/

namespace ReactiveMarkup

/-- What an activity ends with. -/
inductive Answer where
  | nothing
  | source (source : Source)
  | value (value : Value)
  | number (n : Nat)
deriving Inhabited

/-- Working the queue off until it is closed: draining it, or sleeping between two drains. -/
inductive Service where
  | draining (drain : Drain)
  | sleeping (ticket : Ticket)
deriving Inhabited

/-- Something a host drives on. -/
inductive Activity where
  | wait (promise : PromiseId)
  /-- An evaluation in a scope that waits for a source to go on with. -/
  | evaluate (scope : ScopeId) (promise : PromiseId) (next : Option Source → Query Value)
  | task (task : Task)
  /-- Asking a provider on behalf of a scope. -/
  | load (scope : ScopeId) (task : Task)
  | run (run : Run)
  | mount (mount : Mount)
  | drain (drain : Drain)
  | serve (service : Service)

/-- How far an activity has come. -/
inductive Stage where
  | finished (result : Except Error Answer)
  /-- It waits; with the flag it can go on at once. -/
  | waiting (awake : Bool) (activity : Activity)

/-- The stage of work that ends with an answer. -/
def Stage.ofProgress {α : Type} (answer : Answer) (activity : α → Activity) : Progress α → Stage
  | .finished (.ok _) => .finished (.ok answer)
  | .finished (.error error) => .finished (.error error)
  | .suspended on rest => .waiting (on == .turn) (activity rest)

namespace Page

/-- The stage of work on a page that ends with nothing but an error. -/
def stageOf {α : Type} (activity : α → Activity) : Page × Progress α → Page × Stage
  | (page, progress) => (page, .ofProgress .nothing activity progress)

/-! ### Evaluations -/

/-- Evaluates as far as sources are there. A source that is missing and worth waiting for is waited
for, if the evaluation may wait and the source is not in a reserved namespace. -/
def evaluateQuery (scope : ScopeId) (wait : Bool) : Page → Query Value → Page × Stage
  | page, .done value => (page.releaseScope scope, .finished (.ok (.value value)))
  | page, .lookup id mayWait next =>
    match page.scopes.find? scope id with
    | some source => evaluateQuery scope wait page (next (some source))
    | none =>
      if wait && mayWait && !page.options.isReserved id then
        match page.scopes.wait scope id with
        | (_, none) => (page.releaseScope scope, .finished (.error .scopeDisposed))
        | (scopes, some promise) =>
          ({ page with scopes }, .waiting false (.evaluate scope promise next))
      else evaluateQuery scope wait page (next none)

def startEvaluation (page : Page) (scope : ScopeId) (wait : Bool) (token : Token) : Page × Stage :=
  (page.holdScope scope).evaluateQuery scope wait token.ask

/-- Begins to wait for the next source of an id in a scope. -/
def startWait (page : Page) (scope : ScopeId) (id : String) : Page × Stage :=
  match page.scopes.wait scope id with
  | (_, none) => (page, .finished (.error .scopeDisposed))
  | (scopes, some promise) => ({ page with scopes }, .waiting false (.wait promise))

/-! ### Work of components and fragments -/

def startPrepare (page : Page) (component : ComponentId) : Page × Stage :=
  stageOf .task (page.prepare component)

def startRender (page : Page) (component : ComponentId) (cause : Option Source) : Page × Stage :=
  stageOf .task (page.render component cause)

/-- The stage of asking a provider; the scope is held until the answer is there. -/
def stageOfLoad (scope : ScopeId) : Page × Progress Task → Page × Stage
  | (page, .suspended on task) => (page, .waiting (on == .turn) (.load scope task))
  | (page, .finished result) => (page.releaseScope scope, .finished (result.map fun _ => .nothing))

/-- Begins to ask a provider on behalf of a scope and an inbox. -/
def startLoad (page : Page) (scope : ScopeId) (provider : ProviderId) (id : String)
    (inbox : InboxId) (keep : Bool) : Page × Stage :=
  stageOfLoad scope ((page.holdScope scope).load provider id inbox keep)

def startRun (page : Page) (collection : CollectionId) : Page × Stage :=
  stageOf .run (page.beginRun collection)

/-- Begins to mount a fragment; it ends with the number of its components. -/
def startMount (page : Page) (roots : List NodeId) : Page × Stage :=
  let (page, size, progress) := page.beginMount roots
  (page, .ofProgress (.number size) .mount progress)

def startDrain (fuel : Nat) (page : Page) : Page × Stage := stageOf .drain (beginDrain fuel page)

/-! ### Services -/

/-- Works the queue off: drains it, and sleeps when it is drained, until it is closed. The fuel
bounds how often; a service that reached the bound goes on with an empty drain at its next turn. -/
def serveFrom : Nat → Page → Progress Drain → Page × Stage
  | _, page, .suspended on drain => (page, .waiting (on == .turn) (.serve (.draining drain)))
  | 0, page, .finished _ => (page, .waiting true (.serve (.draining {})))
  | fuel + 1, page, .finished _ =>
    if page.queue.closed then (page, .finished (.ok .nothing))
    else
      match page.listenSignal none with
      | (page, some ticket) => (page, .waiting false (.serve (.sleeping ticket)))
      | (page, none) =>
        if page.queue.closed then (page, .finished (.ok .nothing))
        else
          let (page, progress) := beginDrain fuel page
          serveFrom fuel page progress

/-- Begins to work the queue off. -/
def startService (fuel : Nat) (page : Page) : Page × Stage :=
  if page.queue.closed then (page, .finished (.ok .nothing))
  else
    let (page, progress) := beginDrain fuel page
    serveFrom fuel page progress

/-- Goes on with working the queue off. -/
def resumeService (fuel : Nat) (page : Page) : Service → Page × Stage
  | .draining drain =>
    let (page, progress) := resumeDrain fuel page drain
    serveFrom fuel page progress
  | .sleeping ticket =>
    match page.listenSignal (some ticket) with
    | (page, some ticket) => (page, .waiting false (.serve (.sleeping ticket)))
    | (page, none) => startService fuel page

/-! ### All activities -/

def poll (fuel : Nat) (page : Page) : Activity → Page × Stage
  | .wait promise =>
    match page.scopes.promiseState promise with
    | .pending => (page, .waiting false (.wait promise))
    | .fulfilled source => (page, .finished (.ok (.source source)))
    | .cancelled => (page, .finished (.error (.waitCancelled (page.scopes.promisedId promise))))
  | .evaluate scope promise next =>
    match page.scopes.promiseState promise with
    | .pending => (page, .waiting false (.evaluate scope promise next))
    | .fulfilled source => page.evaluateQuery scope true (next (some source))
    | .cancelled =>
      (page.releaseScope scope,
        .finished (.error (.waitCancelled (page.scopes.promisedId promise))))
  | .task task => stageOf .task (page.resume task)
  | .load scope task => stageOfLoad scope (page.resume task)
  | .run run => stageOf .run (page.resumeRun run)
  | .mount mount =>
    let (page, progress) := page.resumeMount mount
    (page, .ofProgress (.number mount.size) .mount progress)
  | .drain drain => stageOf .drain (resumeDrain fuel page drain)
  | .serve service => page.resumeService fuel service

/-- Drives an activity on until it is finished or cannot go on by itself. -/
def settle : Nat → Page × Stage → Page × Stage
  | fuel + 1, (page, .waiting true activity) => settle fuel (page.poll (fuel + 1) activity)
  | _, reached => reached

def drop (page : Page) : Activity → Page
  | .wait _ => page
  | .evaluate scope _ _ => page.releaseScope scope
  | .task task => page.dropTask task
  | .load scope task => (page.dropTask task).releaseScope scope
  | .run run => page.dropRun run
  | .mount mount => page.dropMount mount
  | .drain drain => page.dropDrain drain
  | .serve (.draining drain) => page.dropDrain drain
  | .serve (.sleeping ticket) => page.leaveSignal (some ticket)

end Page

end ReactiveMarkup
