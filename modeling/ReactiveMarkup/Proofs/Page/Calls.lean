import ReactiveMarkup.Proofs.Page.Drainage
import ReactiveMarkup.Proofs.Page.Protocol

/-!
# Who is called when

A component is called to render by a job of the queue, by a run, or by hand; whether it is let in is its
own affair. Here everything that happens in a world is told again with the calls it makes, each with the
page the component finds. A turn of a work says whom it calls, so all that has to be told of the things
that are driven on is which turns they consist of. It is also told when somebody drives the queue on, and
which jobs were dropped before they began.

`Move` is a step of a world with what is told of it, and a `Course` is one move after another.
-/

namespace ReactiveMarkup

/-- A component is called to render. -/
structure Call where
  component : ComponentId
  cause : Option Source
  /-- Whether a job of the queue calls it. -/
  queued : Bool
  /-- The page it finds. -/
  page : Page

/-- Whether a call is let in. -/
def Call.isLetIn (call : Call) : Bool :=
  (call.page.components.get? call.component).any Component.admits

/-- Something that is told of what happens in a world. -/
inductive Incident where
  | called (call : Call)
  /-- Somebody drives the queue on. -/
  | driven
  /-- A job was dropped that had not begun. -/
  | dropped (job : Job)

/-- The call that a turn of a work begins with. -/
def Turn.call? (turn : Turn) : Option Call :=
  match turn.state with
  | .assigned (.render component) => some ⟨component, none, false, turn.page⟩
  | .assigned (.job (.render component cause)) => some ⟨component, some cause, true, turn.page⟩
  | _ => none

/-- What is told of some turns. -/
def told (turns : List Turn) : List Incident := (turns.filterMap Turn.call?).map .called

theorem told_append (turns more : List Turn) : told (turns ++ more) = told turns ++ told more := by
  simp [told]

/-! ## The turns of things that are driven on -/

namespace Page

/-- The turns in which a collection begins to run. -/
def runTurns (page : Page) (id : CollectionId) : List Turn :=
  match page.collections.get? id with
  | some { state := .ready, components, .. } =>
    (page.beginChapters id components).flatMap Chapter.turns
  | _ => []

/-- The turns in which a run goes on. -/
def resumeRunTurns (page : Page) (run : Run) : List Turn :=
  let (after, phase, _) := page.resumePhase run.phase
  page.resumePhaseTurns run.phase ++
    (after.continueChapters { run with phase }).flatMap Chapter.turns

/-- The turns in which a fragment begins to be mounted. -/
def mountTurns (page : Page) (roots : List NodeId) : List Turn :=
  let (page, collection) := (roots.foldl holdNode page).createCollection rootScope rootRegistry
  match page.extract collection roots with
  | (_, .error _) => []
  | (page, .ok _) => page.runTurns collection

/-- The turns of a service after a drain. -/
def serveTurns : Nat → Page → Progress Drain → List Turn
  | 0, _, _ => []
  | _, _, .suspended _ _ => []
  | fuel + 1, page, .finished _ =>
    if page.queue.closed then []
    else
      match page.listenSignal none with
      | (_, some _) => []
      | (page, none) =>
        if page.queue.closed then []
        else
          let (after, progress) := beginDrain fuel page
          beginDrainTurns fuel page ++ serveTurns fuel after progress

/-- The turns in which a service begins. -/
def serviceTurns (fuel : Nat) (page : Page) : List Turn :=
  if page.queue.closed then []
  else
    let (after, progress) := beginDrain fuel page
    beginDrainTurns fuel page ++ serveTurns fuel after progress

/-- The turns in which a service goes on. -/
def resumeServiceTurns (fuel : Nat) (page : Page) : Service → List Turn
  | .draining rest =>
    let (after, progress) := resumeDrain fuel page rest
    resumeDrainTurns fuel page rest ++ serveTurns fuel after progress
  | .sleeping ticket =>
    match page.listenSignal (some ticket) with
    | (_, some _) => []
    | (page, none) => serviceTurns fuel page

/-- What is told when an activity is polled. A task that goes on calls nobody: it was called before. -/
def pollTold (fuel : Nat) (page : Page) : Activity → List Incident
  | .run run => told (page.resumeRunTurns run)
  | .mount mount => told (page.resumeRunTurns mount.run)
  | .drain rest => .driven :: told (resumeDrainTurns fuel page rest)
  | .serve service => .driven :: told (resumeServiceTurns fuel page service)
  | _ => []

end Page

/-! ## Moves of a world -/

/-- The job of a work that has not begun. -/
def FlightState.job? : FlightState → Option Job
  | .assigned (.job job) => some job
  | _ => none

/-- The jobs among the works of an activity that have not begun. -/
def Activity.jobs : Activity → List Job
  | .drain rest => rest.fleet.states.filterMap FlightState.job?
  | .serve (.draining rest) => rest.fleet.states.filterMap FlightState.job?
  | _ => []

namespace Page

/-- What a host begins, with what is told of it. -/
inductive Opens : Page → List Incident → Page × Stage → Prop
  | wait {page : Page} (scope : ScopeId) (id : String) : Opens page [] (page.startWait scope id)
  | evaluation {page : Page} {scope : ScopeId} (alive : page.scopes.isAlive scope = true)
    (wait : Bool) (token : Token) : Opens page [] (page.startEvaluation scope wait token)
  | prepare {page : Page} (component : ComponentId) : Opens page [] (page.startPrepare component)
  | render {page : Page} (component : ComponentId) (cause : Option Source) :
    Opens page [.called ⟨component, cause, false, page⟩] (page.startRender component cause)
  | load {page : Page} {scope : ScopeId} (alive : page.scopes.isAlive scope = true)
    (provider : ProviderId) (id : String) (inbox : InboxId) (keep : Bool) :
    Opens page [] (page.startLoad scope provider id inbox keep)
  | run {page : Page} (collection : CollectionId) :
    Opens page (told (page.runTurns collection)) (page.startRun collection)
  | mount {page : Page} (alive : page.scopes.isAlive rootScope = true) (roots : List NodeId) :
    Opens page (told (page.mountTurns roots)) (page.startMount roots)
  | drain {page : Page} (fuel : Nat) :
    Opens page (.driven :: told (beginDrainTurns fuel page)) (page.startDrain fuel)
  | service {page : Page} (fuel : Nat) :
    Opens page (.driven :: told (serviceTurns fuel page)) (page.startService fuel)

theorem Opens.begins {page : Page} {incidents : List Incident} {reached : Page × Stage}
    (h : Opens page incidents reached) : Begins page reached := by
  cases h with
  | wait scope id => exact .wait scope id
  | evaluation alive wait token => exact .evaluation alive wait token
  | prepare component => exact .prepare component
  | render component cause => exact .render component cause
  | load alive provider id inbox keep => exact .load alive provider id inbox keep
  | run collection => exact .run collection
  | mount alive roots => exact .mount alive roots
  | drain fuel => exact .drain fuel
  | service fuel => exact .service fuel

/-- Whatever begins, something can be told of it. -/
theorem Begins.opens {page : Page} {reached : Page × Stage} (h : Begins page reached) :
    ∃ incidents, page.Opens incidents reached := by
  cases h with
  | wait scope id => exact ⟨_, .wait scope id⟩
  | evaluation alive wait token => exact ⟨_, .evaluation alive wait token⟩
  | prepare component => exact ⟨_, .prepare component⟩
  | render component cause => exact ⟨_, .render component cause⟩
  | load alive provider id inbox keep => exact ⟨_, .load alive provider id inbox keep⟩
  | run collection => exact ⟨_, .run collection⟩
  | mount alive roots => exact ⟨_, .mount alive roots⟩
  | drain fuel => exact ⟨_, .drain fuel⟩
  | service fuel => exact ⟨_, .service fuel⟩

end Page

namespace World

variable {world middle later : World} {incidents more : List Incident} {may : World → Prop}

/-- A step of a world, with what is told of it. A host puts jobs into the queue or closes it, but it takes
none out. -/
inductive Move : World → List Incident → World → Prop
  | act {page after : Page} (live : List Activity) (does : page.Does after) (feeds : page.Feeds after) :
    Move ⟨page, live⟩ [] ⟨after, live⟩
  | start {page : Page} {incidents : List Incident} {reached : Page × Stage} (live : List Activity)
    (opens : page.Opens incidents reached) :
    Move ⟨page, live⟩ incidents ⟨reached.1, reached.2.activities ++ live⟩
  | poll {page : Page} {live others : List Activity} {activity : Activity}
    (among : live.Perm (activity :: others)) (fuel : Nat) :
    Move ⟨page, live⟩ (page.pollTold (fuel + 1) activity)
      ⟨(page.poll (fuel + 1) activity).1, (page.poll (fuel + 1) activity).2.activities ++ others⟩
  | drop {page : Page} {live others : List Activity} {activity : Activity}
    (among : live.Perm (activity :: others)) :
    Move ⟨page, live⟩ (activity.jobs.map .dropped) ⟨page.drop activity, others⟩

theorem Move.step (h : Move world incidents later) : Step world later := by
  cases h with
  | act live does _ => exact .act live does
  | start live opens => exact .start live opens.begins
  | poll among fuel => exact .poll among fuel
  | drop among => exact .drop among

/-- One move after another, through worlds of some kind. -/
inductive Course (may : World → Prop) (world : World) : List Incident → World → Prop
  | refl (allowed : may world) : Course may world [] world
  | tail {incidents more : List Incident} {middle later : World}
    (course : Course may world incidents middle) (move : Move middle more later)
    (allowed : may later) : Course may world (incidents ++ more) later

theorem Course.leads (h : Course may world incidents later) : Leads world later := by
  induction h with
  | refl => exact .refl
  | tail _ move _ ih => exact ih.tail move.step

end World

end ReactiveMarkup
