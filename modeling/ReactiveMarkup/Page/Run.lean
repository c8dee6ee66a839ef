import ReactiveMarkup.Page.Extraction
import ReactiveMarkup.Page.Fleet

/-!
# Running a collection

A collection runs once. First all of its components are prepared, at the same time; when all of them
are, the components of high priority are rendered at the same time, then the normal ones, then the
low ones. Between two classes the run ends early if the collection was disposed. Errors stop
nothing: the first one, in the order of the phases and of the components in them, is the result.

A phase of a few works polls all of them in their order, again and again. A phase of many works is a
fleet, in which only those that can go on have a turn.

Mounting a fragment is extracting it into a collection of its own and running that.
-/

namespace ReactiveMarkup

/-- One of the works of a phase. -/
inductive Slot where
  | finished (result : Except Error Unit)
  | waiting (task : Task)
deriving Inhabited

/-- The works that a run waits for. -/
inductive Phase where
  /-- A few works, in their order. -/
  | few (slots : List Slot)
  /-- Many works: their numbers in order, those under way, and the results of the others. -/
  | many (ids : List FlightId) (fleet : Fleet) (results : List (FlightId × Except Error Unit))
deriving Inhabited

namespace Phase

/-- How many works are a few. -/
def fewLimit : Nat := 30

/-- Whether all works are finished. -/
def isSettled : Phase → Bool
  | .few slots => slots.all fun
    | .finished _ => true
    | .waiting _ => false
  | .many _ fleet _ => fleet.flights.isEmpty

/-- The results of the finished works, in the order of the works. -/
def results : Phase → List (Except Error Unit)
  | .few slots => slots.filterMap fun
    | .finished result => some result
    | .waiting _ => none
  | .many ids _ results => ids.filterMap fun id => results.lookup id

/-- The first error among the results. -/
def failure? (phase : Phase) : Option Error :=
  phase.results.findSome? fun
    | .error error => some error
    | .ok _ => none

end Phase

/-- A run of a collection that is not finished. -/
structure Run where
  collection : CollectionId
  /-- The components there were at the beginning; the run holds them. -/
  components : List ComponentId
  phase : Phase
  /-- The classes that come later. -/
  later : List Priority
  failure : Option Error := none
deriving Inhabited

namespace Page

/-! ### Phases -/

/-- The slot of a work, and whether it can go on at once. -/
def slotOf : Progress Task → Slot × Bool
  | .finished result => (.finished result, false)
  | .suspended on task => (.waiting task, on == .turn)

/-- Begins a few works one after another; the flag tells whether some can go on at once. -/
def beginSlots : Page → List Assignment → Page × List Slot × Bool
  | page, [] => (page, [], false)
  | page, assignment :: rest =>
    let (page, progress) := page.beginAssignment assignment
    let (slot, awake) := slotOf progress
    let (page, slots, others) := beginSlots page rest
    (page, slot :: slots, awake || others)

/-- Goes on with those of a few works that wait. -/
def resumeSlots : Page → List Slot → Page × List Slot × Bool
  | page, [] => (page, [], false)
  | page, .finished result :: rest =>
    let (page, slots, others) := resumeSlots page rest
    (page, .finished result :: slots, others)
  | page, .waiting task :: rest =>
    let (page, progress) := page.resume task
    let (slot, awake) := slotOf progress
    let (page, slots, others) := resumeSlots page rest
    (page, slot :: slots, awake || others)

/-- Plays rounds with many works as long as they end with a finished one. The first argument bounds
their number. -/
def playFleet : Nat → Page → Fleet → List (FlightId × Except Error Unit) →
    Page × Fleet × List (FlightId × Except Error Unit)
  | 0, page, fleet, results => (page, fleet, results)
  | fuel + 1, page, fleet, results =>
    match page.round fleet with
    | (page, .finished fleet id result) => playFleet fuel page fleet (results ++ [(id, result)])
    | (page, .idle fleet) => (page, fleet, results)

/-- Goes on with many works. -/
def playMany (page : Page) (ids : List FlightId) (fleet : Fleet)
    (results : List (FlightId × Except Error Unit)) : Page × Phase × Bool :=
  let (page, fleet, results) := page.playFleet (fleet.flights.length + 1) fleet results
  (page, .many ids fleet results, !fleet.line.isEmpty)

/-- Begins a phase; the flag tells whether it can go on at once. -/
def beginPhase (page : Page) (assignments : List Assignment) : Page × Phase × Bool :=
  if assignments.length ≤ Phase.fewLimit then
    let (page, slots, awake) := page.beginSlots assignments
    (page, .few slots, awake)
  else
    let (page, fleet) := page.launch {} assignments
    page.playMany (fleet.flights.map Flight.id) fleet []

def resumePhase (page : Page) : Phase → Page × Phase × Bool
  | .few slots =>
    let (page, slots, awake) := page.resumeSlots slots
    (page, .few slots, awake)
  | .many ids fleet results =>
    let (page, fleet) := page.wake fleet
    page.playMany ids fleet results

/-- Drops the works of a phase. -/
def dropPhase (page : Page) : Phase → Page
  | .few slots => slots.foldl
    (fun page slot => match slot with
      | .waiting task => page.dropTask task
      | .finished _ => page)
    page
  | .many _ fleet _ => page.dropFleet fleet

/-! ### Runs -/

/-- The components of a class among some. -/
def ofPriority (page : Page) (priority : Priority) (components : List ComponentId) :
    List ComponentId :=
  components.filter fun id => (page.components.get? id).any (·.priority == priority)

def isCollectionDisposed (page : Page) (collection : CollectionId) : Bool :=
  (page.collections.get? collection).any (·.state == .disposed)

/-- Lets go of what a run holds. -/
def releaseRun (page : Page) (collection : CollectionId) (components : List ComponentId) : Page :=
  (components.foldl releaseComponent page).releaseCollection collection

def finishRun (page : Page) (run : Run) : Page × Progress Run :=
  let ended := page.changeCollection run.collection fun cell =>
    if cell.state = .running then { cell with state := .ran } else cell
  (ended.releaseRun run.collection run.components,
    .finished (match run.failure with | some error => .error error | none => .ok ()))

/-- Renders class after class until one has to wait or none is left. -/
def runClasses : List Priority → Page → Run → Page × Progress Run
  | [], page, run => page.finishRun run
  | priority :: later, page, run =>
    if page.isCollectionDisposed run.collection then page.finishRun run
    else
      let (page, phase, awake) := page.beginPhase
        ((page.ofPriority priority run.components).map .render)
      let run := { run with phase, later }
      if phase.isSettled then
        runClasses later page { run with failure := run.failure.or phase.failure? }
      else (page, .suspended (if awake then .turn else .call) run)

/-- Goes on after a phase, if it is over. -/
def continueRun (page : Page) (run : Run) (awake : Bool) : Page × Progress Run :=
  if run.phase.isSettled then
    runClasses run.later page { run with failure := run.failure.or run.phase.failure? }
  else (page, .suspended (if awake then .turn else .call) run)

/-- Begins to run a collection. Only a collection that is ready can run. -/
def beginRun (page : Page) (id : CollectionId) : Page × Progress Run :=
  match page.collections.get? id with
  | none => (page, .done)
  | some collection =>
    match collection.state with
    | .disposed => (page, .finished (.error .collectionDisposed))
    | .running => (page, .finished (.error .alreadyRun))
    | .ran => (page, .finished (.error .alreadyRun))
    | .ready =>
      let components := collection.components
      let running := page.changeCollection id fun cell => { cell with state := .running }
      let held := components.foldl holdComponent (running.holdCollection id)
      let (page, phase, awake) := held.beginPhase (components.map .prepare)
      page.continueRun { collection := id, components, phase, later := Priority.runOrder } awake

def resumeRun (page : Page) (run : Run) : Page × Progress Run :=
  let (page, phase, awake) := page.resumePhase run.phase
  page.continueRun { run with phase } awake

/-- Drops a run with all its works. The collection cannot run again. -/
def dropRun (page : Page) (run : Run) : Page :=
  (page.dropPhase run.phase).releaseRun run.collection run.components

end Page

/-- A mount that is not finished. It holds the collection and the nodes of the fragment. -/
structure Mount where
  run : Run
  roots : List NodeId
  size : Nat
deriving Inhabited

namespace Page

/-! ### Mounts -/

/-- Ends a mount, or puts it together from what is left. A fragment that ran stays mounted, also
when its run failed. -/
def closeMount (page : Page) (collection : CollectionId) (roots : List NodeId) (size : Nat) :
    Progress Run → Page × Progress Mount
  | .suspended on run => (page, .suspended on { run, roots, size })
  | .finished result =>
    let mounted := { page with mounts := page.mounts ++ [collection] }
    (roots.foldl releaseNode mounted, .finished result)

/-- Begins to mount a fragment; gives the number of its components. -/
def beginMount (page : Page) (roots : List NodeId) : Page × Nat × Progress Mount :=
  let (page, collection) := (roots.foldl holdNode page).createCollection rootScope rootRegistry
  match page.extract collection roots with
  | (page, .error error) =>
    (roots.foldl releaseNode (page.releaseCollection collection), 0, .finished (.error error))
  | (page, .ok size) =>
    let (page, progress) := page.beginRun collection
    let (page, progress) := page.closeMount collection roots size progress
    (page, size, progress)

def resumeMount (page : Page) (mount : Mount) : Page × Progress Mount :=
  let (page, progress) := page.resumeRun mount.run
  page.closeMount mount.run.collection mount.roots mount.size progress

/-- Drops a mount: the fragment does not stay mounted. -/
def dropMount (page : Page) (mount : Mount) : Page :=
  let dropped := (page.dropRun mount.run).releaseCollection mount.run.collection
  mount.roots.foldl releaseNode dropped

end Page

end ReactiveMarkup
