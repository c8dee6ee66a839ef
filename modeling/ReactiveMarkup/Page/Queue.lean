import ReactiveMarkup.Component.Basic

/-!
# The queue

Handlers are called in the middle of a broadcast and cannot render there; they put jobs into a
queue, which is worked off later. Who works it off can sleep and be called: a signal has one caller
and any number of sleepers, and a call wakes the one that sleeps longest. A call that finds nobody
asleep is kept, once, for the next one who wants to sleep. A sleeper that goes away after it was
called hands the call on.
-/

namespace ReactiveMarkup

/-- A sleeper at a signal. -/
abbrev Ticket := Nat

structure Signal where
  /-- A call that found nobody asleep. -/
  permit : Bool := false
  /-- The sleepers, the one that sleeps longest first. -/
  parked : List Ticket := []
  /-- The sleepers that were called and have not noticed yet. -/
  called : List Ticket := []
  fresh : Ticket := 0
deriving DecidableEq, Repr, Inhabited

namespace Signal

/-- Calls once. -/
def call (signal : Signal) : Signal :=
  match signal.parked with
  | [] => { signal with permit := true }
  | first :: rest => { signal with parked := rest, called := signal.called ++ [first] }

/-- Listens, as a sleeper or as one who is about to become one. Without a ticket in the end there
was a call. -/
def listen (signal : Signal) : Option Ticket → Signal × Option Ticket
  | none =>
    if signal.permit then ({ signal with permit := false }, none)
    else
      ({ signal with parked := signal.parked ++ [signal.fresh], fresh := signal.fresh + 1 },
        some signal.fresh)
  | some ticket =>
    if signal.called.contains ticket then
      ({ signal with called := signal.called.erase ticket }, none)
    else (signal, some ticket)

/-- Goes away without listening any more. -/
def leave (signal : Signal) : Option Ticket → Signal
  | none => signal
  | some ticket =>
    if signal.called.contains ticket then
      { signal with called := signal.called.erase ticket }.call
    else { signal with parked := signal.parked.erase ticket }

end Signal

/-- Work in the queue. -/
inductive Job where
  /-- Renders a component, because of a source. -/
  | render (component : ComponentId) (cause : Source)
  /-- Runs steps of the host. -/
  | host (steps : List HostStep)
deriving Inhabited

structure Queue where
  jobs : List Job := []
  closed : Bool := false
  signal : Signal := {}
deriving Inhabited

namespace Queue

/-- Puts a job at the end and calls; a closed queue takes none. -/
def push (queue : Queue) (job : Job) : Queue :=
  if queue.closed then queue
  else { queue with jobs := queue.jobs ++ [job], signal := queue.signal.call }

/-- Closes the queue: the jobs in it are dropped. -/
def close (queue : Queue) : Queue :=
  { jobs := [], closed := true, signal := queue.signal.call }

end Queue

/-- The number of a job under way. -/
abbrev FlightId := Nat

/-- Gates that jobs wait at. A gate that was opened stays open. -/
structure Gates where
  opened : List String := []
  /-- The jobs that wait, in the order they came. -/
  waiting : List (String × FlightId) := []
  /-- The jobs whose gate was opened and that have not gone on yet, in order. -/
  woken : List FlightId := []
deriving DecidableEq, Repr, Inhabited

namespace Gates

def isOpen (gates : Gates) (gate : String) : Bool := gates.opened.contains gate

def openGate (gates : Gates) (gate : String) : Gates :=
  { opened := gate :: gates.opened
    waiting := gates.waiting.filter (·.1 != gate)
    woken := gates.woken ++ (gates.waiting.filter (·.1 == gate)).map Prod.snd }

/-- Has a job wait at a gate. -/
def park (gates : Gates) (gate : String) (flight : FlightId) : Gates :=
  { gates with waiting := gates.waiting ++ [(gate, flight)] }

/-- Takes the woken among some jobs. -/
def takeWoken (gates : Gates) (flights : List FlightId) : Gates × List FlightId :=
  ({ gates with woken := gates.woken.filter (!flights.contains ·) },
    gates.woken.filter (flights.contains ·))

end Gates

end ReactiveMarkup
