import ReactiveMarkup.Page.Task

/-!
# Fleets

Works that are under way at the same time. Those that can go on form a line, and each in turn goes
on until it is finished or has to wait. One that only waits for its next turn goes to the end of
the line; one that waits at a gate comes back to the end of it when the gate is opened.

Works that only wait for their turn are polite to others than their fleet: when two of them have
done so in one round, or as many works as there are have had a turn, the round is over, even if the
line is not empty.
-/

namespace ReactiveMarkup

/-- Work that has not begun. -/
inductive Assignment where
  | job (job : Job)
  | prepare (component : ComponentId)
  /-- A render that no source caused. -/
  | render (component : ComponentId)
deriving Inhabited

/-- The state of a work: it has not begun, or a task is left of it. -/
inductive FlightState where
  | assigned (assignment : Assignment)
  | begun (task : Task)
deriving Inhabited

structure Flight where
  id : FlightId
  state : FlightState
deriving Inhabited

/-- Works that are under way at the same time. -/
structure Fleet where
  flights : List Flight := []
  /-- The works that can go on, the next one first. -/
  line : List FlightId := []
deriving Inhabited

/-- How a round of turns ends: with a finished work, or with none that has a turn left. -/
inductive Round where
  | finished (fleet : Fleet) (id : FlightId) (result : Except Error Unit)
  | idle (fleet : Fleet)

namespace Fleet

/-- Puts what is left of a work in its place. -/
def keep (fleet : Fleet) (id : FlightId) (task : Task) (line : List FlightId) : Fleet :=
  { flights := fleet.flights.map fun other => if other.id = id then ⟨id, .begun task⟩ else other
    line }

/-- Takes a work out. -/
def remove (fleet : Fleet) (id : FlightId) (line : List FlightId) : Fleet :=
  { flights := fleet.flights.filter (·.id != id), line }

end Fleet

namespace Page

/-- Sends works out, behind those that are under way. -/
def launch (page : Page) (fleet : Fleet) (assignments : List Assignment) : Page × Fleet :=
  let fresh := assignments.zipIdx page.flights
  ({ page with flights := page.flights + fresh.length },
    { flights := fleet.flights ++ fresh.map fun (assignment, id) => ⟨id, .assigned assignment⟩
      line := fleet.line ++ fresh.map Prod.snd })

def beginAssignment (page : Page) : Assignment → Page × Progress Task
  | .job job => page.beginJob job
  | .prepare component => page.prepare component
  | .render component => page.render component none

def advance (page : Page) : FlightState → Page × Progress Task
  | .assigned assignment => page.beginAssignment assignment
  | .begun task => page.resume task

/-- Gives the works in line their turns until one is finished, as long as `turns` are left in the
round and `pauses` works may still have waited for their turn only. -/
def playRound : Nat → Nat → Page → Fleet → Page × Round
  | 0, _, page, fleet => (page, .idle fleet)
  | turns + 1, pauses, page, fleet =>
    match fleet.line with
    | [] => (page, .idle fleet)
    | id :: line =>
      match fleet.flights.find? (·.id == id) with
      | none => playRound turns pauses page { fleet with line }
      | some flight =>
        match page.advance flight.state with
        | (page, .finished result) => (page, .finished (fleet.remove id line) id result)
        | (page, .suspended .turn task) =>
          let kept := fleet.keep id task (line ++ [id])
          match pauses with
          | 0 => (page, .idle kept)
          | pauses + 1 => playRound turns pauses page kept
        | (page, .suspended (.gate gate) task) =>
          playRound turns pauses { page with gates := page.gates.park gate id }
            (fleet.keep id task line)
        | (page, .suspended .call task) => playRound turns pauses page (fleet.keep id task line)

/-- A round of turns: at most one for each work under way, and up to the second work that waits for
its turn only. -/
def round (page : Page) (fleet : Fleet) : Page × Round :=
  page.playRound fleet.flights.length 1 fleet

/-- Puts the works whose gates were opened meanwhile at the end of the line. -/
def wake (page : Page) (fleet : Fleet) : Page × Fleet :=
  let (gates, woken) := page.gates.takeWoken (fleet.flights.map Flight.id)
  ({ page with gates }, { fleet with line := fleet.line ++ woken })

def dropFlight (page : Page) (flight : Flight) : Page :=
  match flight.state with
  | .assigned (.job job) => page.releaseJob job
  | .assigned _ => page
  | .begun task => page.dropTask task

def dropFleet (page : Page) (fleet : Fleet) : Page := fleet.flights.foldl dropFlight page

end Page

end ReactiveMarkup
