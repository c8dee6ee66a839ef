import ReactiveMarkup.Page.Fleet

/-!
# Draining the queue

A drain takes all jobs out of the queue and has them under way at the same time. Whenever one of
them is finished, jobs that came into the queue meanwhile are sent out before the next turn. When
none can go on, the drain sleeps at the signal of the queue. It ends when nothing is under way and
the queue is empty, with the first error that a job ended with.
-/

namespace ReactiveMarkup

/-- A drain that is not finished. -/
structure Drain where
  fleet : Fleet := {}
  failure : Option Error := none
  /-- The place of the drain among the sleepers. -/
  ticket : Option Ticket := none
deriving Inhabited

namespace Page

/-- Goes away from the signal of the queue. -/
def leaveSignal (page : Page) (ticket : Option Ticket) : Page :=
  { page with queue := { page.queue with signal := page.queue.signal.leave ticket } }

/-- Listens to the signal of the queue. -/
def listenSignal (page : Page) (ticket : Option Ticket) : Page × Option Ticket :=
  let (signal, ticket) := page.queue.signal.listen ticket
  ({ page with queue := { page.queue with signal } }, ticket)

/-- Sends all jobs of the queue out. -/
def launchJobs (page : Page) (drain : Drain) : Page × Drain :=
  let (page, fleet) := { page with queue := { page.queue with jobs := [] } }.launch drain.fleet
    (page.queue.jobs.map .job)
  (page, { drain with fleet })

/-- Drains the queue until it is drained, the drain sleeps or a round is over. The first argument
bounds how often jobs are sent out; a drain that reached the bound waits for its next turn. -/
def drainRounds (fuel : Nat) (page : Page) (drain : Drain) : Page × Progress Drain :=
  if drain.fleet.flights.isEmpty then
    (page, .finished (match drain.failure with | some error => .error error | none => .ok ()))
  else
    match fuel with
    | 0 => (page, .suspended .turn drain)
    | fuel + 1 =>
      match page.round drain.fleet with
      | (page, .finished fleet _ result) =>
        let failure := match drain.failure, result with
          | none, .error error => some error
          | failure, _ => failure
        let (page, drain) := (page.leaveSignal drain.ticket).launchJobs { fleet, failure }
        drainRounds fuel page drain
      | (page, .idle fleet) =>
        match page.listenSignal drain.ticket with
        | (page, some ticket) =>
          (page, .suspended (if fleet.line.isEmpty then .call else .turn)
            { drain with fleet, ticket := some ticket })
        | (page, none) =>
          let (page, drain) := page.launchJobs { drain with fleet, ticket := none }
          drainRounds fuel page drain

def beginDrain (fuel : Nat) (page : Page) : Page × Progress Drain :=
  let (page, drain) := page.launchJobs {}
  page.drainRounds fuel drain

def resumeDrain (fuel : Nat) (page : Page) (drain : Drain) : Page × Progress Drain :=
  let (page, fleet) := page.wake drain.fleet
  page.drainRounds fuel { drain with fleet }

/-- Drops a drain with all jobs under way. -/
def dropDrain (page : Page) (drain : Drain) : Page :=
  (page.dropFleet drain.fleet).leaveSignal drain.ticket

end Page

end ReactiveMarkup
