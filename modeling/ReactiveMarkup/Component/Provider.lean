import ReactiveMarkup.Arena
import ReactiveMarkup.Error
import ReactiveMarkup.Source.Basic

/-!
# Providers

Where rows come from. A provider answers a request by delivering result sets, one for each member of
the command that asks, in one delivery or several; then it is done or has failed. A provider with
fixtures answers at once. The provider of a host answers one request after another by a plan and may
take its time. A request that failed is repeated as long as attempts are left.
-/

namespace ReactiveMarkup

/-- The rows of every member. -/
abbrev ResultSets := List (List Row)

/-- One thing a provider does to answer a request. -/
inductive ProviderStep where
  /-- Takes note of the request. -/
  | report
  | await (gate : String)
  | pause (turns : Nat)
  /-- Delivers result sets; with the flag, takes note of whether they were accepted. -/
  | deliver (sets : ResultSets) (reported : Bool)
  /-- Delivers result sets, and goes on whether they are accepted or not. -/
  | insist (sets : ResultSets) (reported : Bool)
  | fail (error : Error)
deriving Inhabited

/-- How the provider of a host answers one request: every delivery is preceded by the same wait. -/
structure Attempt where
  deliveries : List ResultSets := []
  gate : Option String := none
  pause : Nat := 0
  failure : Option Error := none
  /-- Whether it goes on after a delivery that is not accepted. -/
  insists : Bool := false
deriving Inhabited

def Attempt.steps (attempt : Attempt) : List ProviderStep :=
  let wait := (attempt.gate.map ProviderStep.await).toList ++ [.pause attempt.pause]
  let deliver := fun sets : ResultSets =>
    if attempt.insists then ProviderStep.insist sets true else .deliver sets true
  .report :: attempt.deliveries.flatMap (fun sets => wait ++ [deliver sets])
    ++ (attempt.failure.map ProviderStep.fail).toList

/-- How an answer ends when a delivery is not accepted: nothing else is delivered. -/
def ProviderStep.resultAfterRefusal : List ProviderStep → Except Error Unit
  | [] => .ok ()
  | .fail error :: _ => .error error
  | _ :: rest => resultAfterRefusal rest

inductive Provider where
  /-- Result sets by the id of the request in lower case. -/
  | fixtures (sets : List (String × ResultSets))
  /-- The answers to the next requests; the last one is given again and again. -/
  | plan (attempts : List Attempt)
deriving Inhabited

namespace Provider

/-- What a provider does for a request, and the provider afterwards. -/
def answer (provider : Provider) (id : String) : Provider × List ProviderStep :=
  match provider with
  | .fixtures sets =>
    match sets.lookup (Unicode.lower id) with
    | some found => (provider, [.deliver found false])
    | none => (provider, [.fail (.provider ("no data for '" ++ id ++ "'"))])
  | .plan [] => (provider, [.report])
  | .plan [last] => (provider, last.steps)
  | .plan (first :: rest) => (.plan rest, first.steps)

end Provider

abbrev ProviderId := Nat

/-- Providers by their names in lower case; the latest one of a name counts. -/
structure Providers where
  providers : Arena Provider := .empty
  names : List (String × ProviderId) := []
deriving Inhabited

namespace Providers

/-- The name of the provider of commands that name none. -/
def defaultName : String := "default"

/-- Gives a name to a new provider. -/
def register (providers : Providers) (name : String) (provider : Provider) : Providers :=
  { providers := providers.providers.push provider
    names := (Unicode.lower name, providers.providers.size) :: providers.names }

/-- The provider of a name in any case. -/
def find (providers : Providers) (name : String) : Except Error ProviderId :=
  match providers.names.lookup (Unicode.lower name) with
  | some id => .ok id
  | none => .error (.unknownProvider name)

end Providers

/-- How often something may be tried, and the number of the attempt under way. -/
structure Attempts where
  limit : Nat
  current : Nat := 1
deriving DecidableEq, Repr, Inhabited

namespace Attempts

/-- The first of so many attempts; there is always one. -/
def ofLimit (limit : Nat) : Attempts := { limit := max limit 1 }

/-- What follows a failure: another attempt, or the error that ends it all. -/
def afterFailure (attempts : Attempts) (failure : Error) : Except Error Attempts :=
  if attempts.current < attempts.limit then
    .ok { attempts with current := attempts.current + 1 }
  else .error (.providerExhausted attempts.limit failure.message)

/-- Makes attempts until one succeeds, a bounded number of them from the current one on; gives the
result and the number of the last attempt. -/
def runFrom {α : Type} (attempt : Nat → Except Error α) : Nat → Attempts → Except Error α × Nat
  | fuel, attempts =>
    match attempt attempts.current with
    | .ok result => (.ok result, attempts.current)
    | .error failure =>
      match attempts.afterFailure failure, fuel with
      | .ok next, fuel + 1 => runFrom attempt fuel next
      | .ok _, 0 => (.error failure, attempts.current)
      | .error final, _ => (.error final, attempts.current)

/-- Makes attempts until one succeeds or the limit is reached. -/
def run {α : Type} (limit : Nat) (attempt : Nat → Except Error α) : Except Error α × Nat :=
  runFrom attempt limit (ofLimit limit)

end Attempts

end ReactiveMarkup
