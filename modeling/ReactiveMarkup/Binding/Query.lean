import ReactiveMarkup.Source.Basic

/-!
# Queries

A computation that looks sources up one after another, and may decide what to look up next by what
it found. It leaves open how a source is found: over a fixed state every lookup is answered at once,
while an evaluation that waits may stop at a lookup and go on later with the source it waited for.
-/

namespace ReactiveMarkup

/-- A computation that looks sources up. `mayWait` marks a source that is worth waiting for. -/
inductive Query (α : Type) where
  | done (result : α)
  | lookup (id : String) (mayWait : Bool) (next : Option Source → Query α)

namespace Query

variable {α β : Type}

/-- Goes on with the result of a query. -/
def bind : Query α → (α → Query β) → Query β
  | .done result, f => f result
  | .lookup id mayWait next, f => .lookup id mayWait fun found => (next found).bind f

/-- Changes the result of a query. -/
def map (f : α → β) : Query α → Query β
  | .done result => .done (f result)
  | .lookup id mayWait next => .lookup id mayWait fun found => (next found).map f

/-- The result over the sources there are. -/
def run (find : String → Option Source) : Query α → α
  | .done result => result
  | .lookup id _ next => run find (next (find id))

end Query

end ReactiveMarkup
