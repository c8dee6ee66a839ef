import ReactiveMarkup.Text

/-!
# Priorities

The classes in which the components of a collection are rendered: first the high ones, then the
normal ones, then the low ones. A component of priority none waits for a trigger.
-/

namespace ReactiveMarkup

inductive Priority where
  | high
  | normal
  | low
  | none
deriving DecidableEq, Repr, Inhabited

namespace Priority

/-- The priority of a word, in any case. -/
def ofWord? (text : String) : Option Priority :=
  let word := Unicode.lower (Text.trim text)
  if word = "high" then some .high
  else if word = "normal" then some .normal
  else if word = "low" then some .low
  else if word = "none" then some .none
  else Option.none

/-- The classes that are rendered on their own, in order. -/
def runOrder : List Priority := [.high, .normal, .low]

end Priority

end ReactiveMarkup
