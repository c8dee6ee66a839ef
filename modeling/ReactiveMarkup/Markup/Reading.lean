import ReactiveMarkup.Error
import ReactiveMarkup.Markup.Basic
import ReactiveMarkup.Text

/-!
# Reading commands from markup

A command is read from its element and takes the children it understands out of the markup while it
is read. Reading may fail in the middle; what was taken out before stays out.
-/

namespace ReactiveMarkup

/-- Reading from markup: an error leaves the markup as far as it was changed. -/
abbrev Reading := ExceptT Error (StateM Markup)

namespace Reading

/-- A result that does not depend on the markup. -/
def ofExcept {α : Type} : Except Error α → Reading α
  | .ok result => pure result
  | .error error => throw error

/-- Changes the markup and gives a result. -/
def change {α : Type} (f : Markup → Markup × α) : Reading α := modifyGet fun markup =>
  let (markup, result) := f markup
  (result, markup)

/-- Changes the markup if nothing fails. -/
def attempt {α : Type} (f : Markup → Except Error (Markup × α)) : Reading α := do
  let (markup, result) ← ofExcept (f (← get))
  set markup
  return result

end Reading

/-- The trimmed value of an attribute that is not blank. -/
def NodeKind.filledAttribute? (kind : NodeKind) (name : String) : Option String :=
  match kind.attribute? name with
  | some value => let value := Text.trim value; if value = "" then none else some value
  | none => none

end ReactiveMarkup
