import ReactiveMarkup.Page.Task
import ReactiveMarkup.Proofs.Markup.Kinds

/-!
# Where bindings write

A component with a binding writes a text to one place of one node: the content of a text node, or an
attribute of an element. What was written is what is read there, and writing to one place of a node
does not touch the others.
-/

namespace ReactiveMarkup

namespace Unicode

theorem sameName_comm (a b : String) : sameName a b = sameName b a := Bool.beq_comm

theorem sameName_congr {a b : String} (h : sameName a b = true) (c : String) :
    sameName c a = sameName c b := by
  rw [sameName, beq_iff_eq] at h
  rw [sameName, sameName, h]

end Unicode

inductive Place where
  /-- The content of a text. -/
  | whole
  | named (name : String)
deriving DecidableEq

namespace Place

/-- What stands at a place of a node, if the node has it. -/
def read? : Place → NodeKind → Option String
  | .whole, .text content => some content
  | .whole, _ => none
  | .named name, kind => kind.attribute? name

/-- Writes to a place of a node. -/
def write (text : String) : Place → NodeKind → NodeKind
  | .whole => NodeKind.setContent text
  | .named name => NodeKind.setAttribute name text

/-- Whether two places of a node are one. -/
def same : Place → Place → Bool
  | .whole, .whole => true
  | .named name, .named other => Unicode.sameName name other
  | _, _ => false

variable {place other : Place} {text name : String} {kind : NodeKind}

theorem read?_of_same (h : place.same other = true) : place.read? kind = other.read? kind := by
  cases place with
  | whole =>
      cases other with
      | whole => rfl
      | named other => cases h
  | named name =>
      cases other with
      | whole => cases h
      | named other =>
          rw [read?, read?, NodeKind.attribute?, NodeKind.attribute?]
          congr 2
          funext entry
          exact Unicode.sameName_congr h entry.1

theorem find?_setIn_self (name value : String) (entries : List (String × String)) :
    ((NodeKind.setIn name value entries).find? fun entry => Unicode.sameName entry.1 name).map
      Prod.snd = some value := by
  induction entries with
  | nil => simp [NodeKind.setIn, Unicode.sameName]
  | cons entry rest ih =>
      obtain ⟨other, old⟩ := entry
      by_cases h : Unicode.sameName other name
      · simp [NodeKind.setIn, h]
      · simpa [NodeKind.setIn, h] using ih

theorem find?_setIn_other {name wanted : String} (hne : Unicode.sameName name wanted = false)
    (value : String) (entries : List (String × String)) :
    ((NodeKind.setIn name value entries).find? fun entry => Unicode.sameName entry.1 wanted).map
        Prod.snd =
      (entries.find? fun entry => Unicode.sameName entry.1 wanted).map Prod.snd := by
  induction entries with
  | nil => simp [NodeKind.setIn, hne]
  | cons entry rest ih =>
      obtain ⟨other, old⟩ := entry
      by_cases h : Unicode.sameName other name
      · have hother : Unicode.sameName other wanted = false := by
          rw [Unicode.sameName_comm, Unicode.sameName_congr h, Unicode.sameName_comm]
          exact hne
        simp [NodeKind.setIn, h, hother]
      · by_cases hwanted : Unicode.sameName other wanted
        · simp [NodeKind.setIn, h, hwanted]
        · simpa [NodeKind.setIn, h, hwanted] using ih

theorem wellnamed_write (h : kind.Wellnamed) : (place.write text kind).Wellnamed := by
  cases place with
  | whole => exact h.setContent text
  | named name => exact h.setAttribute name text

/-- What was written is what is read. -/
theorem read?_write_self (h : (place.read? kind).isSome) :
    place.read? (place.write text kind) = some text := by
  cases place with
  | whole =>
      cases kind with
      | text content => rfl
      | element tag attributes => cases h
      | comment content => cases h
      | anchor name => cases h
  | named name =>
      cases kind with
      | element tag attributes => exact find?_setIn_self name text attributes
      | text content => cases h
      | comment content => cases h
      | anchor name => cases h

/-- Writing to one place does not touch the others. -/
theorem read?_write_other (h : place.same other = false) :
    other.read? (place.write text kind) = other.read? kind := by
  cases place with
  | whole =>
      cases other with
      | whole => cases h
      | named name => cases kind <;> rfl
  | named name =>
      cases other with
      | whole => cases kind <;> rfl
      | named other =>
          cases kind with
          | element tag attributes => exact find?_setIn_other h text attributes
          | text content => rfl
          | comment content => rfl
          | anchor name => rfl

end Place

/-- Where a component with a binding writes, and what: its node, the place there, and the token. -/
structure Spot where
  node : NodeId
  place : Place
  token : Token
  priority : Priority

namespace Component

/-- The place and the token of a behaviour with a binding. -/
def bound? : Behaviour → Option (Place × Token)
  | .text token => some (.whole, token)
  | .attributeText name token => some (.named name, token)
  | _ => none

/-- Where a component writes, if it has a binding. -/
def spot? (component : Component) : Option Spot :=
  (bound? component.behaviour).map fun (place, token) =>
    { node := component.node, place, token, priority := component.priority }

end Component

end ReactiveMarkup
