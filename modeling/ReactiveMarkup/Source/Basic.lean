import ReactiveMarkup.Error
import ReactiveMarkup.Value.Text

/-!
# Sources

A source is a named list of rows. Every row sits in an entry with a version, which counts how often
the entry was overwritten; so there are as many versions as rows. Ids are in lower case. The
key of a row is the text of its key field, or its own compact text where it has none.
-/

namespace ReactiveMarkup

/-- A row: named columns. -/
abbrev Row := Fields

/-- How a source is merged into the one that is stored under its id. -/
inductive MergeType where
  | replace
  | append
deriving DecidableEq, Repr, Inhabited

/-- What a row of a keyed append does. -/
inductive RowStatus where
  | added
  | edited
  | deleted
deriving DecidableEq, Repr

/-- The status a value names, in any case. -/
def RowStatus.ofValue? (value : Value) : Option RowStatus :=
  let word := Unicode.lowerAscii value.display
  if word = "added" then some .added
  else if word = "edited" then some .edited
  else if word = "deleted" then some .deleted
  else none

/-- How a source is merged and how its rows are identified. -/
structure SourceOptions where
  mergeType : MergeType := .replace
  keyField : Option String := none
  statusField : Option String := none
  extra : Option Value := none
deriving Inhabited

/-- What identifies a row in its source. -/
inductive RowKey where
  | field (text : String)
  | content (text : String)
deriving DecidableEq, Repr, Inhabited

/-- A row with the number of times it was overwritten. -/
structure Entry where
  row : Row
  version : Nat := 0
deriving Inhabited

/-- A named list of rows. -/
structure Source where
  id : String
  entries : List Entry
  options : SourceOptions
deriving Inhabited

namespace Source

/-- A source of fresh rows. -/
def make (id : String) (rows : List Row) (options : SourceOptions := {}) : Source :=
  ⟨Unicode.lower id, rows.map fun row => { row }, options⟩

/-- A value as a row: an object is one, any other value is the column `value` of one. -/
def rowOfValue : Value → Row
  | .object fields => fields
  | other => [("value", other)]

/-- A value as rows: an array has one a member, null has none, any other value is one. -/
def rowsOfValue : Value → List Row
  | .array items => items.map rowOfValue
  | .null => []
  | other => [rowOfValue other]

/-- A value as a source. -/
def ofValue (id : String) (value : Value) : Source := make id (rowsOfValue value)

/-- The rows of a source in their order. -/
def rows (source : Source) : List Row := source.entries.map Entry.row

def versions (source : Source) : List Nat := source.entries.map Entry.version

def size (source : Source) : Nat := source.entries.length

/-- The key of a row under a key field. -/
def keyOfRow (keyField : Option String) (row : Row) : RowKey :=
  match keyField.bind row.get? with
  | some value => .field value.display
  | none => .content (Value.object row).compact

/-- The key of the row at an index. -/
def rowKey? (source : Source) (index : Nat) : Option RowKey :=
  source.entries[index]?.map fun entry => keyOfRow source.options.keyField entry.row

def keys (source : Source) : List RowKey := source.rows.map (keyOfRow source.options.keyField)

end Source

end ReactiveMarkup
