import ReactiveMarkup.Source.Basic
import ReactiveMarkup.Value.Record

/-!
# The wire form of sources

A source travels as a record of its id, its rows and its options. Rows and options may be left out,
and each option may. Decoding refuses an id that is blank and a row that is not an object; encoding
leaves out the options that are not set.
-/

namespace ReactiveMarkup

namespace MergeType

/-- The word for a merge type. -/
def word : MergeType → String
  | .replace => "replace"
  | .append => "append"

/-- The merge type of a word. -/
def ofWord? (word : String) : Option MergeType :=
  if word = "replace" then some .replace else if word = "append" then some .append else none

/-- The merge type of a document: its word, or an object with null under that word. -/
def decode : Document → Option MergeType
  | .string (some word) => ofWord? word
  | .object [(some word, .null)] => ofWord? word
  | _ => none

end MergeType

namespace SourceOptions

/-- The names of the options in the order of their declaration. -/
def names : List String := ["mergeType", "keyFieldName", "statusFieldName", "extra"]

/-- The options a document holds, which may be nested at most `depth` deep. -/
def decode (depth : Nat) (document : Document) : Option SourceOptions := do
  let fields ← document.record names
  return {
    mergeType := ← Document.field fields "mergeType" .replace MergeType.decode
    keyField := ← Document.field fields "keyFieldName" none (Document.orNull Document.text?)
    statusField := ← Document.field fields "statusFieldName" none (Document.orNull Document.text?)
    extra := ← Document.field fields "extra" none (Document.orNull (Document.toValue (depth - 1))) }

def toValue (options : SourceOptions) : Value :=
  let text (name : String) (value : Option String) :=
    value.toList.map fun v => (name, Value.string v)
  .object (Fields.ofList ([("mergeType", .string options.mergeType.word)]
    ++ text "keyFieldName" options.keyField ++ text "statusFieldName" options.statusField
    ++ options.extra.toList.map fun extra => ("extra", extra)))

end SourceOptions

/-- A source in its wire form, before it is checked. -/
structure WireSource where
  id : String
  rows : List Value
  options : Option SourceOptions

namespace WireSource

/-- The names of the fields in the order of their declaration. -/
def names : List String := ["id", "rows", "options"]

/-- The values of a document that is an array nested at most `depth` deep. -/
def decodeRows (depth : Nat) : Document → Option (List Value)
  | .array items => Document.toValues (depth - 1) items
  | _ => none

/-- The wire source a document holds. -/
def decode (document : Document) : Option WireSource := do
  let depth := Document.greatestDepth - 1
  let fields ← document.record names
  let id ← fields.lookup "id"
  return {
    id := ← id.text?
    rows := ← Document.field fields "rows" [] (decodeRows depth)
    options :=
      ← Document.field fields "options" none (Document.orNull (SourceOptions.decode depth)) }

/-- The rows of a wire source from an index on, if all of them are objects. -/
def checkRows (id : String) : Nat → List Value → Except Error (List Row)
  | _, [] => .ok []
  | index, .object fields :: rest => do
    let rows ← checkRows id (index + 1) rest
    return fields :: rows
  | index, other :: _ => .error (.invalidSource id (.notRecord index other.compact))

end WireSource

namespace Source

/-- The source a wire source stands for. -/
def ofWire (wire : WireSource) : Except Error Source :=
  if Text.isBlank wire.id then .error (.invalidSource wire.id .emptyId)
  else do
    let rows ← WireSource.checkRows wire.id 0 wire.rows
    return make wire.id rows (wire.options.getD {})

/-- Reads a source in its wire form. -/
def read (text : String) : Except Error Source :=
  match (Document.read text).bind WireSource.decode with
  | none => .error (.invalidSource "<unknown>" .unreadable)
  | some wire => ofWire wire

/-- A source in its wire form. -/
def toWire (source : Source) : Value :=
  .object (Fields.ofList [
    ("id", .string source.id),
    ("rows", .array (source.rows.map .object)),
    ("options", source.options.toValue)])

end Source

end ReactiveMarkup
