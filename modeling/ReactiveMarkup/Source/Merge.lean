import ReactiveMarkup.Source.Basic

/-!
# Merging sources

A replacing source overwrites the entries of the positions that exist, drops those beyond its length
and opens new ones for the rest. An appending source adds entries at the end, unless both it and the
stored source name a key field: then each of its rows is taken on its own, in order, and looks for
the first entry with its key. A deleted row takes that entry away, an added row always opens an
entry, and any other row overwrites the entry it finds or opens one. The stored options stay, but
for `extra`, which an incoming one replaces.
-/

namespace ReactiveMarkup

namespace Entry

/-- The entry overwritten with another row. -/
def overwrite (entry : Entry) (row : Row) : Entry := ⟨row, entry.version + 1⟩

end Entry

namespace Source

/-- Writes rows over entries, position by position. -/
def overwriteAll : List Entry → List Row → List Entry
  | _, [] => []
  | [], row :: rows => { row } :: overwriteAll [] rows
  | entry :: entries, row :: rows => entry.overwrite row :: overwriteAll entries rows

/-- The key text of a row, if it has the key field. -/
def keyText? (keyField : String) (row : Row) : Option String :=
  (row.get? keyField).map Value.display

/-- The position of the first entry with the key text of a row. -/
def position? (keyField : String) (entries : List Entry) (row : Row) : Option Nat := do
  let key ← keyText? keyField row
  entries.findIdx? fun entry => keyText? keyField entry.row == some key

/-- The status of a row under a status field. -/
def statusOf? (statusField : Option String) (row : Row) : Option RowStatus := do
  let field ← statusField
  let value ← row.get? field
  RowStatus.ofValue? value

/-- Takes one row of a keyed append into the entries. -/
def upsert (keyField : String) (statusField : Option String) (entries : List Entry) (row : Row) :
    List Entry :=
  match statusOf? statusField row, position? keyField entries row with
  | some .deleted, some index => entries.eraseIdx index
  | some .deleted, none => entries
  | some .added, _ => entries ++ [{ row }]
  | _, some index => entries.modify index fun entry => entry.overwrite row
  | _, none => entries ++ [{ row }]

/-- The key field of an append: that of the incoming source, if both sources have one. -/
def mergeKey? (stored incoming : SourceOptions) : Option String :=
  match stored.keyField with
  | some _ => incoming.keyField
  | none => none

/-- The status field of a keyed append: that of the incoming source, or the stored one. -/
def mergeStatus? (stored incoming : SourceOptions) : Option String :=
  match incoming.statusField with
  | some field => some field
  | none => stored.statusField

/-- The entries of a stored source after an incoming one is merged into it. -/
def mergeEntries (stored incoming : Source) : List Entry :=
  match incoming.options.mergeType with
  | .replace => overwriteAll stored.entries incoming.rows
  | .append =>
    match mergeKey? stored.options incoming.options with
    | some keyField =>
      incoming.rows.foldl (upsert keyField (mergeStatus? stored.options incoming.options))
        stored.entries
    | none => stored.entries ++ incoming.rows.map fun row => { row }

/-- Merges an incoming source into the stored one of the same id. -/
def merge (stored incoming : Source) : Source :=
  { stored with
    entries := mergeEntries stored incoming
    options :=
      match incoming.options.extra with
      | some extra => { stored.options with extra := some extra }
      | none => stored.options }

end Source

end ReactiveMarkup
