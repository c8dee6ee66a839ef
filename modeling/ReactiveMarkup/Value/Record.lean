import ReactiveMarkup.Value.Document

/-!
# Records in documents

A record with known fields is written as an object, or as an array of the field values in the order
in which the fields are declared. Fields nobody knows are passed over, a known field may not come
twice, and an array may not have more items than there are fields.
-/

namespace ReactiveMarkup.Document

/-- The members of an object whose names all are texts. -/
def namedMembers : List (Option String × Document) → Option (List (String × Document))
  | [] => some []
  | (name, value) :: rest => do
    let name ← name
    let more ← namedMembers rest
    return (name, value) :: more

/-- Whether some field comes twice. -/
def hasRepeat : List (String × Document) → Bool
  | [] => false
  | (name, _) :: rest => (rest.any fun other => other.1 == name) || hasRepeat rest

/-- The known fields of a record, as far as they are given. -/
def record (known : List String) : Document → Option (List (String × Document))
  | .object members => do
    let named ← namedMembers members
    let fields := named.filter fun member => known.contains member.1
    if hasRepeat fields then none else some fields
  | .array items => if items.length ≤ known.length then some (known.zip items) else none
  | _ => none

/-- The text of a document that is one. -/
def text? : Document → Option String
  | .string text => text
  | _ => none

/-- The texts of a document that is an array of texts. -/
def texts? : Document → Option (List String)
  | .array items => items.mapM text?
  | _ => none

/-- A field that may be missing, which then has a default. -/
def field {α : Type} (fields : List (String × Document)) (name : String) (default : α)
    (decode : Document → Option α) : Option α :=
  match fields.lookup name with
  | some document => decode document
  | none => some default

/-- A decoder that takes null for nothing. -/
def orNull {α : Type} (decode : Document → Option α) : Document → Option (Option α)
  | .null => some none
  | document => (decode document).map some

/-- The fields of a document that is an object nested at most `depth` deep. -/
def fields? (depth : Nat) : Document → Option Fields
  | .object members =>
    match toValue depth (.object members) with
    | some (.object fields) => some fields
    | _ => none
  | _ => none

end ReactiveMarkup.Document
