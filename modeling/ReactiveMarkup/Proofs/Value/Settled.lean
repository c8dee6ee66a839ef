import ReactiveMarkup.Proofs.Value.Reading

/-!
# Values that reading gives are settled

Reading keeps a document as it was written: members in any order, a name more than once. Its value has one
field a name, in the order of the names. Writing that value and reading it again gives it back, and nothing is
lost by that any more: the fields are in their order, so none is moved, and no name comes twice.
-/

namespace ReactiveMarkup

namespace Fields

variable {fields : Fields} {name : String} {value : Value}

/-- Whether fields come in ascending order of their names, and no name twice. -/
def Ordered (fields : Fields) : Prop := fields.Pairwise fun a b => a.1 < b.1

theorem mem_of_mem_insert {field : String × Value} (h : field ∈ fields.insert name value) :
    field = (name, value) ∨ field ∈ fields := by
  induction fields with
  | nil => exact .inl (List.mem_singleton.mp h)
  | cons other rest ih =>
      rw [insert] at h
      split at h
      · rcases List.mem_cons.mp h with hhead | hrest
        · exact .inl hhead
        · exact .inr (List.mem_cons_of_mem _ hrest)
      split at h
      · rcases List.mem_cons.mp h with hhead | hrest
        · exact .inl hhead
        · exact .inr hrest
      · rcases List.mem_cons.mp h with rfl | hrest
        · exact .inr List.mem_cons_self
        · exact (ih hrest).imp id (List.mem_cons_of_mem _)

theorem Ordered.insert (h : fields.Ordered) (name : String) (value : Value) :
    (fields.insert name value).Ordered := by
  induction fields with
  | nil => exact List.pairwise_singleton _ _
  | cons other rest ih =>
      obtain ⟨hother, hrest⟩ := List.pairwise_cons.mp h
      rw [Fields.insert]
      split
      · next heq => exact List.pairwise_cons.mpr ⟨fun field hfield => heq ▸ hother field hfield, hrest⟩
      split
      · next hlt =>
          refine List.pairwise_cons.mpr ⟨List.forall_mem_cons.mpr ⟨hlt, fun field hfield => ?_⟩, h⟩
          exact String.lt_trans hlt (hother field hfield)
      · next hne hnlt =>
          refine List.pairwise_cons.mpr ⟨fun field hfield => ?_, ih hrest⟩
          rcases mem_of_mem_insert hfield with rfl | hfield
          · exact Std.lt_of_le_of_ne (String.not_lt.mp hnlt) (Ne.symm hne)
          · exact hother field hfield

/-- A name behind all others goes to the end. -/
theorem insert_of_lt (h : ∀ field ∈ fields, field.1 < name) (value : Value) :
    fields.insert name value = fields ++ [(name, value)] := by
  induction fields with
  | nil => rfl
  | cons other rest ih =>
      obtain ⟨hother, hrest⟩ := List.forall_mem_cons.mp h
      rw [insert, if_neg, if_neg (String.lt_asymm hother), ih hrest, List.cons_append]
      rintro rfl
      exact String.lt_irrefl _ hother

theorem ordered_ofList (entries : List (String × Value)) : (ofList entries).Ordered := by
  rw [ofList]
  induction entries using List.reverseRecOn with
  | nil => exact List.Pairwise.nil
  | append_singleton entries entry ih =>
      rw [List.foldl_append]
      exact ih.insert entry.1 entry.2

theorem mem_of_mem_ofList {entries : List (String × Value)} {field : String × Value}
    (h : field ∈ ofList entries) : field ∈ entries := by
  rw [ofList] at h
  induction entries using List.reverseRecOn with
  | nil => exact h
  | append_singleton entries entry ih =>
      rw [List.foldl_append] at h
      rcases mem_of_mem_insert h with rfl | h
      · exact List.mem_append_right _ (List.mem_singleton_self _)
      · exact List.mem_append_left _ (ih h)

/-- Fields in their order stay as they are. -/
theorem Ordered.ofList_eq (h : fields.Ordered) : ofList fields = fields := by
  rw [ofList]
  induction fields using List.reverseRecOn with
  | nil => rfl
  | append_singleton fields field ih =>
      obtain ⟨hfields, -, hlast⟩ := List.pairwise_append.mp h
      rw [List.foldl_append, ih hfields]
      exact insert_of_lt (fun other hother => hlast other hother field (List.mem_singleton_self _)) field.2

end Fields

/-- Whether the document that a value is written as is that value again. -/
def Value.Settled (depth : Nat) (value : Value) : Prop :=
  Document.toValue depth (.ofValue value) = some value

namespace Document

open Value (Settled)

theorem toValues_ofValues {depth : Nat} {values : List Value}
    (h : ∀ value ∈ values, Settled depth value) : toValues depth (ofValues values) = some values := by
  induction values with
  | nil => rfl
  | cons value rest ih =>
      obtain ⟨hvalue, hrest⟩ := List.forall_mem_cons.mp h
      rw [ofValues, toValues, hvalue, ih hrest]
      rfl

theorem toEntries_ofFields {depth : Nat} {fields : Fields}
    (h : ∀ field ∈ fields, Settled depth field.2) : toEntries depth (ofFields fields) = some fields := by
  induction fields with
  | nil => rfl
  | cons field rest ih =>
      obtain ⟨hfield, hrest⟩ := List.forall_mem_cons.mp h
      rw [ofFields, toEntries, Option.bind_eq_bind, Option.bind_some, hfield, ih hrest]
      rfl

theorem settled_array {depth : Nat} {items : List Value} (h : ∀ item ∈ items, Settled depth item) :
    Settled (depth + 1) (.array items) := by
  rw [Settled, ofValue, toValue, toValues_ofValues h]
  rfl

theorem settled_object {depth : Nat} {fields : Fields} (hordered : fields.Ordered)
    (h : ∀ field ∈ fields, Settled depth field.2) : Settled (depth + 1) (.object fields) := by
  rw [Settled, ofValue, toValue, toEntries_ofFields h, Option.map_some, hordered.ofList_eq]

mutual

/-- What a document is read as is settled. -/
theorem settled_of_toValue : ∀ {depth : Nat} {document : Document} {value : Value},
    toValue depth document = some value → Settled depth value
  | depth, .null, value, h => by
      rw [toValue] at h
      cases h
      rw [Settled, ofValue, toValue]
  | depth, .bool b, value, h => by
      rw [toValue] at h
      cases h
      rw [Settled, ofValue, toValue]
  | depth, .number n, value, h => by
      rw [toValue] at h
      obtain ⟨n, rfl, rfl⟩ := Option.map_eq_some_iff.mp h
      rw [Settled, ofValue, toValue]
      rfl
  | depth, .string text, value, h => by
      rw [toValue] at h
      obtain ⟨text, rfl, rfl⟩ := Option.map_eq_some_iff.mp h
      rw [Settled, ofValue, toValue]
      rfl
  | 0, .array items, value, h => by cases h
  | 0, .object members, value, h => by cases h
  | depth + 1, .array items, value, h => by
      rw [toValue] at h
      obtain ⟨values, hvalues, rfl⟩ := Option.map_eq_some_iff.mp h
      exact settled_array (settled_of_toValues hvalues)
  | depth + 1, .object members, value, h => by
      rw [toValue] at h
      obtain ⟨entries, hentries, rfl⟩ := Option.map_eq_some_iff.mp h
      exact settled_object (Fields.ordered_ofList entries) fun field hfield =>
        settled_of_toEntries hentries field (Fields.mem_of_mem_ofList hfield)

theorem settled_of_toValues : ∀ {depth : Nat} {items : List Document} {values : List Value},
    toValues depth items = some values → ∀ value ∈ values, Settled depth value
  | depth, [], values, h => by
      cases h
      exact List.forall_mem_nil _
  | depth, item :: rest, values, h => by
      rw [toValues] at h
      obtain ⟨first, hfirst, h⟩ := Option.bind_eq_some_iff.mp h
      obtain ⟨others, hothers, h⟩ := Option.bind_eq_some_iff.mp h
      cases h
      exact List.forall_mem_cons.mpr ⟨settled_of_toValue hfirst, settled_of_toValues hothers⟩

theorem settled_of_toEntries : ∀ {depth : Nat} {members : List (Option String × Document)}
    {entries : List (String × Value)}, toEntries depth members = some entries →
      ∀ entry ∈ entries, Settled depth entry.2
  | depth, [], entries, h => by
      cases h
      exact List.forall_mem_nil _
  | depth, (name, document) :: rest, entries, h => by
      rw [toEntries] at h
      obtain ⟨name, -, h⟩ := Option.bind_eq_some_iff.mp h
      obtain ⟨first, hfirst, h⟩ := Option.bind_eq_some_iff.mp h
      obtain ⟨others, hothers, h⟩ := Option.bind_eq_some_iff.mp h
      cases h
      exact List.forall_mem_cons.mpr ⟨settled_of_toValue hfirst, settled_of_toEntries hothers⟩

end

/-- Only null is read as null. -/
theorem toValue_eq_null {depth : Nat} {document : Document} (h : toValue depth document = some .null) :
    document = .null := by
  cases document with
  | null => rfl
  | bool b =>
      rw [toValue] at h
      cases h
  | number n =>
      rw [toValue] at h
      obtain ⟨n, -, hn⟩ := Option.map_eq_some_iff.mp h
      cases hn
  | string text =>
      rw [toValue] at h
      obtain ⟨text, -, htext⟩ := Option.map_eq_some_iff.mp h
      cases htext
  | array items =>
      cases depth with
      | zero => cases h
      | succ depth =>
          rw [toValue] at h
          obtain ⟨values, -, hvalues⟩ := Option.map_eq_some_iff.mp h
          cases hvalues
  | object members =>
      cases depth with
      | zero => cases h
      | succ depth =>
          rw [toValue] at h
          obtain ⟨entries, -, hentries⟩ := Option.map_eq_some_iff.mp h
          cases hentries

end Document

/-- A settled value whose numbers are read back is what its compact text is read as. -/
theorem Value.Settled.read_compact {value : Value} (h : value.Settled Document.greatestDepth)
    (hnumbers : ∀ n ∈ value.numbers, n.readsBack = true) : Value.read value.compact = some value := by
  rw [Value.read, Document.read_compact hnumbers]
  exact h

end ReactiveMarkup
