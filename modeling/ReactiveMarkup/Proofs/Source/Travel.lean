import ReactiveMarkup.Proofs.Source.Slots
import ReactiveMarkup.Proofs.Unicode.Casing
import ReactiveMarkup.Proofs.Value.Settled
import ReactiveMarkup.Source.Wire

/-!
# Sources that travel

A source that was received, or that came of merging sources that were, can be sent on: it is read at the other
end with the id, the rows and the options that it has here, and sent again it is the same. Its versions stay
behind.

Nothing that travels is changed by travelling a second time. An id is in lower case, and not blank, since no
character that lower case moves comes to be a blank. A row was read, so its fields are in their order and no
deeper than may be read again. What was `extra` was read too, and was not null, or it would not be there.
Merging moves rows about and makes none of its own, and takes `extra` over as it is.

The fields of a record may be written in any order; they are found by their names.
-/

namespace ReactiveMarkup

namespace Document

/-! ## Records that were written -/

/-- The members of a record that the fields of an object are written as. -/
def named (fields : Fields) : List (String × Document) := fields.map fun field => (field.1, ofValue field.2)

theorem namedMembers_ofFields (fields : Fields) : namedMembers (ofFields fields) = some (named fields) := by
  induction fields with
  | nil => rfl
  | cons field rest ih =>
      rw [ofFields, namedMembers, ih]
      rfl

theorem hasRepeat_eq_false {members : List (String × Document)} (h : (members.map Prod.fst).Nodup) :
    hasRepeat members = false := by
  induction members with
  | nil => rfl
  | cons member rest ih =>
      obtain ⟨hnew, hrest⟩ := List.nodup_cons.mp h
      rw [hasRepeat, ih hrest, Bool.or_false, List.any_eq_false]
      intro other hother hsame
      exact hnew (List.mem_map.mpr ⟨other, hother, eq_of_beq hsame⟩)

theorem map_fst_named (fields : Fields) : (named fields).map Prod.fst = fields.map Prod.fst := by
  rw [named, List.map_map]
  rfl

section

variable {fields : Fields} {name : String} {value : Value} {α : Type}

/-- An object of known fields, each of them once, is a record of them. -/
theorem record_ofFields {known : List String} (hknown : ∀ field ∈ fields, field.1 ∈ known)
    (hnames : (fields.map Prod.fst).Nodup) :
    record known (.object (ofFields fields)) = some (named fields) := by
  have hall : (named fields).filter (fun member => known.contains member.1) = named fields := by
    rw [List.filter_eq_self]
    intro member hmember
    obtain ⟨field, hfield, rfl⟩ := List.mem_map.mp hmember
    exact List.contains_iff_mem.mpr (hknown field hfield)
  rw [record, namedMembers_ofFields, Option.bind_eq_bind, Option.bind_some]
  dsimp only
  rw [hall, hasRepeat_eq_false ((map_fst_named fields).symm ▸ hnames)]
  rfl

/-- A field is found by its name, wherever it stands. -/
theorem lookup_named (hnames : (fields.map Prod.fst).Nodup) (h : (name, value) ∈ fields) :
    (named fields).lookup name = some (ofValue value) := by
  induction fields with
  | nil => cases h
  | cons field rest ih =>
      obtain ⟨hnew, hrest⟩ := List.nodup_cons.mp hnames
      rw [named, List.map_cons, List.lookup_cons]
      rcases List.mem_cons.mp h with rfl | h
      · rw [beq_self_eq_true]
      · have hne : (name == field.1) = false := by
          rw [beq_eq_false_iff_ne]
          rintro rfl
          exact hnew (List.mem_map.mpr ⟨_, h, rfl⟩)
        rw [hne]
        exact ih hrest h

theorem field_named (hnames : (fields.map Prod.fst).Nodup) (h : (name, value) ∈ fields) (default : α)
    (decode : Document → Option α) :
    field (named fields) name default decode = decode (ofValue value) := by
  rw [field, lookup_named hnames h]

/-- A field that is written only where it is given is read as what was given. -/
theorem field_named_optional (write : α → Value) {given : Option α}
    {decode : Document → Option (Option α)} (hnames : (fields.map Prod.fst).Nodup)
    (hwritten : ∀ value, (name, value) ∈ fields ↔ ∃ a, given = some a ∧ write a = value)
    (hdecode : ∀ a, given = some a → decode (ofValue (write a)) = some (some a)) :
    field (named fields) name none decode = some given := by
  cases hgiven : given with
  | some a => rw [field_named hnames ((hwritten _).mpr ⟨a, hgiven, rfl⟩), hdecode a hgiven]
  | none =>
      have hmissing : (named fields).lookup name = none := by
        rw [List.lookup_eq_none_iff]
        intro member hmember
        obtain ⟨field, hfield, rfl⟩ := List.mem_map.mp hmember
        rw [bne_iff_ne]
        rintro rfl
        obtain ⟨a, ha, -⟩ := (hwritten field.2).mp hfield
        rw [hgiven] at ha
        cases ha
      rw [field, hmissing]

end

end Document

/-! ## Writing and reading back -/

namespace MergeType

theorem decode_word (merge : MergeType) : decode (.string (some merge.word)) = some merge := by
  cases merge <;> decide +kernel

end MergeType

namespace SourceOptions

/-- The fields that options are written as, in the order of their declaration. -/
def written (options : SourceOptions) : List (String × Value) :=
  [("mergeType", .string options.mergeType.word)]
    ++ (options.keyField.toList.map fun name => ("keyFieldName", .string name))
    ++ (options.statusField.toList.map fun name => ("statusFieldName", .string name))
    ++ options.extra.toList.map fun extra => ("extra", extra)

theorem names_written (options : SourceOptions) : (options.written.map Prod.fst).Sublist names := by
  have hgiven {α : Type} (given : Option α) (name : String) (write : α → Value) :
      ((given.toList.map fun a => (name, write a)).map Prod.fst).Sublist [name] := by
    cases given with
    | none => exact List.nil_sublist _
    | some a => exact List.Sublist.refl _
  simp only [written, List.map_append]
  exact (((List.Sublist.refl ["mergeType"]).append (hgiven _ "keyFieldName" .string)).append
    (hgiven _ "statusFieldName" .string)).append (hgiven _ "extra" id)

/-- Options are read back from their fields in any order. -/
theorem decode_written {options : SourceOptions} {depth : Nat} {fields : Fields}
    (hfields : fields.Perm options.written)
    (hextra : ∀ extra, options.extra = some extra → extra ≠ .null ∧ extra.Settled (depth - 1)) :
    decode depth (.object (Document.ofFields fields)) = some options := by
  have hnames : (fields.map Prod.fst).Nodup :=
    (hfields.map Prod.fst).nodup_iff.mpr ((names_written options).nodup (by decide))
  have hknown : ∀ field ∈ fields, field.1 ∈ names := fun field hfield =>
    (names_written options).subset (List.mem_map_of_mem (hfields.subset hfield))
  have hmerge : Document.field (Document.named fields) "mergeType" .replace MergeType.decode =
      some options.mergeType := by
    have hmem : ("mergeType", Value.string options.mergeType.word) ∈ fields :=
      hfields.mem_iff.mpr (by simp [written])
    rw [Document.field_named hnames hmem, Document.ofValue, MergeType.decode_word]
  have hkey : Document.field (Document.named fields) "keyFieldName" none (Document.orNull Document.text?) =
      some options.keyField :=
    Document.field_named_optional .string hnames
      (fun value => hfields.mem_iff.trans (by simp [written, eq_comm])) fun _ _ => rfl
  have hstatus : Document.field (Document.named fields) "statusFieldName" none
      (Document.orNull Document.text?) = some options.statusField :=
    Document.field_named_optional .string hnames
      (fun value => hfields.mem_iff.trans (by simp [written, eq_comm])) fun _ _ => rfl
  have hrest : Document.field (Document.named fields) "extra" none
      (Document.orNull (Document.toValue (depth - 1))) = some options.extra := by
    refine Document.field_named_optional id hnames
      (fun value => hfields.mem_iff.trans (by simp [written, eq_comm])) fun extra hgiven => ?_
    obtain ⟨hnull, hsettled⟩ := hextra extra hgiven
    rw [Document.orNull, id, hsettled]
    · rfl
    · cases extra <;> simp_all [Document.ofValue]
  rw [decode, Document.record_ofFields hknown hnames, Option.bind_eq_bind, Option.bind_some, hmerge, hkey,
    hstatus, hrest]
  rfl

end SourceOptions

namespace WireSource

theorem checkRows_objects (id : String) (index : Nat) (rows : List Row) :
    checkRows id index (rows.map .object) = .ok rows := by
  induction rows generalizing index with
  | nil => rfl
  | cons row rest ih =>
      rw [List.map_cons, checkRows, ih]
      rfl

/-- A wire source is read back from its fields in any order. -/
theorem decode_fields {id : String} {rows : List Value} {options : SourceOptions}
    {inner fields : Fields} (hinner : inner.Perm options.written)
    (hfields : fields.Perm [("id", .string id), ("rows", .array rows), ("options", .object inner)])
    (hrows : ∀ row ∈ rows, row.Settled (Document.greatestDepth - 2))
    (hextra : ∀ extra, options.extra = some extra →
      extra ≠ .null ∧ extra.Settled (Document.greatestDepth - 2)) :
    decode (.object (Document.ofFields fields)) = some ⟨id, rows, some options⟩ := by
  have hsame := hfields.map Prod.fst
  have hnames : (fields.map Prod.fst).Nodup :=
    hsame.nodup_iff.mpr (show ["id", "rows", "options"].Nodup by decide)
  have hknown : ∀ field ∈ fields, field.1 ∈ names := fun field hfield =>
    hsame.subset (List.mem_map_of_mem hfield)
  have hid : (Document.named fields).lookup "id" = some (.string (some id)) := by
    have hmem : ("id", Value.string id) ∈ fields := hfields.mem_iff.mpr (by simp)
    rw [Document.lookup_named hnames hmem, Document.ofValue]
  have hlist : Document.field (Document.named fields) "rows" []
      (decodeRows (Document.greatestDepth - 1)) = some rows := by
    have hmem : ("rows", Value.array rows) ∈ fields := hfields.mem_iff.mpr (by simp)
    rw [Document.field_named hnames hmem, Document.ofValue, decodeRows]
    exact Document.toValues_ofValues hrows
  have hoptions : Document.field (Document.named fields) "options" none
      (Document.orNull (SourceOptions.decode (Document.greatestDepth - 1))) = some (some options) := by
    have hmem : ("options", Value.object inner) ∈ fields := hfields.mem_iff.mpr (by simp)
    have hdecode : SourceOptions.decode (Document.greatestDepth - 1)
        (.object (Document.ofFields inner)) = some options := SourceOptions.decode_written hinner hextra
    rw [Document.field_named hnames hmem, Document.ofValue, Document.orNull, hdecode]
    · rfl
    · exact Document.noConfusion
  rw [decode, Document.record_ofFields hknown hnames, Option.bind_eq_bind, Option.bind_some, hid,
    Option.bind_eq_bind, Option.bind_some, hlist, hoptions]
  rfl

end WireSource

/-! ## What is read travels -/

theorem Document.field_eq_some {α : Type} {fields : List (String × Document)} {name : String}
    {default a : α} {decode : Document → Option α} (h : field fields name default decode = some a) :
    a = default ∨ ∃ document, decode document = some a := by
  rw [field] at h
  split at h
  · exact .inr ⟨_, h⟩
  · exact .inl (Option.some.inj h).symm

theorem Document.orNull_eq_some {α : Type} {document : Document} {a : α} {decode : Document → Option α}
    (h : orNull decode document = some (some a)) : document ≠ .null ∧ decode document = some a := by
  unfold orNull at h
  split at h
  · cases h
  · next hnull =>
      obtain ⟨b, hb, hab⟩ := Option.map_eq_some_iff.mp h
      exact ⟨hnull, Option.some.inj hab ▸ hb⟩

theorem SourceOptions.extra_of_decode {depth : Nat} {document : Document} {options : SourceOptions}
    (h : decode depth document = some options) {extra : Value} (hextra : options.extra = some extra) :
    extra ≠ .null ∧ extra.Settled (depth - 1) := by
  rw [decode] at h
  obtain ⟨fields, -, h⟩ := Option.bind_eq_some_iff.mp h
  obtain ⟨merge, -, h⟩ := Option.bind_eq_some_iff.mp h
  obtain ⟨key, -, h⟩ := Option.bind_eq_some_iff.mp h
  obtain ⟨status, -, h⟩ := Option.bind_eq_some_iff.mp h
  obtain ⟨given, hgiven, h⟩ := Option.bind_eq_some_iff.mp h
  obtain rfl := Option.some.inj h
  dsimp only at hextra
  subst hextra
  rcases Document.field_eq_some hgiven with hnone | ⟨written, hwritten⟩
  · cases hnone
  · obtain ⟨hnull, hvalue⟩ := Document.orNull_eq_some hwritten
    refine ⟨?_, Document.settled_of_toValue hvalue⟩
    rintro rfl
    exact hnull (Document.toValue_eq_null hvalue)

theorem WireSource.rows_of_decode {document : Document} {wire : WireSource}
    (h : decode document = some wire) : (∀ row ∈ wire.rows, row.Settled (Document.greatestDepth - 2)) ∧
      ∀ options, wire.options = some options → ∀ extra, options.extra = some extra →
        extra ≠ .null ∧ extra.Settled (Document.greatestDepth - 2) := by
  rw [decode] at h
  obtain ⟨fields, -, h⟩ := Option.bind_eq_some_iff.mp h
  obtain ⟨written, -, h⟩ := Option.bind_eq_some_iff.mp h
  obtain ⟨id, -, h⟩ := Option.bind_eq_some_iff.mp h
  obtain ⟨rows, hrows, h⟩ := Option.bind_eq_some_iff.mp h
  obtain ⟨given, hgiven, h⟩ := Option.bind_eq_some_iff.mp h
  obtain rfl := Option.some.inj h
  constructor
  · rcases Document.field_eq_some hrows with rfl | ⟨list, hlist⟩
    · exact List.forall_mem_nil _
    · unfold decodeRows at hlist
      split at hlist
      · exact Document.settled_of_toValues hlist
      · cases hlist
  · rintro options hoptions extra hextra
    dsimp only at hoptions
    subst hoptions
    rcases Document.field_eq_some hgiven with hnone | ⟨inner, hinner⟩
    · cases hnone
    · exact SourceOptions.extra_of_decode (Document.orNull_eq_some hinner).2 hextra

theorem WireSource.objects_of_checkRows {id : String} {index : Nat} {items : List Value} {rows : List Row}
    (h : checkRows id index items = .ok rows) : items = rows.map .object := by
  induction items generalizing index rows with
  | nil =>
      cases h
      rfl
  | cons item items ih =>
      cases item with
      | object fields =>
          rw [checkRows] at h
          cases hrest : checkRows id (index + 1) items with
          | error error =>
              rw [hrest] at h
              cases h
          | ok others =>
              rw [hrest] at h
              cases h
              rw [ih hrest, List.map_cons]
      | _ => cases h

/-! ## Sources that were received -/

namespace Fields

theorem perm_insert {fields : Fields} {name : String} (h : name ∉ fields.map Prod.fst) (value : Value) :
    (fields.insert name value).Perm ((name, value) :: fields) := by
  induction fields with
  | nil => exact .refl _
  | cons other rest ih =>
      rw [List.map_cons, List.mem_cons, not_or] at h
      rw [insert, if_neg h.1]
      split
      · exact .refl _
      · exact ((ih h.2).cons other).trans (.swap _ _ _)

/-- Fields of different names are only put in their order. -/
theorem perm_ofList {entries : List (String × Value)} (h : (entries.map Prod.fst).Nodup) :
    (ofList entries).Perm entries := by
  rw [ofList]
  induction entries using List.reverseRecOn with
  | nil => exact .refl _
  | append_singleton entries entry ih =>
      rw [List.map_append, List.nodup_append] at h
      obtain ⟨hentries, -, hnew⟩ := h
      have hperm := ih hentries
      rw [List.foldl_append]
      refine (perm_insert ?_ entry.2).trans ((hperm.cons entry).trans (List.perm_append_singleton ..).symm)
      intro hmem
      exact hnew entry.1 ((hperm.map Prod.fst).subset hmem) entry.1 (List.mem_singleton_self _) rfl

end Fields

namespace Source

/-- The fields that a source is sent as, with the fields of its options. -/
def written (source : Source) (options : Fields) : List (String × Value) :=
  [("id", .string source.id), ("rows", .array (source.rows.map .object)), ("options", .object options)]

/-- Whether a text is a source in its wire form, with the fields of its two records in any order. -/
def Writes (source : Source) (text : String) : Prop :=
  ∃ options fields : Fields, options.Perm source.options.written ∧
    fields.Perm (source.written options) ∧ text = (Value.object fields).compact

/-- The sources that were received in their wire form, and those that come of merging such sources. -/
inductive Received : Source → Prop
  | read {text : String} {source : Source} (h : read text = .ok source) : Received source
  | merge {stored incoming : Source} (hstored : Received stored) (hincoming : Received incoming) :
      Received (stored.merge incoming)

/-- What makes a source read back from its wire form. -/
structure Travels (source : Source) : Prop where
  lower : Unicode.lower source.id = source.id
  named : Text.isBlank source.id = false
  rows : ∀ row ∈ source.rows, (Value.object row).Settled (Document.greatestDepth - 2)
  extra : ∀ extra, source.options.extra = some extra →
    extra ≠ .null ∧ extra.Settled (Document.greatestDepth - 2)

variable {source stored incoming : Source}

/-- The wire form has the fields of both records in the order of their names. -/
theorem toWire_eq (source : Source) : ∃ options fields : Fields, options.Perm source.options.written ∧
    fields.Perm (source.written options) ∧ source.toWire = .object fields := by
  have hnames := (SourceOptions.names_written source.options).nodup (by decide)
  exact ⟨Fields.ofList source.options.written, _, Fields.perm_ofList hnames,
    Fields.perm_ofList (show ["id", "rows", "options"].Nodup by decide), rfl⟩

theorem writes_toWire (source : Source) : source.Writes source.toWire.compact := by
  obtain ⟨options, fields, hoptions, hfields, hwire⟩ := source.toWire_eq
  exact ⟨options, fields, hoptions, hfields, by rw [hwire]⟩

theorem mem_numbers_object {n : Number} {fields : Fields} :
    n ∈ (Value.object fields).numbers ↔ ∃ field ∈ fields, n ∈ field.2.numbers := by
  rw [Value.numbers, Value.numbersOfFields_eq, List.mem_flatMap]

/-- The order of the fields makes no difference to the numbers in them. -/
theorem mem_numbers_iff {options fields : Fields} {n : Number}
    (hoptions : options.Perm source.options.written) (hfields : fields.Perm (source.written options)) :
    n ∈ (Value.object fields).numbers ↔ n ∈ (Value.array (source.rows.map .object)).numbers ∨
      n ∈ (Value.object source.options.written).numbers := by
  have hid : n ∉ (Value.string source.id).numbers := List.not_mem_nil
  have hinner : n ∈ (Value.object options).numbers ↔
      n ∈ (Value.object source.options.written).numbers := by
    rw [mem_numbers_object, mem_numbers_object]
    exact exists_congr fun field => and_congr_left' hoptions.mem_iff
  rw [mem_numbers_object, ← hinner]
  constructor
  · rintro ⟨field, hfield, hn⟩
    rcases List.mem_cons.mp (hfields.subset hfield) with rfl | hfield
    · exact absurd hn hid
    rcases List.mem_cons.mp hfield with rfl | hfield
    · exact .inl hn
    · rw [List.mem_singleton.mp hfield] at hn
      exact .inr hn
  · rintro (hn | hn)
    · exact ⟨("rows", _), hfields.symm.subset (by simp [written]), hn⟩
    · exact ⟨("options", _), hfields.symm.subset (by simp [written]), hn⟩

/-! ## Merging -/

theorem row_mem_of_mem_overwriteAll {entries : List Entry} {rows : List Row} {entry : Entry}
    (h : entry ∈ overwriteAll entries rows) : entry.row ∈ rows := by
  induction rows generalizing entries with
  | nil =>
      rw [overwriteAll] at h
      cases h
  | cons row rows ih =>
      cases entries with
      | nil =>
          rcases List.mem_cons.mp h with rfl | h
          · exact List.mem_cons_self
          · exact List.mem_cons_of_mem _ (ih h)
      | cons other entries =>
          rcases List.mem_cons.mp h with rfl | h
          · exact List.mem_cons_self
          · exact List.mem_cons_of_mem _ (ih h)

theorem row_eq_or_mem_of_mem_upsert {key : String} {status : Option String} {entries : List Entry}
    {row : Row} {entry : Entry} (h : entry ∈ upsert key status entries row) :
    entry.row = row ∨ entry ∈ entries := by
  have hadded (h : entry ∈ entries ++ [⟨row, 0⟩]) : entry.row = row ∨ entry ∈ entries := by
    rcases List.mem_append.mp h with h | h
    · exact .inr h
    · rw [List.mem_singleton.mp h]
      exact .inl rfl
  have hwritten (index : Nat) (h : entry ∈ entries.modify index fun entry => entry.overwrite row) :
      entry.row = row ∨ entry ∈ entries := by
    obtain ⟨i, hi⟩ := List.mem_iff_getElem?.mp h
    rw [List.getElem?_modify] at hi
    obtain ⟨other, hother, rfl⟩ := Option.map_eq_some_iff.mp hi
    split
    · exact .inl rfl
    · exact .inr (List.mem_iff_getElem?.mpr ⟨i, hother⟩)
  rw [upsert] at h
  split at h
  · exact .inr (List.mem_of_mem_eraseIdx h)
  · exact .inr h
  · exact hadded h
  · exact hwritten _ h
  · exact hadded h

/-- Merging moves rows about and makes none. -/
theorem row_mem_of_mem_merge {row : Row} (h : row ∈ (stored.merge incoming).rows) :
    row ∈ stored.rows ∨ row ∈ incoming.rows := by
  obtain ⟨entry, hentry, rfl⟩ := List.mem_map.mp h
  have hkept (h : entry ∈ stored.entries) : entry.row ∈ stored.rows := List.mem_map_of_mem h
  have hfold (rows : List Row) (key : String) (status : Option String) (entries : List Entry)
      (h : entry ∈ rows.foldl (upsert key status) entries) : entry.row ∈ rows ∨ entry ∈ entries := by
    induction rows generalizing entries with
    | nil => exact .inr h
    | cons row rows ih =>
        rcases ih _ h with hrow | hmem
        · exact .inl (List.mem_cons_of_mem _ hrow)
        · rcases row_eq_or_mem_of_mem_upsert hmem with heq | hold
          · exact .inl (List.mem_cons.mpr (.inl heq))
          · exact .inr hold
  simp only [merge, mergeEntries] at hentry
  split at hentry
  · exact .inr (row_mem_of_mem_overwriteAll hentry)
  · split at hentry
    · exact (hfold _ _ _ _ hentry).symm.imp_left hkept
    · rcases List.mem_append.mp hentry with hold | hnew
      · exact .inl (hkept hold)
      · obtain ⟨row, hrow, rfl⟩ := List.mem_map.mp hnew
        exact .inr hrow

theorem Travels.read {text : String} (h : read text = .ok source) : source.Travels := by
  rw [Source.read] at h
  split at h
  · cases h
  · next wire hwire =>
      obtain ⟨document, -, hdecode⟩ := Option.bind_eq_some_iff.mp hwire
      obtain ⟨hrows, hextra⟩ := WireSource.rows_of_decode hdecode
      rw [ofWire] at h
      split at h
      · cases h
      · next hblank =>
          cases hchecked : WireSource.checkRows wire.id 0 wire.rows with
          | error error =>
              rw [hchecked] at h
              cases h
          | ok rows =>
              rw [hchecked] at h
              cases h
              rw [Bool.not_eq_true] at hblank
              refine ⟨Unicode.lower_lower _, Unicode.isBlank_lower hblank, fun row hrow => ?_,
                fun extra hgiven => ?_⟩
              · rw [SlotBook.rows_make] at hrow
                exact hrows _ (WireSource.objects_of_checkRows hchecked ▸ List.mem_map_of_mem hrow)
              · cases hoptions : wire.options with
                | none =>
                    rw [make, hoptions] at hgiven
                    cases hgiven
                | some options =>
                    rw [make, hoptions] at hgiven
                    exact hextra options hoptions extra hgiven

theorem Travels.merge (hstored : stored.Travels) (hincoming : incoming.Travels) :
    (stored.merge incoming).Travels where
  lower := hstored.lower
  named := hstored.named
  rows row hrow := (row_mem_of_mem_merge hrow).elim (hstored.rows row) (hincoming.rows row)
  extra extra hextra := by
    rw [Source.merge] at hextra
    dsimp only at hextra
    split at hextra
    · next other hother => exact hincoming.extra extra (hextra ▸ hother)
    · exact hstored.extra extra hextra

theorem Received.travels (h : source.Received) : source.Travels := by
  induction h with
  | read h => exact Travels.read h
  | merge _ _ hstored hincoming => exact hstored.merge hincoming

/-! ## The round trip -/

/-- What a text of a source is read as: the source with fresh versions. -/
theorem Travels.read_of_writes (h : source.Travels) {text : String} (hwrites : source.Writes text)
    (hnumbers : ∀ n ∈ source.toWire.numbers, n.readsBack = true) :
    Source.read text = .ok (make source.id source.rows source.options) := by
  obtain ⟨options, fields, hoptions, hfields, rfl⟩ := hwrites
  obtain ⟨sentOptions, sent, hsentOptions, hsent, hwire⟩ := source.toWire_eq
  have hread : ∀ n ∈ (Value.object fields).numbers, n.readsBack = true := fun n hn => by
    refine hnumbers n ?_
    rw [hwire, mem_numbers_iff hsentOptions hsent]
    exact (mem_numbers_iff hoptions hfields).mp hn
  have hdecode : WireSource.decode (.ofValue (.object fields)) =
      some ⟨source.id, source.rows.map .object, some source.options⟩ :=
    WireSource.decode_fields hoptions hfields (List.forall_mem_map.mpr h.rows) h.extra
  rw [Source.read, Document.read_compact hread, Option.bind_some, hdecode]
  dsimp only
  rw [ofWire, h.named, WireSource.checkRows_objects]
  rfl

/-- A source that was received, or that came of merging such sources, is read back from its wire form with its
id, its rows in their order and its options, and with versions of zero; sent again it is the same. -/
theorem received_round_trip (h : source.Received)
    (hnumbers : ∀ n ∈ source.toWire.numbers, n.readsBack = true) :
    source.Writes source.toWire.compact ∧ ∀ text, source.Writes text →
      ∃ back, Source.read text = .ok back ∧ back.id = source.id ∧ back.rows = source.rows ∧
        back.options = source.options ∧ (∀ version ∈ back.versions, version = 0) ∧
          back.toWire = source.toWire := by
  have htravels := h.travels
  refine ⟨source.writes_toWire, fun text hwrites =>
    ⟨make source.id source.rows source.options, htravels.read_of_writes hwrites hnumbers, htravels.lower,
      SlotBook.rows_make _ _ _, rfl, fun version hversion => ?_, ?_⟩⟩
  · obtain ⟨entry, hentry, rfl⟩ := List.mem_map.mp hversion
    obtain ⟨row, -, rfl⟩ := List.mem_map.mp hentry
    rfl
  · rw [toWire, SlotBook.rows_make, toWire]
    simp only [make, htravels.lower]

/-- Users as they may be sent: fields in no order, and letters of the id in both cases. -/
def sentUsers : String :=
  "\x7b\"options\":\x7b\"keyFieldName\":\"id\",\"mergeType\":\"append\",\"statusFieldName\":null\x7d," ++
  "\"id\":\"Db.ΧΡΗΣΤΕΣ\",\"rows\":[\x7b\"name\":\"ada\",\"id\":1\x7d,\x7b\"tags\":[\"x\"],\"id\":2\x7d]\x7d"

/-- An append to these users, as an array, with a name that comes twice and something carried along. -/
def sentEdits : String :=
  "[\"db.χρηστες\",[\x7b\"id\":2,\"id\":1,\"name\":\"eve\"\x7d,\x7b\"id\":3\x7d]," ++
  "\x7b\"mergeType\":\"append\",\"keyFieldName\":\"id\",\"extra\":\x7b\"page\":-7\x7d\x7d]"

/-- The users with the append, as they are sent on. -/
def mergedUsers : String :=
  "\x7b\"id\":\"db.χρηστες\",\"options\":\x7b\"extra\":\x7b\"page\":-7\x7d,\"keyFieldName\":\"id\"," ++
  "\"mergeType\":\"append\"\x7d,\"rows\":[\x7b\"id\":1,\"name\":\"eve\"\x7d," ++
  "\x7b\"id\":2,\"tags\":[\"x\"]\x7d,\x7b\"id\":3\x7d]\x7d"

theorem merged_users_round_trip : ∃ stored incoming back, read sentUsers = .ok stored ∧
    read sentEdits = .ok incoming ∧ (stored.merge incoming).toWire.compact = mergedUsers ∧
      read mergedUsers = .ok back ∧ back.rows = (stored.merge incoming).rows ∧
        back.toWire = (stored.merge incoming).toWire := by
  have hread : ((read sentUsers).toOption.bind fun stored => (read sentEdits).toOption.map fun incoming =>
      ((stored.merge incoming).toWire.compact,
        (stored.merge incoming).toWire.numbers.all Number.readsBack)) = some (mergedUsers, true) := by
    decide +kernel
  cases hstored : read sentUsers with
  | error error =>
      rw [hstored] at hread
      cases hread
  | ok stored =>
      cases hincoming : read sentEdits with
      | error error =>
          rw [hstored, hincoming] at hread
          cases hread
      | ok incoming =>
          rw [hstored, hincoming] at hread
          simp only [Except.toOption, Option.bind_some, Option.map_some, Option.some.injEq, Prod.mk.injEq,
            List.all_eq_true] at hread
          obtain ⟨htext, hnumbers⟩ := hread
          obtain ⟨hwrites, hback⟩ :=
            received_round_trip (.merge (.read hstored) (.read hincoming)) hnumbers
          obtain ⟨back, hread, -, hrows, -, -, hwire⟩ := hback _ hwrites
          exact ⟨stored, incoming, back, rfl, rfl, htext, htext ▸ hread, hrows, hwire⟩

end Source

end ReactiveMarkup
