import Mathlib.Data.List.InsertIdx
import Mathlib.Data.List.Nodup
import ReactiveMarkup.Source.Merge

/-!
# Slots of rows

Every row is in a slot. A book keeps the slots of a source in the order of its rows, with a record
of which slot was opened and which was rewritten. It knows nothing of versions: how often a slot was
rewritten since it was opened is counted in the record.

A book tallies with entries if they are the rows in its slots, each with that count as its version.
Each of the four things that happen to a slot keeps that, and so does every way to merge: replacing
rewrites the slots of the positions that exist, drops those beyond the new length and opens slots for
the rest; a keyed row rewrites its slot, drops it or opens one; any other appended row opens one.
-/

namespace ReactiveMarkup

/-- A row in its slot. Numbers of slots are given out once. -/
structure RowSlot where
  row : Row
  number : Nat

/-- An entry of the record. -/
inductive SlotChange where
  | opened (number : Nat)
  | rewritten (number : Nat)
deriving DecidableEq

structure SlotBook where
  /-- The slots in the order of their rows. -/
  slots : List RowSlot := []
  /-- What happened to slots, the latest first. -/
  record : List SlotChange := []
  /-- The number of the next slot. -/
  next : Nat := 0

namespace SlotBook

/-- How often a slot was rewritten in a record, back to where it was opened. -/
def rewritesIn (number : Nat) : List SlotChange → Nat
  | [] => 0
  | .opened other :: earlier => if other = number then 0 else rewritesIn number earlier
  | .rewritten other :: earlier =>
    if other = number then rewritesIn number earlier + 1 else rewritesIn number earlier

/-- How often a slot was rewritten since it was opened. -/
def rewrites (book : SlotBook) (number : Nat) : Nat := rewritesIn number book.record

/-- Opens a slot for a row, behind the others. -/
def openSlot (book : SlotBook) (row : Row) : SlotBook where
  slots := book.slots ++ [⟨row, book.next⟩]
  record := .opened book.next :: book.record
  next := book.next + 1

/-- Writes a row over that of the slot at a position. -/
def rewrite (book : SlotBook) (index : Nat) (row : Row) : SlotBook :=
  match book.slots[index]? with
  | some slot =>
    { book with
      slots := book.slots.set index ⟨row, slot.number⟩
      record := .rewritten slot.number :: book.record }
  | none => book

/-- Drops the slot at a position. -/
def drop (book : SlotBook) (index : Nat) : SlotBook :=
  { book with slots := book.slots.eraseIdx index }

/-- Drops the slots beyond a length. -/
def keep (book : SlotBook) (length : Nat) : SlotBook :=
  { book with slots := book.slots.take length }

/-- Opens slots for rows. -/
def openSlots (book : SlotBook) (rows : List Row) : SlotBook := rows.foldl openSlot book

/-- Writes a row at a position, over the slot there or in a new one. -/
def writeAt (book : SlotBook) (row : Row) (index : Nat) : SlotBook :=
  if index < book.slots.length then book.rewrite index row else book.openSlot row

/-- Replaces all rows. -/
def replace (book : SlotBook) (rows : List Row) : SlotBook :=
  rows.zipIdx.foldl (fun book placed => book.writeAt placed.1 placed.2)
    (book.keep rows.length)

/-- The position of the first slot whose row has the key text of a row. -/
def position? (book : SlotBook) (keyField : String) (row : Row) : Option Nat := do
  let key ← Source.keyText? keyField row
  book.slots.findIdx? fun slot => Source.keyText? keyField slot.row == some key

/-- Takes a row of a keyed append. -/
def upsert (keyField : String) (statusField : Option String) (book : SlotBook) (row : Row) :
    SlotBook :=
  match Source.statusOf? statusField row, book.position? keyField row with
  | some .deleted, some index => book.drop index
  | some .deleted, none => book
  | some .added, _ => book.openSlot row
  | _, some index => book.rewrite index row
  | _, none => book.openSlot row

/-- Takes the rows of a source that is merged into one with the given options. -/
def merge (book : SlotBook) (stored : SourceOptions) (incoming : Source) : SlotBook :=
  match incoming.options.mergeType with
  | .replace => book.replace incoming.rows
  | .append =>
    match Source.mergeKey? stored incoming.options with
    | some keyField =>
      incoming.rows.foldl (upsert keyField (Source.mergeStatus? stored incoming.options)) book
    | none => book.openSlots incoming.rows

/-! ### What tallies with a book -/

/-- The entry that tallies with a slot. -/
def entryOf (book : SlotBook) (slot : RowSlot) : Entry := ⟨slot.row, book.rewrites slot.number⟩

/-- The book is in order, and the entries are those of its slots. -/
structure Tallies (book : SlotBook) (entries : List Entry) : Prop where
  distinct : (book.slots.map RowSlot.number).Nodup
  small : ∀ slot ∈ book.slots, slot.number < book.next
  entries : entries = book.slots.map book.entryOf

variable {book : SlotBook} {entries : List Entry}

theorem tallies_empty : Tallies {} [] := ⟨.nil, by simp, rfl⟩

theorem Tallies.length (h : book.Tallies entries) : entries.length = book.slots.length := by
  rw [h.entries, List.length_map]

/-- Nothing changes for a slot when another one is opened. -/
theorem entryOf_openSlot {slot : RowSlot} (h : slot.number < book.next) (row : Row) :
    (book.openSlot row).entryOf slot = book.entryOf slot := by
  rw [entryOf, entryOf, rewrites, openSlot, rewritesIn, if_neg (Nat.ne_of_gt h), rewrites]

theorem Tallies.openSlot (h : book.Tallies entries) (row : Row) :
    (book.openSlot row).Tallies (entries ++ [⟨row, 0⟩]) := by
  have hnext : ∀ slot ∈ book.slots, slot.number ≠ book.next :=
    fun slot hslot => Nat.ne_of_lt (h.small slot hslot)
  refine ⟨?_, ?_, ?_⟩
  · simp only [SlotBook.openSlot, List.map_append, List.map_cons, List.map_nil]
    refine List.nodup_append.mpr ⟨h.distinct, by simp, ?_⟩
    simp only [List.mem_map, List.mem_singleton]
    rintro _ ⟨slot, hslot, rfl⟩ _ rfl
    exact hnext slot hslot
  · intro slot hslot
    rcases List.mem_append.mp hslot with hslot | hslot
    · exact Nat.lt_succ_of_lt (h.small slot hslot)
    · rw [List.mem_singleton.mp hslot]
      exact Nat.lt_succ_self _
  · have hnew : (book.openSlot row).entryOf ⟨row, book.next⟩ = ⟨row, 0⟩ := by
      rw [entryOf, rewrites, SlotBook.openSlot, rewritesIn, if_pos rfl]
    rw [h.entries, show (book.openSlot row).slots = book.slots ++ [⟨row, book.next⟩] from rfl,
      List.map_append, List.map_singleton, hnew]
    refine congrArg (fun front => front ++ [(⟨row, 0⟩ : Entry)]) ?_
    refine List.map_congr_left fun slot hslot => ?_
    exact (entryOf_openSlot (h.small slot hslot) row).symm

/-- Nothing changes for a slot when another one is rewritten. -/
theorem entryOf_rewrite_of_ne {index : Nat} {slot other : RowSlot}
    (hslot : book.slots[index]? = some slot) (h : slot.number ≠ other.number) (row : Row) :
    (book.rewrite index row).entryOf other = book.entryOf other := by
  rw [entryOf, entryOf, rewrites, SlotBook.rewrite, hslot]
  dsimp only
  rw [rewritesIn, if_neg h, rewrites]

theorem entryOf_rewrite {index : Nat} {slot : RowSlot} (hslot : book.slots[index]? = some slot)
    (row : Row) :
    (book.rewrite index row).entryOf ⟨row, slot.number⟩ = (book.entryOf slot).overwrite row := by
  rw [entryOf, rewrites, SlotBook.rewrite, hslot]
  dsimp only
  rw [rewritesIn, if_pos rfl]
  rfl

theorem slots_rewrite {index : Nat} {slot : RowSlot} (hslot : book.slots[index]? = some slot)
    (row : Row) : (book.rewrite index row).slots = book.slots.set index ⟨row, slot.number⟩ := by
  rw [SlotBook.rewrite, hslot]

theorem next_rewrite (index : Nat) (row : Row) : (book.rewrite index row).next = book.next := by
  rw [SlotBook.rewrite]
  split <;> rfl

theorem Tallies.rewrite (h : book.Tallies entries) {index : Nat} (hindex : index < entries.length)
    (row : Row) :
    (book.rewrite index row).Tallies (entries.modify index fun entry => entry.overwrite row) := by
  rw [h.length] at hindex
  obtain ⟨slot, hslot⟩ : ∃ slot, book.slots[index]? = some slot :=
    ⟨_, List.getElem?_eq_getElem hindex⟩
  have hmem : slot ∈ book.slots := List.mem_of_getElem? hslot
  refine ⟨?_, ?_, ?_⟩
  · have hsame : (book.slots.map RowSlot.number)[index]? = some slot.number := by
      rw [List.getElem?_map, hslot]
      rfl
    obtain ⟨hlt, hget⟩ := List.getElem?_eq_some_iff.mp hsame
    rw [slots_rewrite hslot, List.map_set]
    rw [← hget, List.set_getElem_self]
    exact h.distinct
  · rw [slots_rewrite hslot, next_rewrite]
    intro other hother
    rcases List.mem_or_eq_of_mem_set hother with hother | rfl
    · exact h.small other hother
    · exact h.small slot hmem
  · rw [slots_rewrite hslot, h.entries]
    refine List.ext_getElem? fun i => ?_
    rw [List.getElem?_modify, List.getElem?_map, List.getElem?_map, List.getElem?_set]
    by_cases hi : index = i
    · subst hi
      rw [if_pos rfl, if_pos hindex, hslot]
      simp [entryOf_rewrite hslot]
    · rw [if_neg hi]
      cases hother : book.slots[i]? with
      | none => rfl
      | some other =>
        have hne : slot.number ≠ other.number := by
          intro hsame
          obtain ⟨hlt, hget⟩ := List.getElem?_eq_some_iff.mp hother
          obtain ⟨hlt', hget'⟩ := List.getElem?_eq_some_iff.mp hslot
          obtain rfl := List.inj_on_of_nodup_map h.distinct hmem (List.mem_of_getElem? hother) hsame
          exact hi ((h.distinct.of_map _).getElem_inj_iff.mp (hget'.trans hget.symm))
        simp [hi, entryOf_rewrite_of_ne hslot hne]

theorem Tallies.drop (h : book.Tallies entries) (index : Nat) :
    (book.drop index).Tallies (entries.eraseIdx index) := by
  refine ⟨?_, fun slot hslot => h.small slot (List.mem_of_mem_eraseIdx hslot), ?_⟩
  · exact h.distinct.sublist ((List.eraseIdx_sublist _ _).map _)
  · rw [h.entries, List.eraseIdx_map]
    rfl

theorem Tallies.keep (h : book.Tallies entries) (length : Nat) :
    (book.keep length).Tallies (entries.take length) := by
  refine ⟨?_, fun slot hslot => h.small slot (List.mem_of_mem_take hslot), ?_⟩
  · exact h.distinct.sublist ((List.take_sublist _ _).map _)
  · rw [h.entries, ← List.map_take]
    rfl

/-! ### Merging -/

theorem Tallies.openSlots (h : book.Tallies entries) (rows : List Row) :
    (book.openSlots rows).Tallies (entries ++ rows.map fun row => (⟨row, 0⟩ : Entry)) := by
  induction rows generalizing book entries with
  | nil => simpa [SlotBook.openSlots] using h
  | cons row rows ih =>
    have hrest := ih (h.openSlot row)
    rwa [List.append_assoc] at hrest

/-- Entries beyond the rows that are written over them are out. -/
theorem overwriteAll_take (entries : List Entry) (rows : List Row) :
    Source.overwriteAll (entries.take rows.length) rows = Source.overwriteAll entries rows := by
  induction rows generalizing entries with
  | nil => cases entries <;> rfl
  | cons row rows ih =>
    cases entries with
    | nil => rfl
    | cons entry entries => exact congrArg (_ :: ·) (ih entries)

theorem modify_length_append (done : List Entry) (entry : Entry) (entries : List Entry)
    (f : Entry → Entry) :
    (done ++ entry :: entries).modify done.length f = done ++ f entry :: entries := by
  induction done with
  | nil => rfl
  | cons first done ih => exact congrArg (first :: ·) ih

/-- Rows are written one after another, behind those that are done. -/
theorem Tallies.writeAll {done : List Entry} (h : book.Tallies (done ++ entries))
    (rows : List Row) (hlength : entries.length ≤ rows.length) :
    ((rows.zipIdx done.length).foldl (fun book placed => book.writeAt placed.1 placed.2)
      book).Tallies (done ++ Source.overwriteAll entries rows) := by
  induction rows generalizing book done entries with
  | nil =>
    obtain rfl := List.length_eq_zero_iff.mp (Nat.le_zero.mp hlength)
    exact h
  | cons row rows ih =>
    have hslots := h.length
    rw [List.length_append] at hslots
    rw [List.zipIdx_cons, List.foldl_cons]
    cases entries with
    | nil =>
      have hopened : (book.writeAt row done.length).Tallies ((done ++ [⟨row, 0⟩]) ++ []) := by
        rw [writeAt, if_neg (by rw [List.length_nil] at hslots; omega), List.append_nil]
        rw [List.append_nil] at h
        exact h.openSlot row
      have hrest := ih hopened (Nat.zero_le _)
      rw [List.length_append, List.append_assoc] at hrest
      exact hrest
    | cons entry entries =>
      have hwritten : (book.writeAt row done.length).Tallies
          ((done ++ [entry.overwrite row]) ++ entries) := by
        have hindex : done.length < (done ++ entry :: entries).length := by simp
        have hmodified := h.rewrite hindex row
        rw [modify_length_append, ← List.singleton_append, ← List.append_assoc] at hmodified
        rw [writeAt, if_pos (by rw [List.length_cons] at hslots; omega)]
        exact hmodified
      have hrest := ih hwritten (Nat.le_of_succ_le_succ hlength)
      rw [List.length_append, List.append_assoc] at hrest
      exact hrest

theorem Tallies.replace (h : book.Tallies entries) (rows : List Row) :
    (book.replace rows).Tallies (Source.overwriteAll entries rows) := by
  have hkept : (book.keep rows.length).Tallies ([] ++ entries.take rows.length) :=
    h.keep rows.length
  have hall := hkept.writeAll rows (List.length_take_le _ _)
  rwa [overwriteAll_take] at hall

/-- The book finds the slot of the entry that is found. -/
theorem Tallies.position? (h : book.Tallies entries) (keyField : String) (row : Row) :
    book.position? keyField row = Source.position? keyField entries row := by
  rw [SlotBook.position?, Source.position?, h.entries]
  simp only [List.findIdx?_map]
  rfl

theorem position?_lt {keyField : String} {row : Row} {index : Nat}
    (h : Source.position? keyField entries row = some index) : index < entries.length := by
  obtain ⟨key, -, hfound⟩ := Option.bind_eq_some_iff.mp h
  exact (List.findIdx?_eq_some_iff_findIdx_eq.mp hfound).1

theorem Tallies.upsert (h : book.Tallies entries) (keyField : String)
    (statusField : Option String) (row : Row) :
    (SlotBook.upsert keyField statusField book row).Tallies
      (Source.upsert keyField statusField entries row) := by
  rw [SlotBook.upsert, Source.upsert, h.position?]
  cases hposition : Source.position? keyField entries row with
  | none =>
    rcases Source.statusOf? statusField row with _ | _ | _ | _
    · exact h.openSlot row
    · exact h.openSlot row
    · exact h.openSlot row
    · exact h
  | some index =>
    have hindex := position?_lt hposition
    rcases Source.statusOf? statusField row with _ | _ | _ | _
    · exact h.rewrite hindex row
    · exact h.openSlot row
    · exact h.rewrite hindex row
    · exact h.drop index

theorem Tallies.upsertAll (h : book.Tallies entries) (keyField : String)
    (statusField : Option String) (rows : List Row) :
    (rows.foldl (SlotBook.upsert keyField statusField) book).Tallies
      (rows.foldl (Source.upsert keyField statusField) entries) := by
  induction rows generalizing book entries with
  | nil => exact h
  | cons row rows ih => exact ih (h.upsert keyField statusField row)

/-- Merging keeps a book and the entries of a source together. -/
theorem Tallies.merge {stored : Source} (h : book.Tallies stored.entries) (incoming : Source) :
    (book.merge stored.options incoming).Tallies (stored.merge incoming).entries := by
  simp only [SlotBook.merge, Source.merge, Source.mergeEntries]
  cases incoming.options.mergeType with
  | replace => exact h.replace incoming.rows
  | append =>
    cases Source.mergeKey? stored.options incoming.options with
    | none => exact h.openSlots incoming.rows
    | some keyField => exact h.upsertAll keyField _ incoming.rows

theorem rows_make (id : String) (rows : List Row) (options : SourceOptions) :
    (Source.make id rows options).rows = rows := by
  rw [Source.rows, Source.make, List.map_map]
  exact List.map_id rows

/-- A source that was just made begins a book. -/
theorem tallies_make (id : String) (rows : List Row) (options : SourceOptions) :
    (openSlots {} (Source.make id rows options).rows).Tallies (Source.make id rows options).entries := by
  rw [rows_make]
  exact tallies_empty.openSlots rows

end SlotBook

end ReactiveMarkup
