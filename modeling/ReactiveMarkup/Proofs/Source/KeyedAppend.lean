import Mathlib.Data.List.Nodup
import Mathlib.Data.List.Perm.Basic
import ReactiveMarkup.Proofs.Source.Slots

/-!
# Keyed appends

Entries in which every row has a key text of its own are a map from key texts to entries, in an order.
A keyed append changes this map key by key: what becomes of a key follows from the rows of that key
alone. `Turn` is what one row does to the list. It says where the list is cut, so the order of all
other entries is read off it, and everything said of a whole batch is carried from row to row.

An added row is asked to find its key absent, because it opens an entry without looking. When it finds
the key there are two entries of it, and no map any more.
-/

namespace ReactiveMarkup

namespace Source

/-- Whether a row has a key text. -/
def hasKey (keyField key : String) (row : Row) : Bool := keyText? keyField row == some key

/-- Every row has a key text, and no two have the same. -/
structure Keyed (keyField : String) (entries : List Entry) : Prop where
  keyed : ∀ entry ∈ entries, (keyText? keyField entry.row).isSome
  distinct : (entries.map fun entry => keyText? keyField entry.row).Nodup

/-- Whether no entry has the key text of a row. -/
def Lacks (keyField : String) (entries : List Entry) (row : Row) : Prop :=
  ∀ entry ∈ entries, keyText? keyField entry.row ≠ keyText? keyField row

instance (keyField : String) (entries : List Entry) (row : Row) :
    Decidable (Lacks keyField entries row) :=
  List.decidableBAll (fun entry : Entry => keyText? keyField entry.row ≠ keyText? keyField row)
    entries

/-- The entry of a key. -/
def entryOf? (keyField key : String) (entries : List Entry) : Option Entry :=
  entries.find? fun entry => hasKey keyField key entry.row

/-- What becomes of the entry of a key when a row of that key is appended. -/
def takeRow (statusField : Option String) (held : Option Entry) (row : Row) : Option Entry :=
  match statusOf? statusField row, held with
  | some .deleted, _ => none
  | some .added, _ => some { row }
  | _, some entry => some (entry.overwrite row)
  | _, none => some { row }

/-- What becomes of the entry of a key when the rows of that key are appended. -/
def takeRows (keyField : String) (statusField : Option String) (rows : List Row) (key : String)
    (held : Option Entry) : Option Entry :=
  (rows.filter (hasKey keyField key)).foldl (takeRow statusField) held

/-- Whether every added row of a batch finds its key absent when its turn comes. -/
def Admits (keyField : String) (statusField : Option String) (entries : List Entry) :
    List Row → Prop
  | [] => True
  | row :: rest =>
    (statusOf? statusField row = some .added → Lacks keyField entries row) ∧
      Admits keyField statusField (upsert keyField statusField entries row) rest

instance decidableAdmits (keyField : String) (statusField : Option String) :
    (entries : List Entry) → (rows : List Row) →
      Decidable (Admits keyField statusField entries rows)
  | _, [] => .isTrue trivial
  | entries, row :: rest =>
    have := decidableAdmits keyField statusField (upsert keyField statusField entries row) rest
    inferInstanceAs (Decidable (_ ∧ _))

/-- What one row of a keyed append does. -/
inductive Turn (keyField : String) (statusField : Option String) (row : Row) :
    List Entry → List Entry → Prop
  /-- A deleted row takes the entry of its key away. -/
  | removes {before after : List Entry} {entry : Entry}
      (status : statusOf? statusField row = some .deleted)
      (same : keyText? keyField entry.row = keyText? keyField row) :
      Turn keyField statusField row (before ++ entry :: after) (before ++ after)
  /-- A deleted row of an absent key does nothing. -/
  | ignores {entries : List Entry} (status : statusOf? statusField row = some .deleted)
      (lacks : Lacks keyField entries row) : Turn keyField statusField row entries entries
  /-- An edited row, or one without a status that is known, overwrites the entry of its key. -/
  | replaces {before after : List Entry} {entry : Entry}
      (deleted : statusOf? statusField row ≠ some .deleted)
      (added : statusOf? statusField row ≠ some .added)
      (same : keyText? keyField entry.row = keyText? keyField row) :
      Turn keyField statusField row (before ++ entry :: after)
        (before ++ entry.overwrite row :: after)
  /-- A row of an absent key opens an entry, unless it is deleted. -/
  | opens {entries : List Entry} (status : statusOf? statusField row ≠ some .deleted)
      (lacks : Lacks keyField entries row) :
      Turn keyField statusField row entries (entries ++ [⟨row, 0⟩])

/-- The rows of a batch take their turns. -/
inductive Turns (keyField : String) (statusField : Option String) :
    List Row → List Entry → List Entry → Prop
  | nil {entries : List Entry} : Turns keyField statusField [] entries entries
  | cons {row : Row} {rest : List Row} {entries next after : List Entry}
      (turn : Turn keyField statusField row entries next)
      (turns : Turns keyField statusField rest next after) :
      Turns keyField statusField (row :: rest) entries after

variable {keyField key : String} {statusField : Option String} {row : Row}
  {entries after before : List Entry} {rows : List Row}

/-! ## Keys -/

theorem hasKey_iff : hasKey keyField key row = true ↔ keyText? keyField row = some key :=
  beq_iff_eq

theorem exists_keyText (h : (keyText? keyField row).isSome) :
    ∃ key, keyText? keyField row = some key := Option.isSome_iff_exists.mp h

/-- In keyed entries, the others do not have the key of one of them. -/
theorem Keyed.others {entry : Entry} (h : Keyed keyField (before ++ entry :: after)) :
    Lacks keyField (before ++ after) entry.row := by
  have hperm : (before ++ entry :: after).Perm (entry :: (before ++ after)) := List.perm_middle
  have hnodup := (hperm.map fun entry => keyText? keyField entry.row).nodup_iff.mp h.distinct
  rw [List.map_cons, List.nodup_cons] at hnodup
  intro other hother hsame
  exact hnodup.1 (List.mem_map.mpr ⟨other, hother, hsame⟩)

theorem Lacks.congr {other : Row} (h : Lacks keyField entries row)
    (hsame : keyText? keyField other = keyText? keyField row) : Lacks keyField entries other :=
  fun entry hentry heq => h entry hentry (heq.trans hsame)

theorem keyed_iff_insert {entry : Entry} :
    Keyed keyField (before ++ entry :: after) ↔
      (keyText? keyField entry.row).isSome ∧ Lacks keyField (before ++ after) entry.row ∧
        Keyed keyField (before ++ after) := by
  have hperm : (before ++ entry :: after).Perm (entry :: (before ++ after)) := List.perm_middle
  have hnodup := (hperm.map fun entry => keyText? keyField entry.row).nodup_iff
  rw [List.map_cons, List.nodup_cons] at hnodup
  constructor
  · intro h
    refine ⟨h.keyed entry (by simp), h.others, fun other hother => h.keyed other ?_, ?_⟩
    · exact hperm.mem_iff.mpr (List.mem_cons_of_mem _ hother)
    · exact (hnodup.mp h.distinct).2
  · rintro ⟨hsome, hlacks, hrest⟩
    refine ⟨fun other hother => ?_, hnodup.mpr ⟨fun hmem => ?_, hrest.distinct⟩⟩
    · rcases List.mem_cons.mp (hperm.mem_iff.mp hother) with rfl | hin
      · exact hsome
      · exact hrest.keyed other hin
    · obtain ⟨other, hother, hsame⟩ := List.mem_map.mp hmem
      exact hlacks other hother hsame

/-! ## One row -/

/-- The entry that is found is where the list can be cut. -/
theorem exists_cut_of_position {index : Nat} (h : position? keyField entries row = some index) :
    ∃ before entry after, entries = before ++ entry :: after ∧ before.length = index ∧
      keyText? keyField entry.row = keyText? keyField row := by
  obtain ⟨key, hkey, hfound⟩ := Option.bind_eq_some_iff.mp h
  obtain ⟨hindex, hhas, -⟩ := List.findIdx?_eq_some_iff_getElem.mp hfound
  refine ⟨entries.take index, entries[index], entries.drop (index + 1), ?_, ?_, ?_⟩
  · rw [List.getElem_cons_drop, List.take_append_drop]
  · rw [List.length_take, Nat.min_eq_left (Nat.le_of_lt hindex)]
  · rw [hkey]
    exact eq_of_beq hhas

theorem lacks_of_position (hrow : (keyText? keyField row).isSome)
    (h : position? keyField entries row = none) : Lacks keyField entries row := by
  obtain ⟨key, hkey⟩ := exists_keyText hrow
  have hfound : entries.findIdx? (fun entry => keyText? keyField entry.row == some key) = none := by
    rw [position?, hkey] at h
    exact h
  intro entry hentry hsame
  have hnot := List.findIdx?_eq_none_iff.mp hfound entry hentry
  rw [hsame, hkey, beq_self_eq_true] at hnot
  cases hnot

/-- An appended row takes one of the four turns. -/
theorem turn_upsert (hrow : (keyText? keyField row).isSome)
    (hadded : statusOf? statusField row = some .added → Lacks keyField entries row) :
    Turn keyField statusField row entries (upsert keyField statusField entries row) := by
  rw [upsert]
  cases hposition : position? keyField entries row with
  | none =>
      have hlacks := lacks_of_position hrow hposition
      cases hstatus : statusOf? statusField row with
      | none => exact .opens (by simp [hstatus]) hlacks
      | some status =>
          cases status with
          | added => exact .opens (by simp [hstatus]) hlacks
          | edited => exact .opens (by simp [hstatus]) hlacks
          | deleted => exact .ignores hstatus hlacks
  | some index =>
      obtain ⟨before, entry, after, rfl, rfl, hsame⟩ := exists_cut_of_position hposition
      have hmodify : (before ++ entry :: after).modify before.length (fun entry => entry.overwrite row) =
          before ++ entry.overwrite row :: after :=
        SlotBook.modify_length_append before entry after _
      have herase : (before ++ entry :: after).eraseIdx before.length = before ++ after := by
        rw [List.eraseIdx_append_of_length_le (Nat.le_refl _), Nat.sub_self, List.eraseIdx_cons_zero]
      cases hstatus : statusOf? statusField row with
      | none =>
          dsimp only
          rw [hmodify]
          exact .replaces (by simp [hstatus]) (by simp [hstatus]) hsame
      | some status =>
          cases status with
          | added => exact absurd hsame (hadded hstatus entry (by simp))
          | edited =>
              dsimp only
              rw [hmodify]
              exact .replaces (by simp [hstatus]) (by simp [hstatus]) hsame
          | deleted =>
              dsimp only
              rw [herase]
              exact .removes hstatus hsame

/-! ## What a turn keeps -/

theorem Turn.keyed (h : Turn keyField statusField row entries after)
    (hrow : (keyText? keyField row).isSome) (hkeyed : Keyed keyField entries) :
    Keyed keyField after := by
  cases h with
  | removes status same => exact (keyed_iff_insert.mp hkeyed).2.2
  | ignores status lacks => exact hkeyed
  | replaces deleted added same =>
      obtain ⟨-, hlacks, hrest⟩ := keyed_iff_insert.mp hkeyed
      exact keyed_iff_insert.mpr ⟨hrow, hlacks.congr same.symm, hrest⟩
  | opens status lacks =>
      refine keyed_iff_insert.mpr ⟨hrow, ?_, ?_⟩
      · rwa [List.append_nil]
      · rwa [List.append_nil]

theorem entryOf?_eq_none (h : Lacks keyField entries row) (hkey : keyText? keyField row = some key) :
    entryOf? keyField key entries = none :=
  List.find?_eq_none.mpr fun entry hentry hhas =>
    h entry hentry ((hasKey_iff.mp hhas).trans hkey.symm)

/-- An entry that has its key alone is the entry of that key. -/
theorem entryOf?_insert (entry : Entry) (h : Lacks keyField (before ++ after) entry.row)
    (hkey : keyText? keyField entry.row = some key) :
    entryOf? keyField key (before ++ entry :: after) = some entry := by
  have hbefore : entryOf? keyField key before = none :=
    entryOf?_eq_none (fun other hother => h other (List.mem_append_left _ hother)) hkey
  rw [entryOf?] at hbefore ⊢
  rw [List.find?_append, hbefore, Option.none_or, List.find?_cons, hasKey_iff.mpr hkey]

theorem takeRow_of_deleted (h : statusOf? statusField row = some .deleted) (held : Option Entry) :
    takeRow statusField held row = none := by
  simp only [takeRow, h]

theorem takeRow_of_held (hdeleted : statusOf? statusField row ≠ some .deleted)
    (hadded : statusOf? statusField row ≠ some .added) (entry : Entry) :
    takeRow statusField (some entry) row = some (entry.overwrite row) := by
  simp only [takeRow]

theorem takeRow_of_none (h : statusOf? statusField row ≠ some .deleted) :
    takeRow statusField none row = some ⟨row, 0⟩ := by
  cases hstatus : statusOf? statusField row with
  | none => simp only [takeRow, hstatus]
  | some status =>
      cases status with
      | added => simp only [takeRow, hstatus]
      | edited => simp only [takeRow, hstatus]
      | deleted => exact absurd hstatus h

/-- A row changes the entry of its key as it would change it alone. -/
theorem Turn.entryOf?_same (h : Turn keyField statusField row entries after)
    (hkeyed : Keyed keyField entries) (hkey : keyText? keyField row = some key) :
    entryOf? keyField key after = takeRow statusField (entryOf? keyField key entries) row := by
  cases h with
  | removes status same =>
      rw [entryOf?_eq_none (hkeyed.others.congr same.symm) hkey, takeRow_of_deleted status]
  | ignores status lacks => rw [entryOf?_eq_none lacks hkey, takeRow_of_deleted status]
  | @replaces before after entry deleted added same =>
      have hothers := hkeyed.others
      rw [entryOf?_insert entry hothers (same.trans hkey), takeRow_of_held deleted added,
        entryOf?_insert (entry.overwrite row) (hothers.congr same.symm) hkey]
  | opens status lacks =>
      rw [entryOf?_eq_none lacks hkey, takeRow_of_none status,
        entryOf?_insert ⟨row, 0⟩ (by simpa using lacks) hkey]

/-- A row changes nothing of what does not have its key, not even the order. -/
theorem Turn.filter_eq (h : Turn keyField statusField row entries after)
    (other : Option String → Bool) (hrow : other (keyText? keyField row) = false) :
    (after.filter fun entry => other (keyText? keyField entry.row)) =
      entries.filter fun entry => other (keyText? keyField entry.row) := by
  cases h with
  | removes status same => simp [same, hrow]
  | ignores status lacks => rfl
  | replaces deleted added same => simp [Entry.overwrite, same, hrow]
  | opens status lacks => simp [hrow]

theorem Turn.entryOf?_other (h : Turn keyField statusField row entries after)
    (hkey : hasKey keyField key row = false) :
    entryOf? keyField key after = entryOf? keyField key entries := by
  have hsame := h.filter_eq (fun other => other == some key) hkey
  rw [entryOf?, entryOf?, ← List.head?_filter, ← List.head?_filter]
  exact congrArg List.head? hsame

/-! ## Batches -/

/-- The entries after a batch of rows. -/
def upsertAll (keyField : String) (statusField : Option String) (entries : List Entry)
    (rows : List Row) : List Entry :=
  rows.foldl (upsert keyField statusField) entries

/-- Every row of a batch takes its turn. -/
theorem turns_upsertAll (hrows : ∀ row ∈ rows, (keyText? keyField row).isSome)
    (hadmits : Admits keyField statusField entries rows) :
    Turns keyField statusField rows entries (upsertAll keyField statusField entries rows) := by
  induction rows generalizing entries with
  | nil => exact .nil
  | cons row rest ih =>
      rw [List.forall_mem_cons] at hrows
      exact .cons (turn_upsert hrows.1 hadmits.1) (ih hrows.2 hadmits.2)

theorem Turns.keyed (h : Turns keyField statusField rows entries after)
    (hrows : ∀ row ∈ rows, (keyText? keyField row).isSome) (hkeyed : Keyed keyField entries) :
    Keyed keyField after := by
  induction h with
  | nil => exact hkeyed
  | cons turn turns ih =>
      rw [List.forall_mem_cons] at hrows
      exact ih hrows.2 (turn.keyed hrows.1 hkeyed)

/-- The entry of a key is changed by the rows of that key. -/
theorem Turns.entryOf? (h : Turns keyField statusField rows entries after)
    (hrows : ∀ row ∈ rows, (keyText? keyField row).isSome) (hkeyed : Keyed keyField entries)
    (key : String) :
    entryOf? keyField key after =
      takeRows keyField statusField rows key (entryOf? keyField key entries) := by
  induction h with
  | nil => rfl
  | @cons row rest entries next after turn turns ih =>
      rw [List.forall_mem_cons] at hrows
      rw [ih hrows.2 (turn.keyed hrows.1 hkeyed), takeRows, takeRows, List.filter_cons]
      cases hkey : hasKey keyField key row with
      | true => rw [if_pos rfl, List.foldl_cons, turn.entryOf?_same hkeyed (hasKey_iff.mp hkey)]
      | false => rw [if_neg Bool.false_ne_true, turn.entryOf?_other hkey]

/-- A batch leaves alone what has no row in it. -/
theorem Turns.filter_eq (h : Turns keyField statusField rows entries after)
    (other : Option String → Bool) (hrows : ∀ row ∈ rows, other (keyText? keyField row) = false) :
    (after.filter fun entry => other (keyText? keyField entry.row)) =
      entries.filter fun entry => other (keyText? keyField entry.row) := by
  induction h with
  | nil => rfl
  | cons turn turns ih =>
      rw [List.forall_mem_cons] at hrows
      exact (ih hrows.2).trans (turn.filter_eq other hrows.1)

/-! ## Batches with a key a row -/

/-- What becomes of an entry when the rows of its key are appended. -/
def settle (keyField : String) (statusField : Option String) (rows : List Row) (entry : Entry) :
    Option Entry :=
  (rows.filter fun row => keyText? keyField row == keyText? keyField entry.row).foldl
    (takeRow statusField) (some entry)

/-- The entries that rows of absent keys open. -/
def opened (keyField : String) (statusField : Option String) (entries : List Entry)
    (rows : List Row) : List Entry :=
  (rows.filter fun row =>
    decide (Lacks keyField entries row ∧ statusOf? statusField row ≠ some .deleted)).map (⟨·, 0⟩)

/-- A row says nothing of another key, so not whether it is absent. -/
theorem Turn.lacks_iff (h : Turn keyField statusField row entries after) {other : Row}
    (hother : keyText? keyField other ≠ keyText? keyField row) :
    Lacks keyField after other ↔ Lacks keyField entries other := by
  have hlacks : ∀ entries : List Entry, Lacks keyField entries other ↔
      (entries.filter fun entry => keyText? keyField entry.row == keyText? keyField other) = [] := by
    intro entries
    rw [List.filter_eq_nil_iff]
    exact forall₂_congr fun entry _ => by rw [beq_iff_eq]
  rw [hlacks, hlacks, h.filter_eq (fun key => key == keyText? keyField other)
    (beq_eq_false_iff_ne.mpr hother.symm)]

/-- A batch of different keys admits an added row if its key is absent from the start. -/
theorem admits_iff_of_distinct (hrows : ∀ row ∈ rows, (keyText? keyField row).isSome)
    (hdistinct : (rows.map (keyText? keyField)).Nodup) :
    Admits keyField statusField entries rows ↔
      ∀ row ∈ rows, statusOf? statusField row = some .added → Lacks keyField entries row := by
  induction rows generalizing entries with
  | nil => simp [Admits]
  | cons row rest ih =>
      rw [List.map_cons, List.nodup_cons] at hdistinct
      rw [Admits, List.forall_mem_cons]
      refine and_congr_right fun hadded => ?_
      have hturn := turn_upsert (hrows row List.mem_cons_self) hadded
      rw [ih (fun other hother => hrows other (List.mem_cons_of_mem _ hother)) hdistinct.2]
      refine forall₂_congr fun other hother => imp_congr_right fun _ => hturn.lacks_iff ?_
      exact fun hsame => hdistinct.1 (List.mem_map.mpr ⟨other, hother, hsame⟩)

theorem settle_of_absent {entry : Entry} (h : keyText? keyField entry.row ∉
    rows.map (keyText? keyField)) : settle keyField statusField rows entry = some entry := by
  have hnone : (rows.filter fun row => keyText? keyField row == keyText? keyField entry.row) = [] :=
    List.filter_eq_nil_iff.mpr fun row hrow hsame =>
      h (List.mem_map.mpr ⟨row, hrow, eq_of_beq hsame⟩)
  rw [settle, hnone, List.foldl_nil]

theorem settle_cons_of_ne {entry : Entry} (h : keyText? keyField row ≠ keyText? keyField entry.row) :
    settle keyField statusField (row :: rows) entry = settle keyField statusField rows entry := by
  rw [settle, settle, List.filter_cons_of_neg (by rwa [beq_iff_eq])]

/-- A row settles an entry of its key that no other row has. -/
theorem settle_cons_of_eq {entry : Entry} (h : keyText? keyField row = keyText? keyField entry.row)
    (hrest : keyText? keyField row ∉ rows.map (keyText? keyField)) :
    settle keyField statusField (row :: rows) entry = takeRow statusField (some entry) row := by
  have hnone : (rows.filter fun row => keyText? keyField row == keyText? keyField entry.row) = [] :=
    List.filter_eq_nil_iff.mpr fun other hother hsame =>
      hrest (List.mem_map.mpr ⟨other, hother, (eq_of_beq hsame).trans h.symm⟩)
  have hfirst : (keyText? keyField row == keyText? keyField entry.row) = true := beq_iff_eq.mpr h
  rw [settle, List.filter_cons, if_pos hfirst, hnone, List.foldl_cons, List.foldl_nil]

theorem filterMap_settle_cons (h : Lacks keyField entries row) :
    entries.filterMap (settle keyField statusField (row :: rows)) =
      entries.filterMap (settle keyField statusField rows) :=
  List.filterMap_congr fun entry hentry => settle_cons_of_ne (h entry hentry).symm

/-- Entries that are absent by the same keys open the same. -/
theorem opened_congr {others : List Entry}
    (h : ∀ row ∈ rows, (Lacks keyField others row ↔ Lacks keyField entries row)) :
    opened keyField statusField others rows = opened keyField statusField entries rows := by
  rw [opened, opened]
  refine congrArg _ (List.filter_congr fun row hrow => ?_)
  exact decide_eq_decide.mpr (and_congr_left fun _ => h row hrow)

theorem opened_cons_of_opens (hlacks : Lacks keyField entries row)
    (hstatus : statusOf? statusField row ≠ some .deleted) :
    opened keyField statusField entries (row :: rows) =
      ⟨row, 0⟩ :: opened keyField statusField entries rows := by
  rw [opened, List.filter_cons, if_pos (decide_eq_true ⟨hlacks, hstatus⟩), List.map_cons]
  rfl

theorem opened_cons_of_deleted (hstatus : statusOf? statusField row = some .deleted) :
    opened keyField statusField entries (row :: rows) =
      opened keyField statusField entries rows := by
  rw [opened, List.filter_cons, if_neg fun h => (of_decide_eq_true h).2 hstatus]
  rfl

theorem opened_cons_of_held (hheld : ¬Lacks keyField entries row) :
    opened keyField statusField entries (row :: rows) =
      opened keyField statusField entries rows := by
  rw [opened, List.filter_cons, if_neg fun h => hheld (of_decide_eq_true h).1]
  rfl

/-- Where a list is cut at the entry of a row, the row settles that entry and no other. -/
theorem filterMap_settle_cut {entry : Entry} (hkeyed : Keyed keyField (before ++ entry :: after))
    (hsame : keyText? keyField entry.row = keyText? keyField row)
    (hrest : keyText? keyField row ∉ rows.map (keyText? keyField)) :
    (before ++ entry :: after).filterMap (settle keyField statusField (row :: rows)) =
      before.filterMap (settle keyField statusField rows) ++
        ((takeRow statusField (some entry) row).toList ++
          after.filterMap (settle keyField statusField rows)) := by
  have hothers := hkeyed.others.congr hsame.symm
  rw [List.filterMap_append, List.filterMap_cons, settle_cons_of_eq hsame.symm hrest,
    filterMap_settle_cons fun other hother => hothers other (List.mem_append_left _ hother),
    filterMap_settle_cons fun other hother => hothers other (List.mem_append_right _ hother)]
  cases takeRow statusField (some entry) row <;> rfl

/-- What a row of another key than the rest leaves is settled and opened like what it found. -/
theorem Turn.settles (h : Turn keyField statusField row entries after)
    (hkeyed : Keyed keyField entries) (hrest : keyText? keyField row ∉ rows.map (keyText? keyField)) :
    after.filterMap (settle keyField statusField rows) ++ opened keyField statusField entries rows =
      entries.filterMap (settle keyField statusField (row :: rows)) ++
        opened keyField statusField entries (row :: rows) := by
  have hleft : ∀ entry : Entry, keyText? keyField entry.row = keyText? keyField row →
      settle keyField statusField rows entry = some entry := fun entry hsame =>
    settle_of_absent (hsame ▸ hrest)
  -- The turns differ in what becomes of the entry that is cut out, and in what they open.
  cases h with
  | removes status same =>
      rw [opened_cons_of_deleted status, filterMap_settle_cut hkeyed same hrest,
        takeRow_of_deleted status, List.filterMap_append]
      rfl
  | ignores status lacks => rw [opened_cons_of_deleted status, filterMap_settle_cons lacks]
  | @replaces before after entry deleted added same =>
      have hheld : ¬Lacks keyField (before ++ entry :: after) row :=
        fun hlacks => hlacks entry (by simp) same
      rw [opened_cons_of_held hheld, filterMap_settle_cut hkeyed same hrest,
        takeRow_of_held deleted added, List.filterMap_append, List.filterMap_cons,
        hleft (entry.overwrite row) rfl]
      rfl
  | opens status lacks =>
      rw [opened_cons_of_opens lacks status, filterMap_settle_cons lacks, List.filterMap_append,
        List.filterMap_cons, hleft ⟨row, 0⟩ rfl, List.filterMap_nil, List.append_assoc,
        List.singleton_append]

/-- A batch of different keys settles every entry and opens the absent keys behind them. -/
theorem upsertAll_of_distinct (hkeyed : Keyed keyField entries)
    (hrows : ∀ row ∈ rows, (keyText? keyField row).isSome)
    (hdistinct : (rows.map (keyText? keyField)).Nodup)
    (hadmits : Admits keyField statusField entries rows) :
    upsertAll keyField statusField entries rows =
      entries.filterMap (settle keyField statusField rows) ++
        opened keyField statusField entries rows := by
  induction rows generalizing entries with
  | nil =>
      have hall : entries.filterMap (settle keyField statusField []) = entries :=
        List.filterMap_some
      rw [hall]
      exact (List.append_nil _).symm
  | cons row rest ih =>
      obtain ⟨hadded, hmore⟩ := hadmits
      obtain ⟨hrow, hothers⟩ := List.forall_mem_cons.mp hrows
      rw [List.map_cons, List.nodup_cons] at hdistinct
      have hturn := turn_upsert hrow hadded
      have hopened : opened keyField statusField (upsert keyField statusField entries row) rest =
          opened keyField statusField entries rest :=
        opened_congr fun other hother => hturn.lacks_iff fun hsame =>
          hdistinct.1 (List.mem_map.mpr ⟨other, hother, hsame⟩)
      have hrest := ih (hturn.keyed hrow hkeyed) hothers hdistinct.2 hmore
      rw [hopened] at hrest
      exact hrest.trans (hturn.settles hkeyed hdistinct.1)

/-- Different keys settle entries in any order. -/
theorem settle_perm {others : List Row} (h : rows.Perm others)
    (hdistinct : (rows.map (keyText? keyField)).Nodup) (entry : Entry) :
    settle keyField statusField others entry = settle keyField statusField rows entry := by
  refine ((h.filter _).foldl_eq' ?_ _).symm
  intro row hrow other hother held
  rw [List.mem_filter, beq_iff_eq] at hrow hother
  obtain rfl := List.inj_on_of_nodup_map hdistinct hrow.1 hother.1 (hrow.2.trans hother.2.symm)
  rfl

/-- A row leaves an entry of its key. -/
theorem keyText?_takeRow {held : Option Entry} {entry : Entry}
    (h : takeRow statusField held row = some entry) :
    keyText? keyField entry.row = keyText? keyField row := by
  unfold takeRow at h
  split at h
  · cases h
  all_goals
    obtain rfl := Option.some.inj h
    rfl

theorem keyText?_settle {entry left : Entry}
    (h : settle keyField statusField rows entry = some left) :
    keyText? keyField left.row = keyText? keyField entry.row := by
  have hfold : ∀ (rows : List Row) (held : Option Entry),
      (∀ row ∈ rows, keyText? keyField row = keyText? keyField entry.row) →
      (∀ other ∈ held, keyText? keyField other.row = keyText? keyField entry.row) →
      ∀ other ∈ rows.foldl (takeRow statusField) held,
        keyText? keyField other.row = keyText? keyField entry.row := by
    intro rows
    induction rows with
    | nil => exact fun held _ hheld => hheld
    | cons row rest ih =>
        intro held hrows _
        rw [List.forall_mem_cons] at hrows
        exact ih _ hrows.2 fun other hother => (keyText?_takeRow hother).trans hrows.1
  refine hfold _ _ (fun row hrow => ?_) (fun other hother => ?_) left h
  · exact eq_of_beq (List.mem_filter.mp hrow).2
  · rw [Option.some.inj hother]

/-- Different keys are admitted in any order. -/
theorem admits_perm {others : List Row} (h : rows.Perm others)
    (hrows : ∀ row ∈ rows, (keyText? keyField row).isSome)
    (hdistinct : (rows.map (keyText? keyField)).Nodup)
    (hadmits : Admits keyField statusField entries rows) :
    Admits keyField statusField entries others := by
  rw [admits_iff_of_distinct (fun row hrow => hrows row (h.mem_iff.mpr hrow))
    ((h.map _).nodup_iff.mp hdistinct)]
  exact fun row hrow =>
    (admits_iff_of_distinct hrows hdistinct).mp hadmits row (h.mem_iff.mpr hrow)

/-! ## Merging -/

/-- A keyed append is a batch. -/
theorem merge_of_keyed {stored incoming : Source}
    (hstored : stored.options.keyField = some keyField)
    (hincoming : incoming.options.keyField = some keyField)
    (happend : incoming.options.mergeType = .append) :
    (stored.merge incoming).entries =
      upsertAll keyField (mergeStatus? stored.options incoming.options) stored.entries
        incoming.rows := by
  simp only [merge, mergeEntries, happend, mergeKey?, hstored, hincoming, upsertAll]

/-- A keyed append updates a map from key texts to entries. Its keys stay apart. The entry of a key is
what the rows of that key make of it. Every row takes its turn, which says where the entries stand;
those without a row are as they were, in the same order. And rows of different keys may come in any
order: what they change of the stored entries is the same, and what they open is the same up to the
order. -/
theorem keyed_append_updates_map {stored incoming : Source}
    (hstored : stored.options.keyField = some keyField)
    (hincoming : incoming.options.keyField = some keyField)
    (happend : incoming.options.mergeType = .append)
    (hkeyed : Keyed keyField stored.entries)
    (hrows : ∀ row ∈ incoming.rows, (keyText? keyField row).isSome)
    (hadmits : Admits keyField (mergeStatus? stored.options incoming.options) stored.entries
      incoming.rows) :
    Keyed keyField (stored.merge incoming).entries ∧
    (∀ key, entryOf? keyField key (stored.merge incoming).entries =
      takeRows keyField (mergeStatus? stored.options incoming.options) incoming.rows key
        (entryOf? keyField key stored.entries)) ∧
    Turns keyField (mergeStatus? stored.options incoming.options) incoming.rows stored.entries
      (stored.merge incoming).entries ∧
    ((stored.merge incoming).entries.filter fun entry =>
        decide (keyText? keyField entry.row ∉ incoming.rows.map (keyText? keyField))) =
      (stored.entries.filter fun entry =>
        decide (keyText? keyField entry.row ∉ incoming.rows.map (keyText? keyField))) ∧
    ((incoming.rows.map (keyText? keyField)).Nodup →
      ∀ other : Source, other.options = incoming.options → incoming.rows.Perm other.rows →
        ∃ settled opened reopened : List Entry,
          (stored.merge incoming).entries = settled ++ opened ∧
          (stored.merge other).entries = settled ++ reopened ∧
          (stored.merge other).id = (stored.merge incoming).id ∧
          (stored.merge other).options = (stored.merge incoming).options ∧
          opened.Perm reopened ∧
          (∀ entry ∈ settled, ¬Lacks keyField stored.entries entry.row) ∧
          ∀ entry ∈ opened, Lacks keyField stored.entries entry.row ∧ entry.version = 0) := by
  have hmerge := merge_of_keyed hstored hincoming happend
  have hturns := turns_upsertAll hrows hadmits
  rw [← hmerge] at hturns
  refine ⟨hturns.keyed hrows hkeyed, hturns.entryOf? hrows hkeyed, hturns, ?_, ?_⟩
  · refine hturns.filter_eq
      (fun key => decide (key ∉ incoming.rows.map (keyText? keyField))) fun row hrow => ?_
    exact decide_eq_false (not_not_intro (List.mem_map_of_mem hrow))
  · intro hdistinct other hoptions hperm
    have hdistinct' : (other.rows.map (keyText? keyField)).Nodup :=
      (hperm.map _).nodup_iff.mp hdistinct
    have hrows' : ∀ row ∈ other.rows, (keyText? keyField row).isSome :=
      fun row hrow => hrows row (hperm.mem_iff.mpr hrow)
    have hmerge' := merge_of_keyed hstored (show other.options.keyField = _ from hoptions ▸ hincoming)
      (hoptions ▸ happend)
    rw [hoptions, upsertAll_of_distinct hkeyed hrows' hdistinct'
      (admits_perm hperm hrows hdistinct hadmits)] at hmerge'
    rw [upsertAll_of_distinct hkeyed hrows hdistinct hadmits] at hmerge
    have hsettle : stored.entries.filterMap
          (settle keyField (mergeStatus? stored.options incoming.options) other.rows) =
        stored.entries.filterMap
          (settle keyField (mergeStatus? stored.options incoming.options) incoming.rows) :=
      List.filterMap_congr fun entry _ => settle_perm hperm hdistinct entry
    rw [hsettle] at hmerge'
    refine ⟨_, _, _, hmerge, hmerge', rfl, ?_, (hperm.filter _).map _, fun entry hentry => ?_,
      fun entry hentry => ?_⟩
    · simp only [merge, hoptions]
    · obtain ⟨held, hheld, hleft⟩ := List.mem_filterMap.mp hentry
      exact fun hlacks => hlacks held hheld (keyText?_settle hleft).symm
    · obtain ⟨row, hrow, rfl⟩ := List.mem_map.mp hentry
      exact ⟨(of_decide_eq_true (List.mem_filter.mp hrow).2).1, rfl⟩

/-- A row of the stock in the example. -/
def stockRow (key status name : String) : Row :=
  [("key", .string key), ("status", .string status), ("name", .string name)]

/-- A stored source with a key field. -/
def stock : Source :=
  make "stock" [stockRow "a" "" "ale", stockRow "b" "" "bread", stockRow "c" "" "cheese"]
    { keyField := some "key" }

/-- A batch that edits, adds and deletes. -/
def delivery : Source :=
  make "stock" [stockRow "c" "edited" "cake", stockRow "d" "Added" "dates", stockRow "a" "deleted" ""]
    { mergeType := .append, keyField := some "key", statusField := some "status" }

theorem keyed_stock : Keyed "key" stock.entries := by
  refine ⟨fun entry hentry => ?_, by decide⟩
  obtain ⟨row, hrow, rfl⟩ := List.mem_map.mp hentry
  simp only [List.mem_cons, List.not_mem_nil, or_false] at hrow
  rcases hrow with rfl | rfl | rfl <;> rfl

/-- The delivery can come in any order. -/
theorem delivery_updates_stock :
    (stock.merge delivery).entries =
        [⟨stockRow "b" "" "bread", 0⟩, ⟨stockRow "c" "edited" "cake", 1⟩,
          ⟨stockRow "d" "Added" "dates", 0⟩] ∧
      Keyed "key" (stock.merge delivery).entries ∧
      ∃ settled opened reopened : List Entry,
        (stock.merge delivery).entries = settled ++ opened ∧
        (stock.merge { delivery with entries := delivery.entries.reverse }).entries =
          settled ++ reopened ∧
        opened.Perm reopened := by
  have hrows : ∀ row ∈ delivery.rows, (keyText? "key" row).isSome := by
    intro row hrow
    rw [delivery, SlotBook.rows_make] at hrow
    simp only [List.mem_cons, List.not_mem_nil, or_false] at hrow
    rcases hrow with rfl | rfl | rfl <;> rfl
  obtain ⟨hkeyed, -, -, -, hany⟩ :=
    keyed_append_updates_map (show stock.options.keyField = some "key" from rfl)
      (show delivery.options.keyField = some "key" from rfl) rfl keyed_stock hrows (by decide)
  obtain ⟨settled, opened, reopened, hentries, hother, -, -, hperm, -⟩ :=
    hany (by decide) { delivery with entries := delivery.entries.reverse } rfl
      (List.reverse_perm _).symm
  exact ⟨rfl, hkeyed, settled, opened, reopened, hentries, hother, hperm⟩

end Source

end ReactiveMarkup
