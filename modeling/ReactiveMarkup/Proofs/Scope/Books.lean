import ReactiveMarkup.Proofs.Scope.Disposal
import ReactiveMarkup.Proofs.Scope.Replays
import ReactiveMarkup.Proofs.Source.Slots

/-!
# Keeping books

From moment to moment a book is kept for every source that a scope stores. A source that is set is
booked into the book of its id in the scope. A broadcast carries the book along, as it is when the
broadcast begins, and where it is handed on over a bridge, what the child stores has this book.

The books are kept by what happens alone: which source is set where, and with which rows. They always
tally with what is stored, whatever broadcasts are under way and whoever sets sources in the middle of
them. So the version of a row is the number of times its slot was rewritten.
-/

namespace ReactiveMarkup

/-- Whether a deed stores nothing, or sets a source that was just made. -/
def Deed.SetsFresh : Deed → Prop
  | .set _ source => ∃ id rows options, source = Source.make id rows options
  | .put _ _ => False
  | .receive _ _ => False
  | _ => True

/-- The books of what is stored under an id in a scope, and those that go along with the broadcasts
under way, the innermost first. -/
structure Books where
  stored : ScopeId → String → SlotBook := fun _ _ => {}
  told : List SlotBook := []

namespace Books

/-- A source with the given book is stored in a scope, and its broadcast begins. -/
def begin (books : Books) (scope : ScopeId) (id : String) (book : SlotBook) : Books where
  stored other name := if scope = other ∧ id = name then book else books.stored other name
  told := book :: books.told

/-- The book of an id in a scope after a source is set. -/
def bookOf (books : Books) (scopes : Scopes) (scope : ScopeId) (source : Source) : SlotBook :=
  match scopes.stored? scope source.id with
  | some stored => (books.stored scope source.id).merge stored.options source
  | none => SlotBook.openSlots {} source.rows

def act (books : Books) (scopes : Scopes) : Deed → Books
  | .set scope source => books.begin scope source.id (books.bookOf scopes scope source)
  | _ => books

/-- A source of the scope's own hides one that is handed to it. -/
def receive (books : Books) (scopes : Scopes) (scope : ScopeId) (source : Source)
    (book : SlotBook) : Books :=
  if (scopes.local? scope source.id).isSome && !scopes.isInherited scope source.id then books
  else books.begin scope source.id book

def call (books : Books) (scopes : Scopes) (source : Source) (book : SlotBook) : Handler → Books
  | .bridge child => if scopes.isAlive child then books.receive scopes child source book else books
  | _ => books

def proceed (books : Books) (m : Moment) : Books :=
  match m.tellings, books.told with
  | telling :: _, book :: others =>
    match telling.handlers with
    | [] => { books with told := others }
    | handler :: _ => books.call m.scopes telling.source book handler
  | _, _ => books

end Books

namespace Moment

open Scopes

variable {m after : Moment} {books : Books} {scope : ScopeId} {id : String} {source : Source}
  {deed : Deed}

/-- The books tally with what is stored and with what is told. -/
structure Balanced (m : Moment) (books : Books) : Prop where
  stored : ∀ scope id source, m.scopes.stored? scope id = some source →
    (books.stored scope id).Tallies source.entries
  told : List.Forall₂ (fun book telling => book.Tallies telling.source.entries) books.told m.tellings

/-- Moments with the books kept so far. -/
inductive Booked : Moment → Books → Prop
  | first (settings : Fields) : Booked (first settings) {}
  | act {m : Moment} {books : Books} (before : Booked m books) {deed : Deed}
      (allowed : m.Allows deed) (fresh : deed.SetsFresh) :
      Booked (m.act deed) (books.act m.scopes deed)
  | proceed {m : Moment} {books : Books} (before : Booked m books) :
      Booked m.proceed (books.proceed m)

/-! ## Books are kept in every course of moments -/

theorem Booked.reached (h : Booked m books) : Reached (fun _ deed => deed.SetsFresh) m := by
  induction h with
  | first settings => exact ⟨settings, .refl⟩
  | act _ hallowed hfresh ih =>
      obtain ⟨settings, hlater⟩ := ih
      exact ⟨settings, hlater.act hallowed hfresh⟩
  | proceed _ ih =>
      obtain ⟨settings, hlater⟩ := ih
      exact ⟨settings, hlater.proceed⟩

theorem Reached.booked (h : Reached (fun _ deed => deed.SetsFresh) m) : ∃ books, Booked m books := by
  obtain ⟨settings, hlater⟩ := h
  induction hlater with
  | refl => exact ⟨_, .first settings⟩
  | act _ hallowed hfresh ih =>
      obtain ⟨books, hbooked⟩ := ih
      exact ⟨_, hbooked.act hallowed hfresh⟩
  | proceed _ ih =>
      obtain ⟨books, hbooked⟩ := ih
      exact ⟨_, hbooked.proceed⟩

/-- The operations of scopes, whose handlers set sources that they make, lead to moments with books. -/
theorem Performed.booked {scopes : Scopes} (h : Performed Deed.SetsFresh scopes) :
    ∃ m books, Booked m books ∧ m.scopes = scopes ∧ m.tellings = [] := by
  obtain ⟨m, hreached, hscopes, hquiet⟩ := h.reached fun deed hdeed => by
    cases deed with
    | set scope source =>
        obtain ⟨id, value, rfl⟩ := hdeed
        exact ⟨id, _, _, rfl⟩
    | wait _ _ | dispose _ => trivial
    | _ => exact hdeed.elim
  obtain ⟨books, hbooked⟩ := hreached.booked
  exact ⟨m, books, hbooked, hscopes, hquiet⟩

/-! ## Books tally -/

theorem balanced_first (settings : Fields) : (first settings).Balanced {} where
  stored scope id source hstored := by
    have hnone : (first settings).scopes.stored? scope id = none :=
      (stored?_grow none settings scope).trans rfl
    rw [hnone] at hstored
    cases hstored
  told := .nil

/-- Nothing is stored, and no broadcast begins or ends. -/
theorem Balanced.idle (h : m.Balanced books) (hsame : SameSources m.scopes after.scopes)
    (htellings : after.tellings = m.tellings) : after.Balanced books where
  stored scope id source hstored := by
    rw [hsame.stored?_eq] at hstored
    exact h.stored scope id source hstored
  told := htellings ▸ h.told

/-- A source that is stored has the book that is begun for it. -/
theorem Balanced.begin (h : m.Balanced books) {scopes : Scopes} {book : SlotBook}
    (hother : ∀ other name, ¬(scope = other ∧ source.id = name) →
      scopes.stored? other name = m.scopes.stored? other name)
    (hself : scopes.stored? scope source.id = some source) (hbook : book.Tallies source.entries)
    (origin : Option Nat) :
    ({ m with scopes }.tell scope source origin).Balanced (books.begin scope source.id book) where
  stored other name found hfound := by
    have hsame : ({ m with scopes }.tell scope source origin).scopes.stored? other name =
        scopes.stored? other name := stored?_modify fun _ => rfl
    rw [hsame] at hfound
    by_cases hplace : scope = other ∧ source.id = name
    · obtain rfl : source = found := by
        obtain ⟨rfl, rfl⟩ := hplace
        exact Option.some.inj (hself.symm.trans hfound)
      have hnew : (books.begin scope source.id book).stored other name = book := if_pos hplace
      exact hnew.symm ▸ hbook
    · rw [hother other name hplace] at hfound
      have hold : (books.begin scope source.id book).stored other name = books.stored other name :=
        if_neg hplace
      exact hold.symm ▸ h.stored other name found hfound
  told := .cons hbook h.told

/-- What is stored after a source is set has the book of the source that is set. -/
theorem Balanced.bookOf (h : m.Balanced books)
    (hfresh : ∃ id rows options, source = Source.make id rows options) :
    (books.bookOf m.scopes scope source).Tallies (m.scopes.mergedWith scope source).entries := by
  rw [Books.bookOf, mergedWith]
  cases hstored : m.scopes.stored? scope source.id with
  | some stored => exact (h.stored scope source.id stored hstored).merge source
  | none =>
      obtain ⟨id, rows, options, rfl⟩ := hfresh
      exact SlotBook.tallies_make id rows options

theorem Balanced.act (h : m.Balanced books) (horderly : Orderly m) (hallowed : m.Allows deed)
    (hfresh : deed.SetsFresh) : (m.act deed).Balanced (books.act m.scopes deed) := by
  cases deed with
  | set scope source =>
      have hself : ((m.scopes.own scope source.id).put scope (m.scopes.mergedWith scope source)).stored?
          scope (m.scopes.mergedWith scope source).id = some (m.scopes.mergedWith scope source) :=
        stored?_put_self ((sameWires_own m.scopes scope source.id).size ▸ horderly.lt_size hallowed.1)
      have hbegun := h.begin (fun _ _ hplace => (stored?_put_of_ne hplace).trans stored?_own) hself
        (h.bookOf hfresh) none
      rw [id_mergedWith] at hbegun
      exact hbegun
  | put scope source => exact hfresh.elim
  | receive scope source => exact hfresh.elim
  | create parent settings =>
      refine h.idle ⟨?_, ?_⟩ rfl
      · exact fun other => look_grow_of_blank rfl other
      · exact fun other => look_grow_of_blank rfl other
  | subscribe scope id handler onlyHere =>
      exact h.idle (sameSources_register m.scopes scope id handler onlyHere) rfl
  | unsubscribe scope id handler =>
      exact h.idle (sameSources_removeHandler m.scopes scope id handler) rfl
  | wait scope id => exact h.idle (sameSources_wait m.scopes scope id) rfl
  | dispose scope => exact h.idle (sameSources_dispose m.scopes scope) rfl
  | clear scope => exact h.idle (sameSources_clear m.scopes scope) rfl
  | hold _ | release _ | arrange _ _ => exact h.idle (.of_scopes rfl) rfl

theorem Balanced.receive (h : m.Balanced books) (hlt : scope < m.scopes.scopes.size) {book : SlotBook}
    (hbook : book.Tallies source.entries) (origin : Option Nat) :
    (m.receive scope source origin).Balanced (books.receive m.scopes scope source book) := by
  rw [Books.receive, Moment.receive]
  split
  · exact h
  · exact h.begin (fun _ _ hplace => (stored?_put_of_ne hplace).trans stored?_inherit)
      (stored?_put_self ((sameWires_inherit m.scopes scope source.id).size ▸ hlt)) hbook origin

theorem Balanced.call (h : m.Balanced books) (horderly : Orderly m) {telling : Telling} {book : SlotBook}
    (hbook : book.Tallies telling.source.entries) (handler : Handler) :
    (m.call telling handler).Balanced (books.call m.scopes telling.source book handler) := by
  cases handler with
  | bridge child =>
      rw [Books.call, Moment.call]
      split
      · next halive => exact h.receive (horderly.lt_size halive) hbook _
      · exact h
  | host handler => exact h.idle (.of_scopes rfl) rfl
  | trigger component => exact h.idle (.of_scopes rfl) rfl

theorem Balanced.proceed (h : m.Balanced books) (horderly : Orderly m) :
    m.proceed.Balanced (books.proceed m) := by
  rw [Moment.proceed, Books.proceed]
  cases htellings : m.tellings with
  | nil => exact h
  | cons telling others =>
      have htold := h.told
      rw [htellings] at htold
      obtain ⟨book, rest, hbook, hrest, hbooks⟩ := List.forall₂_cons_right_iff.mp htold
      rw [hbooks]
      dsimp only
      cases hhandlers : telling.handlers with
      | nil =>
          dsimp only
          rw [serve, resolveAll_eq]
          exact ⟨fun scope id source hstored => h.stored scope id source hstored, hrest⟩
      | cons handler handlers =>
          have hshifted : Balanced
              { m with tellings := { telling with handlers } :: others } books :=
            ⟨h.stored, hbooks ▸ .cons hbook hrest⟩
          exact hshifted.call (horderly.shift htellings hhandlers) hbook handler

theorem Booked.balanced (h : Booked m books) : m.Balanced books := by
  induction h with
  | first settings => exact balanced_first settings
  | act before hallowed hfresh ih => exact ih.act before.reached.orderly hallowed hfresh
  | proceed before ih => exact ih.proceed before.reached.orderly

/-- At every moment a stored source has as many versions as rows: its rows are those in the slots of its
book, in their order, and the version of each is the number of times its slot was rewritten since it was
opened. -/
theorem versions_count_rewrites (h : Booked m books)
    (hstored : m.scopes.stored? scope id = some source) :
    source.versions.length = source.rows.length ∧
      source.rows = (books.stored scope id).slots.map RowSlot.row ∧
      source.versions = (books.stored scope id).slots.map fun slot =>
        (books.stored scope id).rewrites slot.number := by
  have hentries := (h.balanced.stored scope id source hstored).entries
  refine ⟨?_, ?_, ?_⟩
  · rw [Source.versions, Source.rows, List.length_map, List.length_map]
  · rw [Source.rows, hentries, List.map_map]
    rfl
  · rw [Source.versions, hentries, List.map_map]
    rfl

/-- A row with an id and what is to be done with it. -/
def orderRow (id status : String) : Row := [("id", .string id), ("status", .string status)]

def orders (mergeType : MergeType) (rows : List Row) : Source :=
  .make "db.orders" rows { mergeType, keyField := some "id", statusField := some "status" }

/-- A deed in a course of moments with their books. -/
def courseStep (course : Moment × Books) (deed : Deed) : Moment × Books :=
  (course.1.act deed, course.2.act course.1.scopes deed)

/-- One order is edited, one is deleted and one is added while the first two are still being told. Then
all of them are replaced by three. -/
def ordersCourse : Moment × Books :=
  [orders .replace [orderRow "a" "", orderRow "b" ""],
    orders .append [orderRow "b" "edited", orderRow "a" "deleted", orderRow "c" "added"],
    orders .replace [orderRow "x" "", orderRow "y" "", orderRow "z" ""]].foldl
      (fun course source => courseStep course (.set 0 source)) (first [], {})

theorem orders_versions :
    ∃ source, ordersCourse.1.scopes.stored? 0 "db.orders" = some source ∧
      source.versions = [2, 1, 0] ∧
      source.versions = (ordersCourse.2.stored 0 "db.orders").slots.map fun slot =>
        (ordersCourse.2.stored 0 "db.orders").rewrites slot.number := by
  have hset : ∀ course : Moment × Books, Booked course.1 course.2 →
      course.1.scopes.isAlive 0 = true → ∀ mergeType rows,
        Booked (courseStep course (.set 0 (orders mergeType rows))).1
          (courseStep course (.set 0 (orders mergeType rows))).2 :=
    fun course hbooked halive mergeType rows =>
      have hallowed : course.1.Allows (.set 0 (orders mergeType rows)) := ⟨halive, lower_id_make ..⟩
      hbooked.act hallowed ⟨_, _, _, rfl⟩
  have hbooked : Booked ordersCourse.1 ordersCourse.2 := by
    refine hset _ (hset _ (hset _ (.first []) ?_ _ _) ?_ _ _) ?_ _ _
    all_goals decide +kernel
  have hversions : (ordersCourse.1.scopes.stored? 0 "db.orders").map Source.versions =
      some [2, 1, 0] := by decide +kernel
  obtain ⟨source, hstored, hversions⟩ := Option.map_eq_some_iff.mp hversions
  exact ⟨source, hstored, hversions, (versions_count_rewrites hbooked hstored).2.2⟩

end Moment

end ReactiveMarkup
