import Mathlib.Data.List.Nodup
import ReactiveMarkup.Proofs.Face.Tending

/-!
# The books of a pass

A pass may be asked for rows in any order, of any groups and sources, and for one row many times. Its
books are told here from the calls alone: a call that is given something has a slot, named by the
group, the key of the row and how many calls before it were given something for that pair. The slots a
pass leaves are these, each with what the call was given.

That no two calls are given the same rendering needs the passes before. A rendering that is made has a
serial number that none had before it, so two calls could only be given the same one by taking it
over twice. They take it from different slots, and by the same fact, one pass earlier, different slots
hold different renderings. Nothing is assumed of the nodes: between two calls they may be changed in any
way.
-/

namespace ReactiveMarkup

/-- A call for a row, with what it was given. -/
structure RowCall where
  group : String
  source : Source
  index : Nat
  levels : List String
  result : Option Rendering

/-! ## What the calls say -/

namespace RowCall

/-- Whether there is a row at the index of a call. -/
def inRange (call : RowCall) : Bool := (call.source.entries[call.index]?).isSome

theorem inRange_of_lt {call : RowCall} (h : call.index < call.source.size) :
    call.inRange = true := by
  rw [inRange, List.getElem?_eq_getElem (show call.index < call.source.entries.length from h)]
  rfl

/-- Whether a call was given something for a group and a key. -/
def shows (group : String) (key : RowKey) (call : RowCall) : Bool :=
  call.result.isSome && decide (call.group = group ∧ call.source.rowKey? call.index = some key)

/-- The slot of a call after others, the latest of which comes first. -/
def slot? (earlier : List RowCall) (call : RowCall) : Option SlotName :=
  (call.source.rowKey? call.index).map fun key =>
    ⟨call.group, key, earlier.countP (shows call.group key)⟩

/-- The first face that fits the row of a call after others. -/
def face? (faces : List ResolvedFace) (earlier : List RowCall) (call : RowCall) :
    Option ResolvedFace :=
  faces.find? fun face =>
    face.fits call.index (RowType.after (earlier.countP (·.result.isSome))) call.levels

/-- The slots of the calls that were given something, with what they were given. -/
def slotsOf : List RowCall → List (SlotName × Rendering)
  | [] => []
  | call :: earlier =>
    match call.slot? earlier, call.result with
    | some name, some rendering => (name, rendering) :: slotsOf earlier
    | _, _ => slotsOf earlier

theorem slotsOf_cons_none {call : RowCall} (h : call.result = none) (earlier : List RowCall) :
    slotsOf (call :: earlier) = slotsOf earlier := by
  rw [slotsOf, h]
  cases call.slot? earlier <;> rfl

theorem slotsOf_cons_some {call : RowCall} {earlier : List RowCall} {name : SlotName}
    {rendering : Rendering} (hslot : call.slot? earlier = some name)
    (hresult : call.result = some rendering) :
    slotsOf (call :: earlier) = (name, rendering) :: slotsOf earlier := by
  rw [slotsOf, hslot, hresult]

/-- A slot is numbered below the calls for its pair that were given something. -/
theorem occurrence_lt {calls : List RowCall} {slot : SlotName × Rendering}
    (h : slot ∈ slotsOf calls) :
    slot.1.occurrence < calls.countP (shows slot.1.group slot.1.key) := by
  induction calls with
  | nil => cases h
  | cons call earlier ih =>
      have hold : slot ∈ slotsOf earlier → slot.1.occurrence <
          (call :: earlier).countP (shows slot.1.group slot.1.key) := fun hin =>
        Nat.lt_of_lt_of_le (ih hin) (List.sublist_cons_self call earlier).countP_le
      rw [slotsOf] at h
      split at h
      · next name rendering hslot hresult =>
          rcases List.mem_cons.mp h with rfl | hin
          · obtain ⟨key, hkey, rfl⟩ := Option.map_eq_some_iff.mp hslot
            have hshows : call.shows call.group key = true := by
              rw [shows, hresult, hkey]
              simp
            rw [List.countP_cons_of_pos hshows]
            exact Nat.lt_succ_self _
          · exact hold hin
      · exact hold h

/-- The slot of a call is none of those before it. -/
theorem slot_fresh {call : RowCall} {earlier : List RowCall} {name : SlotName}
    (h : call.slot? earlier = some name) : name ∉ (slotsOf earlier).map Prod.fst := by
  intro hin
  obtain ⟨slot, hslot, rfl⟩ := List.mem_map.mp hin
  obtain ⟨key, -, hname⟩ := Option.map_eq_some_iff.mp h
  have hlt := occurrence_lt hslot
  rw [← hname] at hlt
  exact Nat.lt_irrefl _ hlt

/-- No slot is used twice. -/
theorem slots_nodup (calls : List RowCall) : ((slotsOf calls).map Prod.fst).Nodup := by
  induction calls with
  | nil => exact List.nodup_nil
  | cons call earlier ih =>
      rw [slotsOf]
      split
      · next name rendering hslot _ => exact List.nodup_cons.mpr ⟨slot_fresh hslot, ih⟩
      · exact ih

end RowCall

/-! ## One call -/

/-- Whether a rendering shows a row as it is now: it was made from this version and with this face. -/
def Rendering.Current (rendering : Rendering) (entry : Entry) (face : Face) : Prop :=
  rendering.version = entry.version ∧ rendering.face = face.index

/-- How a call is answered: there is no row, no face fits it, what its slot holds is taken over, or a
rendering is made with a serial number that none has among those known. -/
inductive RowCall.Answered (faces : List ResolvedFace) (kept : List (SlotName × Rendering))
    (known : List Rendering) (earlier : List RowCall) (call : RowCall) : Prop
  | missing (there : call.source.entries[call.index]? = none) (result : call.result = none)
  | skipped {entry : Entry} (there : call.source.entries[call.index]? = some entry)
      (chosen : call.face? faces earlier = none) (result : call.result = none)
  | reused {entry : Entry} {resolved : ResolvedFace} {name : SlotName} {old : Rendering}
      (there : call.source.entries[call.index]? = some entry)
      (chosen : call.face? faces earlier = some resolved) (slot : call.slot? earlier = some name)
      (stored : kept.lookup name = some old) (current : old.Current entry resolved.face)
      (result : call.result = some old)
  | rendered {entry : Entry} {resolved : ResolvedFace} {name : SlotName} {new : Rendering}
      (there : call.source.entries[call.index]? = some entry)
      (chosen : call.face? faces earlier = some resolved) (slot : call.slot? earlier = some name)
      (changed : ∀ old, kept.lookup name = some old → ¬old.Current entry resolved.face)
      (current : new.key = name.key ∧ new.Current entry resolved.face)
      (fresh : ∀ other ∈ known, other.serial ≠ new.serial) (result : call.result = some new)

namespace Pass

variable {pass after : Pass}

/-- What showing a row under a slot does to the books. -/
structure Enters (pass : Pass) (name : SlotName) (rendering : Rendering) (after : Pass) : Prop where
  faces : after.faces = pass.faces
  previous : after.previous = pass.previous.filter fun slot => slot.1 != name
  next : after.next = (name, rendering) :: pass.next
  seen : after.seen = (name.group, name.key) :: pass.seen
  shown : after.shown = pass.shown + 1
  serial : pass.serial ≤ after.serial
  counted : after.counts.rendered + after.counts.reused =
    pass.counts.rendered + pass.counts.reused + 1
  skipped : after.counts.skipped = pass.counts.skipped

theorem enters_takeOver (pass : Pass) (name : SlotName) (rendering : Rendering) :
    pass.Enters name rendering (pass.takeOver name rendering).1 :=
  ⟨rfl, rfl, rfl, rfl, rfl, Nat.le_refl _, rfl, rfl⟩

theorem enters_makeNew (pass : Pass) (name : SlotName) (entry : Entry) (face : Face) :
    pass.Enters name (pass.makeNew name entry face).2 (pass.makeNew name entry face).1 :=
  ⟨rfl, rfl, rfl, rfl, rfl, Nat.le_succ _, Nat.add_right_comm _ 1 _, rfl⟩

/-- A row is shown with what its slot holds when that is current, and with a new rendering else. -/
theorem place_cases (pass : Pass) (name : SlotName) (entry : Entry) (face : Face) :
    (∃ old, pass.previous.lookup name = some old ∧ old.Current entry face ∧
      pass.place name entry face = pass.takeOver name old) ∨
    (∀ old, pass.previous.lookup name = some old → ¬old.Current entry face) ∧
      pass.place name entry face = pass.makeNew name entry face := by
  rw [place_eq]
  cases hstored : pass.previous.lookup name with
  | none => exact .inr ⟨by simp, rfl⟩
  | some old =>
      dsimp only
      split
      · next hcurrent =>
          rw [Bool.and_eq_true, decide_eq_true_eq, decide_eq_true_eq] at hcurrent
          exact .inl ⟨old, rfl, hcurrent, rfl⟩
      · next hnot =>
          refine .inr ⟨fun other hother hcurrent => hnot ?_, rfl⟩
          obtain rfl := Option.some.inj hother
          rw [Bool.and_eq_true, decide_eq_true_eq, decide_eq_true_eq]
          exact hcurrent

/-- Either way the row is entered into the books. -/
theorem enters_place (pass : Pass) (name : SlotName) (entry : Entry) (face : Face) :
    pass.Enters name (pass.place name entry face).2 (pass.place name entry face).1 := by
  rcases pass.place_cases name entry face with ⟨old, -, -, hplace⟩ | ⟨-, hplace⟩
  · rw [hplace]
    exact pass.enters_takeOver name old
  · rw [hplace]
    exact pass.enters_makeNew name entry face

/-- What a pass does when it is asked for a row. -/
theorem renderRow_cases {group : String} {source : Source} {index : Nat} {levels : List String}
    {result : Option Rendering} (h : pass.renderRow group source index levels = (after, result)) :
    (source.entries[index]? = none ∧ after = pass ∧ result = none) ∨
    ∃ entry, source.entries[index]? = some entry ∧
      ((pass.faces.find? (fun face => face.fits index (RowType.after pass.shown) levels) = none ∧
        after = { pass with counts := { pass.counts with skipped := pass.counts.skipped + 1 } } ∧
        result = none) ∨
      ∃ resolved name,
        pass.faces.find? (fun face => face.fits index (RowType.after pass.shown) levels) =
          some resolved ∧
        name = ⟨group, Source.keyOfRow source.options.keyField entry.row,
          pass.seen.count (group, Source.keyOfRow source.options.keyField entry.row)⟩ ∧
        after = (pass.place name entry resolved.face).1 ∧
        result = some (pass.place name entry resolved.face).2) := by
  rw [renderRow] at h
  cases hentry : source.entries[index]? with
  | none =>
      rw [hentry] at h
      cases h
      exact .inl ⟨rfl, rfl, rfl⟩
  | some entry =>
      refine .inr ⟨entry, rfl, ?_⟩
      rw [hentry, select, ← List.find?_eq_bind_findIdx?_getElem?] at h
      dsimp only at h
      generalize pass.faces.find? _ = found at h ⊢
      cases found with
      | none =>
          cases h
          exact .inl ⟨rfl, rfl, rfl⟩
      | some resolved =>
          cases h
          exact .inr ⟨resolved, _, rfl, rfl, rfl, rfl⟩

/-! ## What one call keeps -/

theorem mem_of_lookup {slots : List (SlotName × Rendering)} {name : SlotName} {rendering : Rendering}
    (h : slots.lookup name = some rendering) : (name, rendering) ∈ slots := by
  obtain ⟨front, rest, rfl, -⟩ := List.lookup_eq_some_iff.mp h
  exact List.mem_append_right _ List.mem_cons_self

theorem lookup_filter_ne {name other : SlotName} (h : other ≠ name)
    (slots : List (SlotName × Rendering)) :
    (slots.filter fun slot => slot.1 != name).lookup other = slots.lookup other := by
  induction slots with
  | nil => rfl
  | cons slot rest ih =>
      rw [List.filter_cons]
      split
      · rw [List.lookup_cons, List.lookup_cons, ih]
      · next hslot =>
          have hname : slot.1 = name := by simpa using hslot
          rw [ih, List.lookup_cons, hname, beq_false_of_ne h]

open RowCall

/-- What holds of a pass after some calls: its books are those of the calls, and what a slot is given
was found in it or is new in this pass. -/
structure Booked (start : Pass) (calls : List RowCall) (pass : Pass) : Prop where
  faces : pass.faces = start.faces
  previous : ∀ name, name ∉ (slotsOf calls).map Prod.fst →
    pass.previous.lookup name = start.previous.lookup name
  next : pass.next = slotsOf calls
  seen : ∀ group key, pass.seen.count (group, key) = calls.countP (shows group key)
  shown : pass.shown = calls.countP (·.result.isSome)
  results : (slotsOf calls).map Prod.snd = calls.filterMap RowCall.result
  serial : start.serial ≤ pass.serial
  below : ∀ rendering ∈ calls.filterMap RowCall.result, rendering.serial < pass.serial
  origin : ∀ slot ∈ slotsOf calls,
    start.previous.lookup slot.1 = some slot.2 ∨ start.serial ≤ slot.2.serial
  serials : ((calls.filterMap RowCall.result).map Rendering.serial).Nodup
  counted : pass.counts.rendered + pass.counts.reused + pass.counts.skipped =
    calls.countP RowCall.inRange

namespace Booked

variable {begun : Pass} {calls : List RowCall} {call : RowCall}

theorem start (faces : List ResolvedFace) (pattern : Pattern) (markup : Markup)
    (cache : PassCache) :
    Booked (.start faces pattern markup cache) [] (.start faces pattern markup cache) where
  faces := rfl
  previous _ _ := rfl
  next := rfl
  seen _ _ := rfl
  shown := rfl
  results := rfl
  serial := Nat.le_refl _
  below _ hnone := by cases hnone
  origin _ hnone := by cases hnone
  serials := List.nodup_nil
  counted := rfl

/-- The nodes are no concern of the books. -/
theorem setMarkup (h : Booked begun calls pass) (markup : Markup) :
    Booked begun calls { pass with markup } := { h with }

/-- A call that is given nothing changes nothing but the counts. -/
theorem refused (h : Booked begun calls pass) (hresult : call.result = none) {counts : PassCounts}
    (hcounted : counts.rendered + counts.reused + counts.skipped =
      (call :: calls).countP RowCall.inRange) :
    Booked begun (call :: calls) { pass with counts } := by
  have hslots := slotsOf_cons_none hresult calls
  have hresults : (call :: calls).filterMap RowCall.result = calls.filterMap RowCall.result :=
    List.filterMap_cons_none hresult
  exact {
    faces := h.faces
    previous := by rw [hslots]; exact h.previous
    next := by rw [hslots]; exact h.next
    seen := fun group key => by
      rw [List.countP_cons_of_neg (by simp [shows, hresult])]
      exact h.seen group key
    shown := by
      rw [List.countP_cons_of_neg (by simp [hresult])]
      exact h.shown
    results := by rw [hslots, hresults]; exact h.results
    serial := h.serial
    below := by rw [hresults]; exact h.below
    origin := by rw [hslots]; exact h.origin
    serials := by rw [hresults]; exact h.serials
    counted := hcounted }

/-- A call that is given a rendering with a serial number of its own. -/
theorem given (h : Booked begun calls pass) {name : SlotName} {rendering : Rendering}
    (hslot : call.slot? calls = some name) (hresult : call.result = some rendering)
    (henters : pass.Enters name rendering after) (hbelow : rendering.serial < after.serial)
    (horigin : begun.previous.lookup name = some rendering ∨ begun.serial ≤ rendering.serial)
    (hnew : ∀ other ∈ calls.filterMap RowCall.result, other.serial ≠ rendering.serial) :
    Booked begun (call :: calls) after := by
  have hslots := slotsOf_cons_some hslot hresult
  have hresults : (call :: calls).filterMap RowCall.result =
      rendering :: calls.filterMap RowCall.result := List.filterMap_cons_some hresult
  obtain ⟨key, hkey, rfl⟩ := Option.map_eq_some_iff.mp hslot
  have hthere : call.inRange = true := by
    rw [Source.rowKey?] at hkey
    obtain ⟨entry, hentry, -⟩ := Option.map_eq_some_iff.mp hkey
    rw [inRange, hentry]
    rfl
  have hshows : ∀ group other, call.shows group other = ((call.group, key) == (group, other)) := by
    intro group other
    rw [Bool.eq_iff_iff, beq_iff_eq, Prod.mk.injEq, shows, hresult, hkey]
    simp
  exact {
    faces := henters.faces.trans h.faces
    previous := fun other hother => by
      rw [hslots, List.map_cons, List.mem_cons, not_or] at hother
      rw [henters.previous, lookup_filter_ne hother.1]
      exact h.previous other hother.2
    next := by rw [henters.next, h.next, hslots]
    seen := fun group key' => by
      rw [henters.seen, List.count_cons, List.countP_cons, h.seen, hshows]
    shown := by
      rw [henters.shown, List.countP_cons_of_pos (by rw [hresult]; rfl), h.shown]
    results := by rw [hslots, hresults, List.map_cons, h.results]
    serial := Nat.le_trans h.serial henters.serial
    below := by
      rw [hresults]
      refine List.forall_mem_cons.mpr ⟨hbelow, fun other hother => ?_⟩
      exact Nat.lt_of_lt_of_le (h.below other hother) henters.serial
    origin := by
      rw [hslots]
      exact List.forall_mem_cons.mpr ⟨horigin, h.origin⟩
    serials := by
      rw [hresults, List.map_cons]
      refine List.nodup_cons.mpr ⟨fun hin => ?_, h.serials⟩
      obtain ⟨other, hother, hsame⟩ := List.mem_map.mp hin
      exact hnew other hother hsame
    counted := by
      rw [henters.counted, henters.skipped, List.countP_cons_of_pos hthere, ← h.counted]
      exact Nat.add_right_comm _ 1 _ }

/-- What is taken over was not given to a call before: a call before it had another slot, and other
slots held other renderings. -/
theorem taken_new (h : Booked begun calls pass)
    (hstored : ∀ slot ∈ begun.previous, slot.2.serial < begun.serial)
    (hserials : (begun.previous.map fun slot => slot.2.serial).Nodup) {name : SlotName}
    {old : Rendering} (hname : name ∉ (slotsOf calls).map Prod.fst)
    (hlookup : begun.previous.lookup name = some old) :
    ∀ other ∈ calls.filterMap RowCall.result, other.serial ≠ old.serial := by
  intro other hother hsame
  rw [← h.results] at hother
  obtain ⟨slot, hslot, rfl⟩ := List.mem_map.mp hother
  have hold := mem_of_lookup hlookup
  -- The other call took something over as well, from another slot, or was given something newer.
  rcases h.origin slot hslot with hbefore | hnew
  · have hequal : slot = (name, old) :=
      List.inj_on_of_nodup_map hserials (mem_of_lookup hbefore) hold hsame
    exact hname (List.mem_map.mpr ⟨slot, hslot, by rw [hequal]⟩)
  · rw [hsame] at hnew
    exact Nat.not_lt.mpr hnew (hstored _ hold)

/-- A call keeps the books, and is answered as they say. -/
theorem asked {group : String} {source : Source} {index : Nat} {levels : List String}
    {result : Option Rendering} {made : List Rendering} (h : Booked begun calls pass)
    (hstored : ∀ slot ∈ begun.previous, slot.2.serial < begun.serial)
    (hserials : (begun.previous.map fun slot => slot.2.serial).Nodup)
    (hmade : ∀ rendering ∈ made, rendering.serial < begun.serial)
    (hstep : pass.renderRow group source index levels = (after, result)) :
    Booked begun (⟨group, source, index, levels, result⟩ :: calls) after ∧
      RowCall.Answered begun.faces begun.previous (calls.filterMap RowCall.result ++ made) calls
        ⟨group, source, index, levels, result⟩ := by
  rcases renderRow_cases hstep with ⟨hmissing, rfl, rfl⟩ | ⟨entry, hentry, hcases⟩
  · refine ⟨h.refused rfl ?_, .missing hmissing rfl⟩
    rw [List.countP_cons_of_neg (by simp [inRange, hmissing])]
    exact h.counted
  · rcases hcases with ⟨hnone, rfl, rfl⟩ | ⟨resolved, name, hchosen, hname, rfl, rfl⟩
    · rw [h.faces, h.shown] at hnone
      refine ⟨h.refused rfl ?_, .skipped hentry hnone rfl⟩
      rw [List.countP_cons_of_pos (by simp [inRange, hentry]), ← h.counted]
      rfl
    · rw [h.faces, h.shown] at hchosen
      have hslot : ∀ result,
          RowCall.slot? calls ⟨group, source, index, levels, result⟩ = some name := by
        intro result
        rw [slot?, Source.rowKey?, hentry, Option.map_some, Option.map_some, hname, h.seen]
      have hfresh := slot_fresh (hslot none)
      have hprevious := h.previous name hfresh
      rcases pass.place_cases name entry resolved.face with
        ⟨old, hlookup, hcurrent, hplace⟩ | ⟨hchanged, hplace⟩
      · rw [hplace]
        rw [hprevious] at hlookup
        have hbelow := Nat.lt_of_lt_of_le (hstored _ (mem_of_lookup hlookup)) h.serial
        exact ⟨h.given (hslot _) rfl (pass.enters_takeOver name old) hbelow (.inl hlookup)
            (h.taken_new hstored hserials hfresh hlookup),
          .reused hentry hchosen (hslot _) hlookup hcurrent rfl⟩
      · rw [hplace]
        rw [hprevious] at hchanged
        have hbelow : ∀ other ∈ calls.filterMap RowCall.result, other.serial ≠ pass.serial :=
          fun other hother => Nat.ne_of_lt (h.below other hother)
        refine ⟨h.given (hslot _) rfl (pass.enters_makeNew name entry resolved.face)
            (Nat.lt_succ_self _) (.inr h.serial) hbelow,
          .rendered hentry hchosen (hslot _) hchanged ⟨rfl, rfl, rfl⟩ ?_ rfl⟩
        exact List.forall_mem_append.mpr ⟨hbelow, fun other hother =>
          Nat.ne_of_lt (Nat.lt_of_lt_of_le (hmade other hother) h.serial)⟩

end Booked

/-! ## Runs of calls, and passes after passes -/

/-- What a pass comes to when it is asked for rows, the latest call first. Whatever is done to the
nodes between two calls is done. -/
inductive Asked (begun : Pass) : List RowCall → Pass → Prop
  | start : Asked begun [] begun
  | call {calls : List RowCall} {pass after : Pass} {result : Option Rendering}
      (earlier : Asked begun calls pass) (markup : Markup) (group : String) (source : Source)
      (index : Nat) (levels : List String)
      (step : { pass with markup }.renderRow group source index levels = (after, result)) :
      Asked begun (⟨group, source, index, levels, result⟩ :: calls) after

end Pass

/-- The cache after some passes that began with an empty one, and all renderings that calls of these
passes were given. -/
inductive Chained : List Rendering → PassCache → Prop
  | empty : Chained [] {}
  | pass {made : List Rendering} {cache : PassCache} {faces : List ResolvedFace} {pattern : Pattern}
      {markup : Markup} {calls : List RowCall} {after : Pass} (earlier : Chained made cache)
      (asked : (Pass.start faces pattern markup cache).Asked calls after) :
      Chained (calls.filterMap RowCall.result ++ made) after.cache

/-- What holds of a cache between two passes: no slot shares its rendering with another, and all
serial numbers are used up below the next one. -/
structure PassCache.Sound (made : List Rendering) (cache : PassCache) : Prop where
  below : ∀ rendering ∈ made, rendering.serial < cache.serial
  stored : ∀ slot ∈ cache.slots, slot.2 ∈ made
  serials : (cache.slots.map fun slot => slot.2.serial).Nodup

namespace Pass.Asked

open RowCall

variable {made : List Rendering} {cache : PassCache} {faces : List ResolvedFace} {pattern : Pattern}
  {markup : Markup} {calls : List RowCall} {after : Pass}

/-- A run of calls keeps the books, and each call is answered as they say. -/
theorem booked (h : (Pass.start faces pattern markup cache).Asked calls after)
    (hcache : cache.Sound made) :
    Booked (Pass.start faces pattern markup cache) calls after ∧
      ∀ call earlier, call :: earlier <:+ calls →
        call.Answered faces cache.slots (earlier.filterMap RowCall.result ++ made) earlier := by
  induction h with
  | start =>
      refine ⟨.start faces pattern markup cache, fun call earlier hsuffix => ?_⟩
      cases List.suffix_nil.mp hsuffix
  | call earlier markup group source index levels step ih =>
      obtain ⟨hbooked, hanswered⟩ := ih
      obtain ⟨hnext, hcall⟩ := (hbooked.setMarkup markup).asked
        (fun slot hslot => hcache.below _ (hcache.stored slot hslot)) hcache.serials hcache.below step
      refine ⟨hnext, fun call before hsuffix => ?_⟩
      rcases List.suffix_cons_iff.mp hsuffix with hlast | hearlier
      · cases hlast
        exact hcall
      · exact hanswered call before hearlier

theorem sound (h : (Pass.start faces pattern markup cache).Asked calls after)
    (hcache : cache.Sound made) :
    after.cache.Sound (calls.filterMap RowCall.result ++ made) := by
  obtain ⟨hbooked, -⟩ := h.booked hcache
  have hslots : after.cache.slots = slotsOf calls := hbooked.next
  have hserials : after.cache.slots.map (fun slot => slot.2.serial) =
      (calls.filterMap RowCall.result).map Rendering.serial := by
    rw [hslots, ← hbooked.results, List.map_map]
    rfl
  refine ⟨List.forall_mem_append.mpr ⟨hbooked.below, fun rendering hmade => ?_⟩,
    fun slot hslot => ?_, hserials ▸ hbooked.serials⟩
  · exact Nat.lt_of_lt_of_le (hcache.below rendering hmade) hbooked.serial
  · rw [hslots] at hslot
    refine List.mem_append_left _ ?_
    rw [← hbooked.results]
    exact List.mem_map_of_mem hslot

end Pass.Asked

theorem Chained.sound {made : List Rendering} {cache : PassCache} (h : Chained made cache) :
    cache.Sound made := by
  induction h with
  | empty => exact ⟨List.forall_mem_nil _, List.forall_mem_nil _, List.nodup_nil⟩
  | pass _ asked ih => exact asked.sound ih

/-! ## The books of every pass -/

/-- A call is given what its slot held exactly when that is current for its row and face. -/
theorem RowCall.Answered.reused_iff {faces : List ResolvedFace}
    {kept : List (SlotName × Rendering)} {known : List Rendering} {earlier : List RowCall}
    {call : RowCall} (h : call.Answered faces kept known earlier) {name : SlotName}
    {old : Rendering} (hslot : call.slot? earlier = some name)
    (hstored : kept.lookup name = some old) (hknown : old ∈ known) :
    call.result = some old ↔ ∃ entry resolved, call.source.entries[call.index]? = some entry ∧
      call.face? faces earlier = some resolved ∧ old.Current entry resolved.face := by
  cases h with
  | missing there result => simp [there, result]
  | skipped there chosen result => simp [chosen, result]
  | @reused entry resolved other stored there chosen slot lookup current result =>
      obtain rfl := Option.some.inj (hslot.symm.trans slot)
      obtain rfl := Option.some.inj (hstored.symm.trans lookup)
      exact iff_of_true result ⟨entry, resolved, there, chosen, current⟩
  | @rendered entry resolved other new there chosen slot changed current fresh result =>
      obtain rfl := Option.some.inj (hslot.symm.trans slot)
      refine iff_of_false (fun hold => ?_) ?_
      · obtain rfl := Option.some.inj (result.symm.trans hold)
        exact fresh _ hknown rfl
      · rintro ⟨entry', resolved', hentry, hresolved, hcurrent⟩
        obtain rfl := Option.some.inj (there.symm.trans hentry)
        obtain rfl := Option.some.inj (chosen.symm.trans hresolved)
        exact changed old hstored hcurrent

/-- In every pass of every chain of passes, whatever it is asked for: each call is answered with the
first face that fits at the parity of the calls shown before it; it gets what the pass before left in
its slot exactly when that is current, and a rendering that no call ever got otherwise. No slot is used
twice and no rendering given twice. The pass leaves one slot for each call that got something, with
what it got, and every row that was there is counted once. -/
theorem passes_keep_books {made : List Rendering} {cache : PassCache} (h : Chained made cache)
    {faces : List ResolvedFace} {pattern : Pattern} {markup : Markup} {calls : List RowCall}
    {after : Pass} (hasked : (Pass.start faces pattern markup cache).Asked calls after) :
    (∀ call earlier, call :: earlier <:+ calls →
      call.Answered faces cache.slots (earlier.filterMap RowCall.result ++ made) earlier ∧
      ∀ name old, call.slot? earlier = some name → cache.slots.lookup name = some old →
        (call.result = some old ↔ ∃ entry resolved,
          call.source.entries[call.index]? = some entry ∧
            call.face? faces earlier = some resolved ∧ old.Current entry resolved.face)) ∧
    ((RowCall.slotsOf calls).map Prod.fst).Nodup ∧
    ((calls.filterMap RowCall.result).map Rendering.serial).Nodup ∧
    after.cache.slots = RowCall.slotsOf calls ∧
    (RowCall.slotsOf calls).map Prod.snd = calls.filterMap RowCall.result ∧
    after.counts.rendered + after.counts.reused + after.counts.skipped =
      calls.countP RowCall.inRange := by
  obtain ⟨hbooked, hanswered⟩ := hasked.booked h.sound
  refine ⟨fun call earlier hsuffix => ⟨hanswered call earlier hsuffix, ?_⟩,
    RowCall.slots_nodup calls, hbooked.serials, hbooked.next, hbooked.results, hbooked.counted⟩
  intro name old hslot hstored
  refine (hanswered call earlier hsuffix).reused_iff hslot hstored (List.mem_append_right _ ?_)
  exact h.sound.stored _ (Pass.mem_of_lookup hstored)

/-- A pass that is asked for rows of a source one after another, and the calls. -/
def Pass.askFor (begun : Pass) (source : Source) (indexes : List Nat) : Pass × List RowCall :=
  indexes.foldl (fun state index =>
    let given := state.1.renderRow "" source index []
    (given.1, ⟨"", source, index, [], given.2⟩ :: state.2)) (begun, [])

theorem Pass.asked_askFor (begun : Pass) (source : Source) (indexes : List Nat) :
    begun.Asked (begun.askFor source indexes).2 (begun.askFor source indexes).1 :=
  List.foldlRecOn (motive := fun state : Pass × List RowCall => begun.Asked state.2 state.1)
    indexes _ .start
    fun state earlier index _ => .call earlier state.1.markup "" source index [] rfl

/-- A face that shows every row as it stands. -/
def plainFace : ResolvedFace := ⟨⟨0, none, none, none, [0]⟩, none, none, none⟩

/-- Two rows, the second of which was overwritten so many times. -/
def numberedRows (times : Nat) : Source :=
  ⟨"db.items", [⟨[("id", .string "1")], 0⟩, ⟨[("id", .string "2")], times⟩],
    { keyField := some "id" }⟩

/-- A pass over two rows that is asked for the second one twice, and for one that is not there. -/
def firstBooks : Pass × List RowCall :=
  (Pass.start [plainFace] (.ofRule .nothing) ⟨#[{ kind := .text "row" }]⟩ {}).askFor
    (numberedRows 0) [0, 1, 1, 7]

/-- The pass after it, when the second row was overwritten. -/
def secondBooks : Pass × List RowCall :=
  (Pass.start [plainFace] (.ofRule .nothing) firstBooks.1.markup firstBooks.1.cache).askFor
    (numberedRows 1) [1, 1, 0, 0]

theorem overwritten_row_anew :
    Chained (firstBooks.2.filterMap RowCall.result ++ []) firstBooks.1.cache ∧
    secondBooks.2.map (fun call => call.result.map Rendering.serial) =
      [some 5, some 0, some 4, some 3] ∧
    secondBooks.1.cache.slots = RowCall.slotsOf secondBooks.2 ∧
    secondBooks.1.counts.rendered + secondBooks.1.counts.reused + secondBooks.1.counts.skipped =
      secondBooks.2.countP RowCall.inRange := by
  have hfirst : Chained (firstBooks.2.filterMap RowCall.result ++ []) firstBooks.1.cache :=
    .pass .empty (Pass.asked_askFor _ _ _)
  obtain ⟨-, -, -, hslots, -, hcounted⟩ :=
    passes_keep_books hfirst (Pass.asked_askFor _ (numberedRows 1) [1, 1, 0, 0])
  exact ⟨hfirst, by decide +kernel, hslots, hcounted⟩

end ReactiveMarkup
