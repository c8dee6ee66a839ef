import Mathlib
import ReactiveMarkup.Page.Fleet

/-!
# The works of a fleet

Works are known by their numbers. No number is given twice, so a turn of a work concerns this work and
no other, wherever it stands among them: the others are what they were, and if the work is not finished
what is left of it stands in its place. The line says who comes next and is of no importance to this.
-/

namespace ReactiveMarkup

variable {fleet : Fleet} {flights : List Flight} {flight : Flight} {id bound more : FlightId}

theorem nodup_split {earlier later : List Flight}
    (h : ((earlier ++ flight :: later).map Flight.id).Nodup) :
    flight.id ∉ (earlier ++ later).map Flight.id ∧ ((earlier ++ later).map Flight.id).Nodup :=
  List.nodup_cons.mp ((List.perm_middle.map Flight.id).nodup_iff.mp h)

/-- The only work of a number. -/
theorem split_of_find? (hfind : flights.find? (·.id == id) = some flight)
    (hnodup : (flights.map Flight.id).Nodup) :
    flight.id = id ∧ ∃ earlier later, flights = earlier ++ flight :: later ∧
      ∀ other ∈ earlier ++ later, other.id ≠ id := by
  obtain ⟨hid, earlier, later, rfl, hearlier⟩ := List.find?_eq_some_iff_append.mp hfind
  have hthis : flight.id = id := beq_iff_eq.mp hid
  refine ⟨hthis, earlier, later, rfl, fun other hother hsame => ?_⟩
  exact (nodup_split hnodup).1 (List.mem_map.mpr ⟨other, hother, hsame.trans hthis.symm⟩)

theorem filter_split {earlier later : List Flight} (hid : flight.id = id)
    (hothers : ∀ other ∈ earlier ++ later, other.id ≠ id) :
    (earlier ++ flight :: later).filter (·.id != id) = earlier ++ later := by
  have hkeep : ∀ {list : List Flight}, (∀ other ∈ list, other.id ≠ id) →
      list.filter (·.id != id) = list := fun h =>
    List.filter_eq_self.mpr fun other hother => bne_iff_ne.mpr (h other hother)
  rw [List.filter_append, List.filter_cons_of_neg (by simp [hid]),
    hkeep fun other hother => hothers other (List.mem_append_left _ hother),
    hkeep fun other hother => hothers other (List.mem_append_right _ hother)]

theorem map_split {fresh : Flight} {earlier later : List Flight} (hid : flight.id = id)
    (hothers : ∀ other ∈ earlier ++ later, other.id ≠ id) :
    (earlier ++ flight :: later).map (fun other => if other.id = id then fresh else other) =
      earlier ++ fresh :: later := by
  have hkeep : ∀ {list : List Flight}, (∀ other ∈ list, other.id ≠ id) →
      list.map (fun other => if other.id = id then fresh else other) = list := fun h =>
    (List.map_congr_left fun other hother => if_neg (h other hother)).trans (List.map_id _)
  rw [List.map_append, List.map_cons, if_pos hid,
    hkeep fun other hother => hothers other (List.mem_append_left _ hother),
    hkeep fun other hother => hothers other (List.mem_append_right _ hother)]

namespace Fleet

/-- The states of the works of a fleet. -/
def states (fleet : Fleet) : List FlightState := fleet.flights.map Flight.state

/-- Every work has a number of its own, below a bound. -/
structure Numbered (fleet : Fleet) (bound : FlightId) : Prop where
  nodup : (fleet.flights.map Flight.id).Nodup
  known : ∀ flight ∈ fleet.flights, flight.id < bound

theorem numbered_empty (bound : FlightId) : Numbered {} bound :=
  ⟨List.nodup_nil, fun _ hin => absurd hin List.not_mem_nil⟩

theorem Numbered.le (h : fleet.Numbered bound) (hle : bound ≤ more) : fleet.Numbered more :=
  ⟨h.nodup, fun flight hflight => Nat.lt_of_lt_of_le (h.known flight hflight) hle⟩

/-- What a turn of a work makes of a fleet, whether the work is finished or not. -/
theorem Numbered.turn (h : fleet.Numbered bound)
    (hfind : fleet.flights.find? (·.id == id) = some flight) (line : List FlightId) :
    fleet.states.Perm (flight.state :: (fleet.remove id line).states) ∧
      (fleet.remove id line).Numbered bound ∧
      ∀ task, (fleet.keep id task line).states.Perm (.begun task :: (fleet.remove id line).states) ∧
        (fleet.keep id task line).Numbered bound := by
  obtain ⟨hnodup, hknown⟩ := h
  obtain ⟨hid, earlier, later, hflights, hothers⟩ := split_of_find? hfind hnodup
  rw [hflights] at hnodup hknown
  have hremoved : (fleet.remove id line).flights = earlier ++ later := by
    rw [remove, hflights]
    exact filter_split hid hothers
  have hkept : ∀ task, (fleet.keep id task line).flights =
      earlier ++ ⟨id, .begun task⟩ :: later := by
    intro task
    rw [keep, hflights]
    exact map_split hid hothers
  simp only [states, hflights, hremoved, hkept]
  refine ⟨List.perm_middle.map Flight.state, ⟨?_, ?_⟩,
    fun task => ⟨List.perm_middle.map Flight.state, ⟨?_, ?_⟩⟩⟩
  · rw [hremoved]
    exact (nodup_split hnodup).2
  · rw [hremoved]
    exact fun other hother => hknown other
      (((List.sublist_cons_self flight later).append_left earlier).subset hother)
  · rw [hkept, List.map_append, List.map_cons, ← hid]
    rw [List.map_append, List.map_cons] at hnodup
    exact hnodup
  · rw [hkept]
    intro other hother
    rcases List.mem_append.mp hother with hin | hin
    · exact hknown other (List.mem_append_left _ hin)
    · rcases List.mem_cons.mp hin with rfl | hin
      · exact hid ▸ hknown flight (List.mem_append_right _ List.mem_cons_self)
      · exact hknown other (List.mem_append_right _ (List.mem_cons_of_mem _ hin))

end Fleet

/-- Works that are sent out have numbers that nobody had before. -/
theorem Fleet.Numbered.launch {page : Page} (h : fleet.Numbered page.flights)
    (assignments : List Assignment) :
    (page.launch fleet assignments).2.states =
        fleet.states ++ assignments.map FlightState.assigned ∧
      (page.launch fleet assignments).2.Numbered (page.launch fleet assignments).1.flights := by
  have hfresh : ((assignments.zipIdx page.flights).map fun pair =>
      (⟨pair.2, .assigned pair.1⟩ : Flight)).map Flight.state =
        assignments.map FlightState.assigned := by
    rw [List.map_map]
    change (assignments.zipIdx page.flights).map (FlightState.assigned ∘ Prod.fst) = _
    rw [← List.map_map, List.zipIdx_map_fst]
  have hids : ((assignments.zipIdx page.flights).map fun pair =>
      (⟨pair.2, .assigned pair.1⟩ : Flight)).map Flight.id =
        List.range' page.flights assignments.length := by
    rw [List.map_map]
    change (assignments.zipIdx page.flights).map Prod.snd = _
    rw [List.zipIdx_map_snd]
  rw [Page.launch]
  dsimp only
  refine ⟨?_, ⟨?_, fun flight hflight => ?_⟩⟩
  · rw [states, List.map_append, hfresh, states]
  · rw [List.map_append, hids]
    refine List.nodup_append.mpr ⟨h.nodup, List.nodup_range', fun id hid other hother => ?_⟩
    obtain ⟨flight, hflight, rfl⟩ := List.mem_map.mp hid
    have hlt := h.known flight hflight
    have hle := (List.mem_range'_1.mp hother).1
    exact Nat.ne_of_lt (Nat.lt_of_lt_of_le hlt hle)
  · rw [List.length_zipIdx]
    rcases List.mem_append.mp hflight with hold | hnew
    · exact Nat.lt_of_lt_of_le (h.known flight hold) (Nat.le_add_right _ _)
    · have hid := List.mem_map_of_mem (f := Flight.id) hnew
      rw [hids] at hid
      exact (List.mem_range'_1.mp hid).2

end ReactiveMarkup
