import ReactiveMarkup.Proofs.Page.Undertakings

/-!
# Turns

Works that are under way at the same time have turns. A turn takes up what the turn before left of the
same work, whatever others did in between, until one of them finishes it. So all that can be said of a
work is said by the list of its turns: `Life` is a work from its beginning on, and whether it is over can
be read off the last turn.

A fleet does not keep what is over. What is known of it is known from the turns it played: everything that
was ever sent out is under way, with what its turns left of it, or its turns finished it. This does not
depend on who is in line, nor on how many turns a round has.
-/

namespace ReactiveMarkup

/-- A turn of a work: the number of the work, how far it had come, and the page it found. -/
structure Turn where
  id : FlightId
  state : FlightState
  page : Page

/-- How far a work has come: something is left of it, or it is over. -/
inductive Headway where
  | left (state : FlightState)
  | done (result : Except Error Unit)

namespace Headway

def ofProgress : Progress Task → Headway
  | .finished result => .done result
  | .suspended _ task => .left (.begun task)

def result? : Headway → Option (Except Error Unit)
  | .left _ => none
  | .done result => some result

end Headway

/-- The error of a result. -/
def errorOf? : Except Error Unit → Option Error
  | .ok _ => none
  | .error error => some error

/-- What work ends with that may have failed. -/
def resultOf : Option Error → Except Error Unit
  | none => .ok ()
  | some error => .error error

namespace Turn

/-- The page that a turn leaves. -/
def after (turn : Turn) : Page := (turn.page.advance turn.state).1

/-- How far a turn gets. -/
def headway (turn : Turn) : Headway := .ofProgress (turn.page.advance turn.state).2

/-- What a work ended with in a turn. -/
def result? (turn : Turn) : Option (Except Error Unit) := turn.headway.result?

/-- The error a work ended with in a turn. -/
def failure? (turn : Turn) : Option Error := turn.result?.bind errorOf?

/-- The jobs that came into the queue in a turn. -/
def enqueued (turn : Turn) : List Job := turn.after.queue.jobs.drop turn.page.queue.jobs.length

end Turn

/-- The turns of one work. -/
def turnsOf (id : FlightId) (turns : List Turn) : List Turn := turns.filter (·.id == id)

/-- The works that are over after some turns, with their results, in the order they ended. -/
def ended (turns : List Turn) : List (FlightId × Except Error Unit) :=
  turns.filterMap fun turn => turn.result?.map (turn.id, ·)

/-- The turns of one work from its beginning on: each takes up what the one before left. -/
inductive Life (start : FlightState) : List Turn → Headway → Prop
  | fresh : Life start [] (.left start)
  | turn {turns : List Turn} {turn : Turn} (before : Life start turns (.left turn.state)) :
    Life start (turns ++ [turn]) turn.headway

variable {turns more told : List Turn} {turn : Turn} {id other : FlightId} {start : FlightState}
  {headway : Headway}

theorem turnsOf_append (id : FlightId) (turns more : List Turn) :
    turnsOf id (turns ++ more) = turnsOf id turns ++ turnsOf id more := List.filter_append ..

theorem turnsOf_concat_self (turns : List Turn) (turn : Turn) :
    turnsOf turn.id (turns ++ [turn]) = turnsOf turn.id turns ++ [turn] := by
  rw [turnsOf_append, turnsOf, turnsOf, List.filter_singleton, beq_self_eq_true]
  rfl

theorem turnsOf_concat_of_ne (h : turn.id ≠ id) :
    turnsOf id (turns ++ [turn]) = turnsOf id turns := by
  rw [turnsOf_append, turnsOf, turnsOf, List.filter_singleton, beq_false_of_ne h]
  exact List.append_nil _

theorem ended_append (turns more : List Turn) : ended (turns ++ more) = ended turns ++ ended more :=
  List.filterMap_append ..

theorem ended_cons (turn : Turn) (rest : List Turn) :
    ended (turn :: rest) = (turn.result?.map (turn.id, ·)).toList ++ ended rest := by
  rw [ended, List.filterMap_cons]
  cases turn.result? <;> rfl

theorem lookup_ended (id : FlightId) (turns : List Turn) :
    (ended turns).lookup id = (turnsOf id turns).findSome? Turn.result? := by
  induction turns with
  | nil => rfl
  | cons turn rest ih =>
      rw [ended_cons]
      by_cases hid : turn.id = id
      · rw [turnsOf, List.filter_cons_of_pos (by simp [hid]), List.findSome?_cons]
        cases hresult : turn.result? with
        | none => exact ih
        | some result => simp [hid]
      · rw [turnsOf, List.filter_cons_of_neg (by simp [hid])]
        cases hresult : turn.result? with
        | none => exact ih
        | some result =>
            have hne : (id == turn.id) = false := beq_false_of_ne (Ne.symm hid)
            rw [Option.map_some, Option.toList_some, List.singleton_append, List.lookup_cons, hne]
            exact ih

/-- The first error is that of the first turn with one. -/
theorem findSome?_ended (turns : List Turn) :
    (ended turns).findSome? (fun entry => errorOf? entry.2) = turns.findSome? Turn.failure? := by
  induction turns with
  | nil => rfl
  | cons turn rest ih =>
      rw [ended, List.filterMap_cons, List.findSome?_cons, Turn.failure?]
      cases turn.result? with
      | none => exact ih
      | some result =>
          simp only [Option.map_some, List.findSome?_cons, Option.bind_some]
          cases errorOf? result with
          | none => exact ih
          | some error => rfl

/-- A life is over when one of its turns has a result, and no turn before that has one. -/
theorem Life.result? (h : Life start turns headway) :
    turns.findSome? Turn.result? = headway.result? := by
  induction h with
  | fresh => rfl
  | @turn turns turn _ ih =>
      rw [List.findSome?_append, ih, List.findSome?_singleton]
      rfl

/-- Two lives of the same turns are the same. -/
theorem Life.unique {other : Headway} (h : Life start turns headway) (h' : Life start turns other) :
    headway = other := by
  cases h with
  | fresh =>
      generalize hturns : ([] : List Turn) = turns at h'
      cases h' with
      | fresh => rfl
      | turn _ => simp at hturns
  | @turn turns turn _ =>
      generalize hturns : turns ++ [turn] = all at h'
      cases h' with
      | fresh => simp at hturns
      | @turn _ last _ =>
          obtain ⟨-, hlast⟩ := List.append_inj' hturns rfl
          rw [List.singleton_inj.mp hlast]

namespace Page

/-- The turns of a round. -/
def roundTurns : Nat → Nat → Page → Fleet → List Turn
  | 0, _, _, _ => []
  | turns + 1, pauses, page, fleet =>
    match fleet.line with
    | [] => []
    | id :: line =>
      match fleet.flights.find? (·.id == id) with
      | none => roundTurns turns pauses page { fleet with line }
      | some flight =>
        ⟨id, flight.state, page⟩ ::
          match page.advance flight.state with
          | (_, .finished _) => []
          | (page, .suspended .turn task) =>
            match pauses with
            | 0 => []
            | pauses + 1 => roundTurns turns pauses page (fleet.keep id task (line ++ [id]))
          | (page, .suspended (.gate gate) task) =>
            roundTurns turns pauses { page with gates := page.gates.park gate id }
              (fleet.keep id task line)
          | (page, .suspended .call task) => roundTurns turns pauses page (fleet.keep id task line)

end Page

/-! ## Fleets -/

variable {fleet : Fleet} {flight : Flight} {bound : FlightId} {page : Page}
  {works : List (Assignment × FlightId)}

namespace Fleet

/-- What is known of the works of a fleet after some turns. The works are those that were ever sent out,
with their numbers. -/
structure Sailed (fleet : Fleet) (bound : FlightId) (works : List (Assignment × FlightId))
    (turns : List Turn) : Prop extends fleet.Numbered bound where
  distinct : (works.map Prod.snd).Nodup
  bounded : ∀ id ∈ works.map Prod.snd, id < bound
  played : ∀ turn ∈ turns, turn.id ∈ works.map Prod.snd
  flying : ∀ flight ∈ fleet.flights, ∃ assignment, (assignment, flight.id) ∈ works ∧
    Life (.assigned assignment) (turnsOf flight.id turns) (.left flight.state)
  landed : ∀ work ∈ works, work.2 ∉ fleet.flights.map Flight.id →
    ∃ result, Life (.assigned work.1) (turnsOf work.2 turns) (.done result)

theorem sailed_empty (bound : FlightId) : Sailed {} bound [] [] where
  toNumbered := numbered_empty bound
  distinct := List.nodup_nil
  bounded _ hid := absurd hid List.not_mem_nil
  played _ hturn := absurd hturn List.not_mem_nil
  flying _ hflight := absurd hflight List.not_mem_nil
  landed _ hwork := absurd hwork List.not_mem_nil

theorem Sailed.le {more : FlightId} (h : fleet.Sailed bound works turns) (hle : bound ≤ more) :
    fleet.Sailed more works turns where
  toNumbered := h.toNumbered.le hle
  distinct := h.distinct
  bounded id hid := Nat.lt_of_lt_of_le (h.bounded id hid) hle
  played := h.played
  flying := h.flying
  landed := h.landed

/-- Works that are over or under way: there are no others. -/
theorem Sailed.life (h : fleet.Sailed bound works turns) {work : Assignment × FlightId}
    (hwork : work ∈ works) :
    ∃ headway, Life (.assigned work.1) (turnsOf work.2 turns) headway := by
  by_cases hflying : work.2 ∈ fleet.flights.map Flight.id
  · obtain ⟨flight, hflight, hid⟩ := List.mem_map.mp hflying
    obtain ⟨assignment, hmem, hlife⟩ := h.flying flight hflight
    have hsame := List.inj_on_of_nodup_map h.distinct hmem hwork hid
    rw [← hsame]
    exact ⟨_, hlife⟩
  · obtain ⟨result, hlife⟩ := h.landed work hwork hflying
    exact ⟨_, hlife⟩

/-- A turn of one of the works. -/
theorem Sailed.advance (h : fleet.Sailed bound works turns)
    (hfind : fleet.flights.find? (·.id == id) = some flight) (page : Page) (line : List FlightId) :
    match (page.advance flight.state).2 with
    | .finished _ =>
      (fleet.remove id line).Sailed bound works (turns ++ [⟨id, flight.state, page⟩])
    | .suspended _ task =>
      (fleet.keep id task line).Sailed bound works (turns ++ [⟨id, flight.state, page⟩]) := by
  obtain ⟨-, hremoved, hkept⟩ := h.toNumbered.turn hfind line
  obtain ⟨hid, earlier, later, hflights, hothers⟩ := split_of_find? hfind h.nodup
  have hmem : flight ∈ fleet.flights :=
    hflights ▸ List.mem_append_right _ List.mem_cons_self
  obtain ⟨assignment, hwork, hlife⟩ := h.flying flight hmem
  rw [hid] at hwork hlife
  have hlonger : Life (.assigned assignment)
      (turnsOf id (turns ++ [⟨id, flight.state, page⟩]))
      (Turn.headway ⟨id, flight.state, page⟩) := by
    have hlast := @Life.turn _ _ ⟨id, flight.state, page⟩ hlife
    rwa [← turnsOf_concat_self turns ⟨id, flight.state, page⟩] at hlast
  have hplayed : ∀ turn ∈ turns ++ [⟨id, flight.state, page⟩], turn.id ∈ works.map Prod.snd := by
    intro turn hturn
    rcases List.mem_append.mp hturn with hold | hnew
    · exact h.played turn hold
    · rw [List.mem_singleton.mp hnew]
      exact List.mem_map_of_mem hwork
  have hstill : ∀ other ∈ earlier ++ later, ∃ assignment, (assignment, other.id) ∈ works ∧
      Life (.assigned assignment) (turnsOf other.id (turns ++ [⟨id, flight.state, page⟩]))
        (.left other.state) := by
    intro other hother
    have hin : other ∈ fleet.flights := by
      rw [hflights]
      exact ((List.sublist_cons_self flight later).append_left earlier).subset hother
    rw [turnsOf_concat_of_ne (Ne.symm (hothers other hother))]
    exact h.flying other hin
  have hover : ∀ work ∈ works, work.2 ≠ id → work.2 ∉ (earlier ++ later).map Flight.id →
      ∃ result, Life (.assigned work.1) (turnsOf work.2 (turns ++ [⟨id, flight.state, page⟩]))
        (.done result) := by
    intro work hin hne hgone
    rw [turnsOf_concat_of_ne (Ne.symm hne)]
    refine h.landed work hin fun hflying => hgone ?_
    rw [hflights, List.map_append, List.map_cons] at hflying
    rw [List.map_append]
    rcases List.mem_append.mp hflying with hearlier | hlater
    · exact List.mem_append_left _ hearlier
    · rcases List.mem_cons.mp hlater with hsame | hlater
      · exact absurd (hsame.trans hid) hne
      · exact List.mem_append_right _ hlater
  have hremains : (fleet.remove id line).flights = earlier ++ later := by
    rw [remove, hflights]
    exact filter_split hid hothers
  cases hprogress : (page.advance flight.state).2 with
  | finished result =>
      refine { toNumbered := hremoved, distinct := h.distinct, bounded := h.bounded,
               played := hplayed, flying := ?_, landed := ?_ }
      · rw [hremains]
        exact hstill
      · intro work hin hgone
        rw [hremains] at hgone
        by_cases hsame : work.2 = id
        · have hthis : work = (assignment, id) := List.inj_on_of_nodup_map h.distinct hin hwork hsame
          rw [hthis]
          rw [Turn.headway, hprogress] at hlonger
          exact ⟨result, hlonger⟩
        · exact hover work hin hsame hgone
  | suspended on task =>
      have hkeeps : (fleet.keep id task line).flights =
          earlier ++ ⟨id, .begun task⟩ :: later := by
        rw [keep, hflights]
        exact map_split hid hothers
      refine { toNumbered := (hkept task).2, distinct := h.distinct, bounded := h.bounded,
               played := hplayed, flying := ?_, landed := ?_ }
      · rw [hkeeps]
        intro other hother
        rcases List.mem_append.mp hother with hearlier | hlater
        · exact hstill other (List.mem_append_left _ hearlier)
        · rcases List.mem_cons.mp hlater with rfl | hlater
          · rw [Turn.headway, hprogress] at hlonger
            exact ⟨assignment, hwork, hlonger⟩
          · exact hstill other (List.mem_append_right _ hlater)
      · intro work hin hgone
        rw [hkeeps, List.map_append, List.map_cons] at hgone
        have hne : work.2 ≠ id := fun hsame =>
          hgone (List.mem_append_right _ (hsame ▸ List.mem_cons_self))
        refine hover work hin hne fun hflying => hgone ?_
        rw [List.map_append] at hflying
        rcases List.mem_append.mp hflying with hearlier | hlater
        · exact List.mem_append_left _ hearlier
        · exact List.mem_append_right _ (List.mem_cons_of_mem _ hlater)

/-- Works that are sent out have no turns yet. -/
theorem Sailed.launch (h : fleet.Sailed page.flights works turns) (assignments : List Assignment) :
    (page.launch fleet assignments).2.Sailed (page.launch fleet assignments).1.flights
      (works ++ assignments.zipIdx page.flights) turns := by
  obtain ⟨-, hnumbered⟩ := h.toNumbered.launch assignments
  have hnumber : ∀ work ∈ assignments.zipIdx page.flights,
      page.flights ≤ work.2 ∧ work.2 < page.flights + assignments.length := by
    intro work hwork
    exact ⟨List.le_snd_of_mem_zipIdx hwork, List.snd_lt_add_of_mem_zipIdx hwork⟩
  have hfresh : ∀ work ∈ assignments.zipIdx page.flights, turnsOf work.2 turns = [] := by
    intro work hwork
    refine List.filter_eq_nil_iff.mpr fun turn hturn hsame => ?_
    have hlt := h.bounded _ (h.played turn hturn)
    have hle := (hnumber work hwork).1
    rw [beq_iff_eq.mp hsame] at hlt
    exact Nat.not_lt_of_le hle hlt
  have hflights : (page.launch fleet assignments).2.flights = fleet.flights ++
      (assignments.zipIdx page.flights).map fun work => ⟨work.2, .assigned work.1⟩ := rfl
  constructor
  case toNumbered => exact hnumbered
  case distinct =>
    rw [List.map_append, List.zipIdx_map_snd]
    refine List.nodup_append.mpr ⟨h.distinct, List.nodup_range', fun id hid other hother => ?_⟩
    have hlt := h.bounded id hid
    have hle := (List.mem_range'_1.mp hother).1
    exact Nat.ne_of_lt (Nat.lt_of_lt_of_le hlt hle)
  case bounded =>
    intro id hid
    rw [List.map_append] at hid
    change id < page.flights + _
    rw [List.length_zipIdx]
    rcases List.mem_append.mp hid with hold | hnew
    · exact Nat.lt_of_lt_of_le (h.bounded id hold) (Nat.le_add_right _ _)
    · obtain ⟨work, hwork, rfl⟩ := List.mem_map.mp hnew
      exact (hnumber work hwork).2
  case played =>
    intro turn hturn
    rw [List.map_append]
    exact List.mem_append_left _ (h.played turn hturn)
  case flying =>
    intro flight hflight
    rw [hflights] at hflight
    rcases List.mem_append.mp hflight with hold | hnew
    · obtain ⟨assignment, hwork, hlife⟩ := h.flying flight hold
      exact ⟨assignment, List.mem_append_left _ hwork, hlife⟩
    · obtain ⟨work, hwork, rfl⟩ := List.mem_map.mp hnew
      refine ⟨work.1, List.mem_append_right _ hwork, ?_⟩
      rw [hfresh work hwork]
      exact .fresh
  case landed =>
    intro work hwork hgone
    rw [hflights, List.map_append] at hgone
    rcases List.mem_append.mp hwork with hold | hnew
    · exact h.landed work hold fun hflying => hgone (List.mem_append_left _ hflying)
    · refine absurd (List.mem_append_right _ ?_) hgone
      exact List.mem_map.mpr ⟨_, List.mem_map_of_mem hnew, rfl⟩

end Fleet

/-- The works that a round ended, and there is at most one. -/
def Round.ended : Round → List (FlightId × Except Error Unit)
  | .finished _ id result => [(id, result)]
  | .idle _ => []

/-- The turns of a round are all there is to it. -/
theorem Fleet.Sailed.playRound (rounds pauses : Nat) (h : fleet.Sailed bound works told) :
    (page.playRound rounds pauses fleet).2.fleet.Sailed bound works
        (told ++ page.roundTurns rounds pauses fleet) ∧
      ended (page.roundTurns rounds pauses fleet) =
        (page.playRound rounds pauses fleet).2.ended := by
  induction rounds generalizing pauses page fleet told with
  | zero =>
      rw [Page.roundTurns, List.append_nil]
      exact ⟨h, rfl⟩
  | succ rounds ih =>
      rw [Page.playRound, Page.roundTurns]
      cases hline : fleet.line with
      | nil =>
          dsimp only
          rw [List.append_nil]
          exact ⟨h, rfl⟩
      | cons id line =>
          dsimp only
          cases hfind : fleet.flights.find? (·.id == id) with
          | none =>
              exact @ih told { fleet with line } page pauses
                ⟨⟨h.nodup, h.known⟩, h.distinct, h.bounded, h.played, h.flying, h.landed⟩
          | some flight =>
              have hturn := fun line => h.advance hfind page line
              have hended := ended_cons ⟨id, flight.state, page⟩
              simp only [Turn.result?, Turn.headway] at hended
              dsimp only
              generalize hreached : page.advance flight.state = reached at hturn hended ⊢
              obtain ⟨after, progress⟩ := reached
              -- Every way but the end of the work goes on with the rest of the round.
              have hgoOn : ∀ {on task line rounds' pauses' page'},
                  progress = .suspended on task →
                  (∀ {told}, (fleet.keep id task line).Sailed bound works told →
                    (Page.playRound rounds' pauses' page' (fleet.keep id task line)).2.fleet.Sailed
                        bound works
                        (told ++ page'.roundTurns rounds' pauses' (fleet.keep id task line)) ∧
                      ended (page'.roundTurns rounds' pauses' (fleet.keep id task line)) =
                        (Page.playRound rounds' pauses' page' (fleet.keep id task line)).2.ended) →
                  (Page.playRound rounds' pauses' page' (fleet.keep id task line)).2.fleet.Sailed
                      bound works (told ++ ⟨id, flight.state, page⟩ ::
                        page'.roundTurns rounds' pauses' (fleet.keep id task line)) ∧
                    ended (⟨id, flight.state, page⟩ ::
                        page'.roundTurns rounds' pauses' (fleet.keep id task line)) =
                      (Page.playRound rounds' pauses' page' (fleet.keep id task line)).2.ended := by
                intro on task line rounds' pauses' page' hprogress hrest
                subst hprogress
                obtain ⟨hsailed, hlast⟩ := hrest (hturn line)
                rw [List.append_assoc] at hsailed
                refine ⟨hsailed, ?_⟩
                rw [hended, hlast]
                rfl
              cases progress with
              | finished result => exact ⟨hturn line, hended []⟩
              | suspended on task =>
                  cases on with
                  | turn =>
                      cases pauses with
                      | zero => exact ⟨hturn _, hended []⟩
                      | succ pauses => exact hgoOn rfl (ih pauses)
                  | gate gate => exact hgoOn rfl (ih pauses)
                  | call => exact hgoOn rfl (ih pauses)

end ReactiveMarkup
