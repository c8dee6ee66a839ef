import ReactiveMarkup.Proofs.Page.Turns

/-!
# The turns of a phase

A phase has all of its works under way at the same time and waits for the last of them. A few works have
a turn each whenever the phase goes on, those that are over apart; many works are a fleet. Either way each
work has a number of its own, and what is known of it is known from the turns with its number, so what a
phase ends with does not depend on how its works came to have their turns: `Phase.Tells` says of both kinds
what the turns told. When a phase is settled every work of it is over, and the first error of the phase is
that of the first work that has one.

The turns of a phase tell the whole story: each finds the page as the one before left it, but for what
belongs to taking turns. That is `Played`.
-/

namespace ReactiveMarkup

/-! ## Turns one after another -/

namespace Page

/-- Works took their places; nothing else has changed. -/
structure Between (before after : Page) : Prop where
  scopes : after.scopes = before.scopes
  components : after.components = before.components
  collections : after.collections = before.collections
  queue : after.queue = before.queue
  heldComponents : after.heldComponents = before.heldComponents
  flights : before.flights ≤ after.flights

variable {page before middle after : Page} {turns more : List Turn}

theorem Between.refl (page : Page) : Between page page := ⟨rfl, rfl, rfl, rfl, rfl, Nat.le_refl _⟩

theorem Between.trans (h : Between before middle) (h' : Between middle after) : Between before after :=
  ⟨h'.scopes.trans h.scopes, h'.components.trans h.components, h'.collections.trans h.collections,
    h'.queue.trans h.queue, h'.heldComponents.trans h.heldComponents, Nat.le_trans h.flights h'.flights⟩

theorem Between.aside (h : Between before after) : Aside before after :=
  ⟨h.scopes, h.components, h.collections, h.flights⟩

/-- Turns, each of which finds what the one before left. -/
inductive Played : Page → List Turn → Page → Prop
  | none {before after : Page} (between : Between before after) : Played before [] after
  | turn {before after : Page} {turn : Turn} {turns : List Turn} (between : Between before turn.page)
    (rest : Played turn.after turns after) : Played before (turn :: turns) after

theorem Played.refl (page : Page) : Played page [] page := .none (.refl page)

theorem Played.after_between (h : Between before middle) (h' : Played middle turns after) :
    Played before turns after := by
  cases h' with
  | none between => exact .none (h.trans between)
  | turn between rest => exact .turn (h.trans between) rest

theorem Played.append (h : Played before turns middle) (h' : Played middle more after) :
    Played before (turns ++ more) after := by
  induction h with
  | none between => exact h'.after_between between
  | turn between _ ih => exact .turn between (ih h')

/-- What turns keep, and taking turns keeps, lasts. -/
theorem Played.lasts (h : Played before turns after) : Lasts before after := by
  induction h with
  | none between => exact (tends_aside between.aside).lasts
  | @turn before after turn turns between _ ih =>
      exact ((tends_aside between.aside).lasts.trans (accounts_advance turn.page turn.state).lasts).trans ih

/-- A turn finds what lasted from the beginning. -/
theorem Played.lasts_of_mem (h : Played before turns after) {turn : Turn} (hturn : turn ∈ turns) :
    Lasts before turn.page := by
  induction h with
  | none between => cases hturn
  | @turn before after first turns between rest ih =>
      have hfound := (tends_aside between.aside).lasts
      rcases List.mem_cons.mp hturn with rfl | hlater
      · exact hfound
      · exact (hfound.trans (accounts_advance first.page first.state).lasts).trans (ih hlater)

/-! ## A turn each -/

/-- Gives each work that is not over a turn. -/
def playEach : Page → List Headway → Page × List Headway
  | page, [] => (page, [])
  | page, .done result :: rest =>
    let (page, others) := playEach page rest
    (page, .done result :: others)
  | page, .left state :: rest =>
    let (page, progress) := page.advance state
    let (page, others) := playEach page rest
    (page, .ofProgress progress :: others)

/-- The turns of works that are numbered one after another. -/
def eachTurns : FlightId → Page → List Headway → List Turn
  | _, _, [] => []
  | n, page, .done _ :: rest => eachTurns (n + 1) page rest
  | n, page, .left state :: rest =>
    ⟨n, state, page⟩ :: eachTurns (n + 1) (page.advance state).1 rest

theorem played_playEach (n : FlightId) (page : Page) (works : List Headway) :
    Played page (page.eachTurns n works) (page.playEach works).1 := by
  induction works generalizing n page with
  | nil => exact .refl page
  | cons first rest ih =>
      cases first with
      | done result => exact ih (n + 1) page
      | left state => exact .turn (.refl page) (ih (n + 1) _)

theorem le_of_mem_eachTurns {n : FlightId} {works : List Headway} {turn : Turn}
    (hturn : turn ∈ page.eachTurns n works) : n ≤ turn.id ∧ turn.id < n + works.length := by
  induction works generalizing n page with
  | nil => cases hturn
  | cons first rest ih =>
      have hlater : ∀ {page}, turn ∈ eachTurns (n + 1) page rest →
          n ≤ turn.id ∧ turn.id < n + (first :: rest).length := by
        intro page hrest
        obtain ⟨hle, hlt⟩ := ih hrest
        rw [Nat.add_right_comm] at hlt
        exact ⟨Nat.le_of_succ_le hle, hlt⟩
      cases first with
      | done result => exact hlater hturn
      | left state =>
          rcases List.mem_cons.mp hturn with rfl | hrest
          · exact ⟨Nat.le_refl n, Nat.lt_add_of_pos_right (Nat.succ_pos _)⟩
          · exact hlater hrest

end Page

/-- What a work ended with. -/
def outcome? (turns : List Turn) (id : FlightId) : Option (Except Error Unit) :=
  (turnsOf id turns).findSome? Turn.result?

def Slot.headway : Slot → Headway
  | .finished result => .done result
  | .waiting task => .left (.begun task)

variable {page : Page} {turns told : List Turn} {bound : FlightId}
  {works : List (Assignment × FlightId)}

/-- Works that are numbered one after another, with how far they have come by their turns. -/
inductive Ranked (turns : List Turn) : FlightId → List (Assignment × FlightId) → List Headway → Prop
  | nil {n : FlightId} : Ranked turns n [] []
  | cons {n : FlightId} {assignment : Assignment} {headway : Headway}
    {works : List (Assignment × FlightId)} {headways : List Headway}
    (life : Life (.assigned assignment) (turnsOf n turns) headway)
    (rest : Ranked turns (n + 1) works headways) :
    Ranked turns n ((assignment, n) :: works) (headway :: headways)

theorem Ranked.congr {more : List Turn} {n : FlightId} {headways : List Headway}
    (h : Ranked turns n works headways) (hsame : ∀ id ≥ n, turnsOf id more = turnsOf id turns) :
    Ranked more n works headways := by
  induction h with
  | nil => exact .nil
  | @cons n assignment headway works headways life _ ih =>
      refine .cons ?_ (ih fun id hid => hsame id (Nat.le_of_succ_le hid))
      rw [hsame n (Nat.le_refl n)]
      exact life

theorem Ranked.fresh (n : FlightId) (assignments : List Assignment) :
    Ranked [] n (assignments.zipIdx n) (assignments.map fun assignment => .left (.assigned assignment)) := by
  induction assignments generalizing n with
  | nil => exact .nil
  | cons assignment rest ih => exact .cons .fresh (ih (n + 1))

theorem turnsOf_eq_nil_of_lt {n id : FlightId} {headways : List Headway} (hid : id < n) :
    turnsOf id (page.eachTurns n headways) = [] := by
  refine List.filter_eq_nil_iff.mpr fun turn hturn hsame => ?_
  rw [← beq_iff_eq.mp hsame] at hid
  exact Nat.not_le_of_lt hid (Page.le_of_mem_eachTurns hturn).1

/-- A turn each tells how far each has come then. -/
theorem Ranked.playEach {n : FlightId} {headways : List Headway}
    (h : Ranked told n works headways) (page : Page) :
    Ranked (told ++ page.eachTurns n headways) n works (page.playEach headways).2 := by
  induction headways generalizing told n works page with
  | nil =>
      cases h
      exact .nil
  | cons headway headways ih =>
      cases h with
      | cons life rest =>
          cases headway with
          | done result =>
              refine .cons ?_ (ih rest page)
              rw [turnsOf_append, Page.eachTurns, turnsOf_eq_nil_of_lt (Nat.lt_succ_self n),
                List.append_nil]
              exact life
          | left state =>
              have hothers : ∀ id ≥ n + 1,
                  turnsOf id (told ++ [⟨n, state, page⟩]) = turnsOf id told := fun id hid =>
                turnsOf_concat_of_ne (Nat.ne_of_lt hid)
              have hlater := ih (rest.congr hothers) (page.advance state).1
              rw [List.append_assoc] at hlater
              refine .cons ?_ hlater
              change Life _ (turnsOf n (told ++ ([⟨n, state, page⟩] ++ _))) _
              rw [← List.append_assoc, turnsOf_append, turnsOf_eq_nil_of_lt (Nat.lt_succ_self n),
                List.append_nil]
              have hlast := @Life.turn _ _ ⟨n, state, page⟩ life
              rwa [← turnsOf_concat_self told ⟨n, state, page⟩] at hlast

theorem Ranked.map_snd {n : FlightId} {headways : List Headway}
    (h : Ranked told n works headways) : works.map Prod.snd = List.range' n headways.length := by
  induction h with
  | nil => rfl
  | cons _ _ ih => rw [List.map_cons, ih, List.length_cons, List.range'_succ]

theorem Ranked.life {n : FlightId} {headways : List Headway} (h : Ranked turns n works headways) :
    ∀ work ∈ works, ∃ headway ∈ headways,
      Life (.assigned work.1) (turnsOf work.2 turns) headway := by
  induction h with
  | nil => exact fun _ hwork => absurd hwork List.not_mem_nil
  | @cons n assignment headway works headways life _ ih =>
      intro work hwork
      rcases List.mem_cons.mp hwork with rfl | hlater
      · exact ⟨headway, List.mem_cons_self, life⟩
      · obtain ⟨other, hother, hlife⟩ := ih work hlater
        exact ⟨other, List.mem_cons_of_mem _ hother, hlife⟩

theorem Ranked.results {n : FlightId} {headways : List Headway} (h : Ranked turns n works headways) :
    headways.filterMap Headway.result? = works.filterMap fun work => outcome? turns work.2 := by
  induction h with
  | nil => rfl
  | cons life _ ih => rw [List.filterMap_cons, List.filterMap_cons, ih, outcome?, life.result?]

namespace Page

theorem headway_slotOf (progress : Progress Task) :
    (slotOf progress).1.headway = .ofProgress progress := by cases progress <;> rfl

theorem playEach_beginSlots (page : Page) (assignments : List Assignment) :
    page.playEach (assignments.map fun assignment => .left (.assigned assignment)) =
      ((page.beginSlots assignments).1, (page.beginSlots assignments).2.1.map Slot.headway) := by
  induction assignments generalizing page with
  | nil => rfl
  | cons assignment rest ih =>
      rw [List.map_cons, playEach, beginSlots, advance]
      generalize page.beginAssignment assignment = reached
      dsimp only
      rw [ih, List.map_cons, headway_slotOf]

theorem playEach_resumeSlots (page : Page) (slots : List Slot) :
    page.playEach (slots.map Slot.headway) =
      ((page.resumeSlots slots).1, (page.resumeSlots slots).2.1.map Slot.headway) := by
  induction slots generalizing page with
  | nil => rfl
  | cons slot rest ih =>
      cases slot with
      | finished result =>
          rw [List.map_cons, Slot.headway, playEach, resumeSlots, ih]
          rfl
      | waiting task =>
          rw [List.map_cons, Slot.headway, playEach, resumeSlots, advance]
          generalize page.resume task = reached
          dsimp only
          rw [ih, List.map_cons, headway_slotOf]

/-! ## Fleets of a phase -/

theorem played_playRound (rounds pauses : Nat) (page : Page) (fleet : Fleet) :
    Played page (page.roundTurns rounds pauses fleet) (page.playRound rounds pauses fleet).1 := by
  induction rounds generalizing pauses page fleet with
  | zero => exact .refl page
  | succ rounds ih =>
      rw [playRound, roundTurns]
      cases fleet.line with
      | nil => exact .refl page
      | cons id line =>
          dsimp only
          cases fleet.flights.find? (·.id == id) with
          | none => exact ih pauses page { fleet with line }
          | some flight =>
              have hturn : ∀ {reached rest after}, page.advance flight.state = reached →
                  Played reached.1 rest after →
                  Played page (⟨id, flight.state, page⟩ :: rest) after := by
                rintro reached rest after rfl hrest
                exact .turn (.refl page) hrest
              dsimp only
              generalize hreached : page.advance flight.state = reached at hturn ⊢
              obtain ⟨after, progress⟩ := reached
              cases progress with
              | finished result => exact hturn rfl (.refl after)
              | suspended on task =>
                  cases on with
                  | turn =>
                      cases pauses with
                      | zero => exact hturn rfl (.refl after)
                      | succ pauses => exact hturn rfl (ih pauses after _)
                  | gate gate =>
                      have hparked : Between after { after with gates := after.gates.park gate id } :=
                        ⟨rfl, rfl, rfl, rfl, rfl, Nat.le_refl _⟩
                      exact hturn rfl ((ih pauses _ _).after_between hparked)
                  | call => exact hturn rfl (ih pauses after _)

/-- The turns of rounds with many works. -/
def fleetTurns : Nat → Page → Fleet → List Turn
  | 0, _, _ => []
  | fuel + 1, page, fleet =>
    page.roundTurns fleet.flights.length 1 fleet ++
      match page.round fleet with
      | (page, .finished fleet _ _) => fleetTurns fuel page fleet
      | (_, .idle _) => []

theorem played_playFleet (fuel : Nat) (page : Page) (fleet : Fleet)
    (results : List (FlightId × Except Error Unit)) :
    Played page (page.fleetTurns fuel fleet) (page.playFleet fuel fleet results).1 := by
  induction fuel generalizing page fleet results with
  | zero => exact .refl page
  | succ fuel ih =>
      have hround := played_playRound fleet.flights.length 1 page fleet
      rw [playFleet, fleetTurns, round]
      generalize page.playRound fleet.flights.length 1 fleet = reached at hround ⊢
      obtain ⟨after, rest⟩ := reached
      cases rest with
      | finished fleet id result => exact hround.append (ih after fleet _)
      | idle fleet => exact hround.append (.refl after)

end Page

theorem Fleet.Sailed.playFleet (fuel : Nat) {fleet : Fleet} (h : fleet.Sailed bound works told)
    (page : Page) :
    (page.playFleet fuel fleet (ended told)).2.1.Sailed bound works
        (told ++ page.fleetTurns fuel fleet) ∧
      (page.playFleet fuel fleet (ended told)).2.2 = ended (told ++ page.fleetTurns fuel fleet) := by
  induction fuel generalizing page fleet told with
  | zero =>
      rw [Page.playFleet, Page.fleetTurns, List.append_nil]
      exact ⟨h, rfl⟩
  | succ fuel ih =>
      obtain ⟨hsailed, hended⟩ := @Fleet.Sailed.playRound _ _ _ page _ fleet.flights.length 1 h
      rw [Page.playFleet, Page.fleetTurns, Page.round]
      generalize page.roundTurns fleet.flights.length 1 fleet = played at hsailed hended ⊢
      generalize page.playRound fleet.flights.length 1 fleet = reached at hsailed hended ⊢
      obtain ⟨after, rest⟩ := reached
      cases rest with
      | finished fleet id result =>
          have hresults : ended told ++ [(id, result)] = ended (told ++ played) := by
            rw [ended_append, hended]
            rfl
          dsimp only
          rw [hresults, ← List.append_assoc]
          exact ih hsailed after
      | idle fleet =>
          dsimp only
          rw [List.append_nil, ended_append, hended]
          exact ⟨hsailed, (List.append_nil _).symm⟩

/-! ## Phases -/

/-- What is known of the works of a phase after some turns. -/
def Phase.Tells (phase : Phase) (bound : FlightId) (works : List (Assignment × FlightId))
    (turns : List Turn) : Prop :=
  match phase with
  | .few slots => Ranked turns 0 works (slots.map Slot.headway) ∧
      ∀ turn ∈ turns, turn.id ∈ works.map Prod.snd
  | .many ids fleet results =>
      ids = works.map Prod.snd ∧ fleet.Sailed bound works turns ∧ results = ended turns

namespace Page

/-- The works of a phase, with their numbers. -/
def phaseWorks (page : Page) (assignments : List Assignment) : List (Assignment × FlightId) :=
  assignments.zipIdx (if assignments.length ≤ Phase.fewLimit then 0 else page.flights)

/-- The turns in which a phase begins. -/
def beginPhaseTurns (page : Page) (assignments : List Assignment) : List Turn :=
  if assignments.length ≤ Phase.fewLimit then
    page.eachTurns 0 (assignments.map fun assignment => .left (.assigned assignment))
  else
    let (page, fleet) := page.launch {} assignments
    page.fleetTurns (fleet.flights.length + 1) fleet

/-- The turns in which a phase goes on. -/
def resumePhaseTurns (page : Page) : Phase → List Turn
  | .few slots => page.eachTurns 0 (slots.map Slot.headway)
  | .many _ fleet _ =>
    let (page, fleet) := page.wake fleet
    page.fleetTurns (fleet.flights.length + 1) fleet

theorem flights_launch (page : Page) (fleet : Fleet) (assignments : List Assignment) :
    Between page (page.launch fleet assignments).1 :=
  ⟨rfl, rfl, rfl, rfl, rfl, Nat.le_add_right _ _⟩

theorem played_beginPhase (page : Page) (assignments : List Assignment) :
    Played page (page.beginPhaseTurns assignments) (page.beginPhase assignments).1 := by
  rw [beginPhase, beginPhaseTurns]
  split
  · have hplayed := played_playEach 0 page
      (assignments.map fun assignment => .left (.assigned assignment))
    rw [playEach_beginSlots] at hplayed
    exact hplayed
  · exact (played_playFleet _ _ _ []).after_between (flights_launch page {} assignments)

theorem played_resumePhase (page : Page) (phase : Phase) :
    Played page (page.resumePhaseTurns phase) (page.resumePhase phase).1 := by
  cases phase with
  | few slots =>
      have hplayed := played_playEach 0 page (slots.map Slot.headway)
      rw [playEach_resumeSlots] at hplayed
      exact hplayed
  | many ids fleet results =>
      have hwoken : Between page (page.wake fleet).1 := ⟨rfl, rfl, rfl, rfl, rfl, Nat.le_refl _⟩
      exact (played_playFleet _ _ _ results).after_between hwoken

end Page

namespace Phase

variable {phase : Phase}

/-- The works of a phase that begins tell where they are. -/
theorem tells_beginPhase (page : Page) (assignments : List Assignment) :
    (page.beginPhase assignments).2.1.Tells (page.beginPhase assignments).1.flights
      (page.phaseWorks assignments) (page.beginPhaseTurns assignments) := by
  rw [Page.beginPhase, Page.phaseWorks, Page.beginPhaseTurns]
  split
  · next hfew =>
      have hranked := (Ranked.fresh 0 assignments).playEach page
      rw [Page.playEach_beginSlots, List.nil_append] at hranked
      refine ⟨hranked, fun turn hturn => ?_⟩
      obtain ⟨-, hlt⟩ := Page.le_of_mem_eachTurns hturn
      rw [List.zipIdx_map_snd, List.mem_range'_1]
      rw [List.length_map] at hlt
      exact ⟨Nat.zero_le _, hlt⟩
  · have hlaunched := (Fleet.sailed_empty page.flights).launch assignments
    rw [List.nil_append] at hlaunched
    have hnumbers : (page.launch {} assignments).2.flights.map Flight.id =
        (assignments.zipIdx page.flights).map Prod.snd := by
      change List.map Flight.id ([] ++ List.map _ _) = _
      rw [List.nil_append, List.map_map]
      rfl
    have hflights := (Page.played_playFleet
      ((page.launch {} assignments).2.flights.length + 1) (page.launch {} assignments).1
      (page.launch {} assignments).2 []).lasts.flights
    obtain ⟨hsailed, hresults⟩ := hlaunched.playFleet
      ((page.launch {} assignments).2.flights.length + 1) (page.launch {} assignments).1
    exact ⟨hnumbers, hsailed.le hflights, hresults⟩

/-- And so they do after every further turn. -/
theorem Tells.resumePhase (h : phase.Tells page.flights works told) :
    (page.resumePhase phase).2.1.Tells (page.resumePhase phase).1.flights works
      (told ++ page.resumePhaseTurns phase) := by
  cases phase with
  | few slots =>
      obtain ⟨hranked, hplayed⟩ := h
      have hlast := hranked.playEach page
      rw [Page.playEach_resumeSlots] at hlast
      refine ⟨hlast, fun turn hturn => ?_⟩
      rcases List.mem_append.mp hturn with hold | hnew
      · exact hplayed turn hold
      · obtain ⟨-, hlt⟩ := Page.le_of_mem_eachTurns hnew
        rw [hranked.map_snd, List.mem_range'_1]
        exact ⟨Nat.zero_le _, hlt⟩
  | many ids fleet results =>
      obtain ⟨hids, ⟨⟨hnodup, hknown⟩, hdistinct, hbounded, hplayed, hflying, hlanded⟩, hresults⟩ := h
      have hwoken : (page.wake fleet).2.Sailed page.flights works told :=
        ⟨⟨hnodup, hknown⟩, hdistinct, hbounded, hplayed, hflying, hlanded⟩
      have hflights := (Page.played_playFleet ((page.wake fleet).2.flights.length + 1)
        (page.wake fleet).1 (page.wake fleet).2 (ended told)).lasts.flights
      obtain ⟨hsailed, hlast⟩ := hwoken.playFleet ((page.wake fleet).2.flights.length + 1)
        (page.wake fleet).1
      rw [hresults]
      exact ⟨hids, hsailed.le hflights, hlast⟩

theorem Tells.le {more : FlightId} (h : phase.Tells bound works turns) (hle : bound ≤ more) :
    phase.Tells more works turns := by
  cases phase with
  | few slots => exact h
  | many ids fleet results => exact ⟨h.1, h.2.1.le hle, h.2.2⟩

theorem Tells.distinct (h : phase.Tells bound works turns) : (works.map Prod.snd).Nodup := by
  cases phase with
  | few slots =>
      rw [h.1.map_snd]
      exact List.nodup_range'
  | many ids fleet results => exact h.2.1.distinct

theorem Tells.played (h : phase.Tells bound works turns) :
    ∀ turn ∈ turns, turn.id ∈ works.map Prod.snd := by
  cases phase with
  | few slots => exact h.2
  | many ids fleet results => exact h.2.1.played

/-- The results of a phase are those of its works, in their order. -/
theorem Tells.results (h : phase.Tells bound works turns) :
    phase.results = works.filterMap fun work => outcome? turns work.2 := by
  cases phase with
  | few slots =>
      rw [← h.1.results, List.filterMap_map, Phase.results]
      refine List.filterMap_congr fun slot _ => ?_
      cases slot <;> rfl
  | many ids fleet results =>
      obtain ⟨rfl, -, rfl⟩ := h
      rw [Phase.results, List.filterMap_map]
      exact List.filterMap_congr fun work _ => lookup_ended work.2 turns

theorem failure?_eq (phase : Phase) : phase.failure? = phase.results.findSome? errorOf? := by
  rw [failure?]
  congr 1
  funext result
  cases result <;> rfl

/-- Settled or not, each work has a life of its own. -/
theorem Tells.life (h : phase.Tells bound works turns) :
    ∀ work ∈ works, ∃ headway, Life (.assigned work.1) (turnsOf work.2 turns) headway := by
  cases phase with
  | few slots =>
      intro work hwork
      obtain ⟨headway, -, hlife⟩ := h.1.life work hwork
      exact ⟨headway, hlife⟩
  | many ids fleet results => exact fun work hwork => h.2.1.life hwork

/-- When a phase is settled every work of it is over. -/
theorem Tells.settled (h : phase.Tells bound works turns) (hsettled : phase.isSettled = true) :
    ∀ work ∈ works, ∃ result, Life (.assigned work.1) (turnsOf work.2 turns) (.done result) := by
  intro work hwork
  cases phase with
  | few slots =>
      obtain ⟨headway, hin, hlife⟩ := h.1.life work hwork
      obtain ⟨slot, hslot, rfl⟩ := List.mem_map.mp hin
      have hover := List.all_eq_true.mp hsettled slot hslot
      cases slot with
      | finished result => exact ⟨result, hlife⟩
      | waiting task => cases hover
  | many ids fleet results =>
      have hnone : fleet.flights = [] := List.isEmpty_iff.mp hsettled
      refine h.2.1.landed work hwork ?_
      rw [hnone]
      exact List.not_mem_nil

end Phase

end ReactiveMarkup
