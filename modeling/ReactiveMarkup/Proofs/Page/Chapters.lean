import ReactiveMarkup.Proofs.Page.Phases

/-!
# The chapters of a run

A collection runs once, in chapters: it prepares all of its components, then it renders the high ones, the
normal ones and the low ones. A run does not leave a phase before it is settled, so only the last chapter
may have works that are not over. What a run has in hand, the phase it is in and the first error there was,
is what its chapters tell: `Tells` is the invariant, and it is kept by everything that opens a chapter or
goes on with one.

Three things last whatever the works do in their turns: a component keeps its priority, a collection that
was disposed stays so, and one that has begun to run is not ready again.
-/

namespace ReactiveMarkup

/-- A phase of a run. -/
structure Chapter where
  /-- The class it renders; without one it prepares all components. -/
  priority? : Option Priority
  /-- The page on which it was opened. -/
  opened : Page
  works : List (Assignment × FlightId)
  turns : List Turn

namespace Chapter

/-- A chapter with the turns in which it begins. -/
def opening (page : Page) (priority? : Option Priority) (assignments : List Assignment) : Chapter where
  priority?
  opened := page
  works := page.phaseWorks assignments
  turns := page.beginPhaseTurns assignments

/-- A chapter with the turns in which its phase goes on. -/
def goOn (chapter : Chapter) (page : Page) (phase : Phase) : Chapter :=
  { chapter with turns := chapter.turns ++ page.resumePhaseTurns phase }

/-- What the works ended with that are over, in the order of the works. -/
def outcomes (chapter : Chapter) : List (Except Error Unit) :=
  chapter.works.filterMap fun work => outcome? chapter.turns work.2

/-- Every work is over. -/
def Settled (chapter : Chapter) : Prop :=
  ∀ work ∈ chapter.works, ∃ result,
    Life (.assigned work.1) (turnsOf work.2 chapter.turns) (.done result)

/-- Each work has a number and turns of its own, and there are no other turns. -/
structure Orderly (chapter : Chapter) : Prop where
  distinct : (chapter.works.map Prod.snd).Nodup
  played : ∀ turn ∈ chapter.turns, turn.id ∈ chapter.works.map Prod.snd
  life : ∀ work ∈ chapter.works, ∃ headway,
    Life (.assigned work.1) (turnsOf work.2 chapter.turns) headway

end Chapter

namespace Page

/-- The chapters of the classes that are rendered before a run has to wait again. -/
def classChapters (id : CollectionId) (components : List ComponentId) :
    List Priority → Page → List Chapter
  | [], _ => []
  | priority :: later, page =>
    if page.isCollectionDisposed id then []
    else
      let assignments := (page.ofPriority priority components).map .render
      let (after, phase, _) := page.beginPhase assignments
      .opening page (some priority) assignments ::
        if phase.isSettled then classChapters id components later after else []

/-- The chapters that are opened after a phase, if it is over. -/
def continueChapters (page : Page) (run : Run) : List Chapter :=
  if run.phase.isSettled then classChapters run.collection run.components run.later page else []

/-- The chapters that are opened when a collection begins to run. -/
def beginChapters (page : Page) (id : CollectionId) (components : List ComponentId) : List Chapter :=
  let (after, phase, _) := (page.running id components).beginPhase (components.map .prepare)
  .opening (page.running id components) none (components.map .prepare) ::
    after.continueChapters { collection := id, components, phase, later := Priority.runOrder }

/-- The chapters from the last one on when a run is driven on. -/
def resumeChapters (page : Page) (run : Run) (last : Chapter) : List Chapter :=
  let (after, phase, _) := page.resumePhase run.phase
  last.goOn page run.phase :: after.continueChapters { run with phase }

end Page

/-- The component whose render starts with a turn, if it is let in. -/
def Turn.rendered? (turn : Turn) : Option ComponentId :=
  match turn.state with
  | .assigned (.render id) => some id
  | _ => none

theorem Turn.state_of_rendered {turn : Turn} {id : ComponentId} (h : turn.rendered? = some id) :
    turn.state = .assigned (.render id) := by
  rw [rendered?] at h
  split at h
  · next hstate => rw [hstate, Option.some.inj h]
  · cases h

/-- A turn in which a component begins to render: it is asked to, and it is let in. -/
def Turn.Enters (turn : Turn) (id : ComponentId) : Prop :=
  turn.state = .assigned (.render id) ∧
    ∃ cell, turn.page.components.get? id = some cell ∧ cell.admits = true

/-! ## Lives -/

variable {turns : List Turn} {turn : Turn} {assignment : Assignment} {headway : Headway}

/-- A work begins with its first turn, and with no other. -/
theorem Life.begins (h : Life (.assigned assignment) turns headway) :
    turns = [] ∧ headway = .left (.assigned assignment) ∨
      ∃ first rest, turns = first :: rest ∧ first.state = .assigned assignment ∧
        (∀ turn ∈ rest, ∃ task, turn.state = .begun task) ∧
          ∀ state, headway = .left state → ∃ task, state = .begun task := by
  have hlast : ∀ (turn : Turn) state, turn.headway = .left state → ∃ task, state = .begun task := by
    intro turn state hstate
    rw [Turn.headway] at hstate
    cases hprogress : (turn.page.advance turn.state).2 with
    | finished result =>
        rw [hprogress] at hstate
        cases hstate
    | suspended on task =>
        rw [hprogress] at hstate
        exact ⟨task, (Headway.left.inj hstate).symm⟩
  induction h with
  | fresh => exact .inl ⟨rfl, rfl⟩
  | @turn turns turn before ih =>
      refine .inr ?_
      rcases ih with ⟨rfl, hstate⟩ | ⟨first, rest, rfl, hfirst, hrest, hleft⟩
      · exact ⟨turn, [], rfl, Headway.left.inj hstate, fun _ hin => absurd hin List.not_mem_nil,
          hlast turn⟩
      · refine ⟨first, rest ++ [turn], rfl, hfirst, fun other hother => ?_, hlast turn⟩
        rcases List.mem_append.mp hother with hold | hnew
        · exact hrest other hold
        · rw [List.mem_singleton.mp hnew]
          exact hleft turn.state rfl

/-- Turns that are apart within every work, and apart when their works differ. -/
theorem pairwise_of_turnsOf {R : Turn → Turn → Prop} {turns : List Turn}
    (hsame : ∀ id, (turnsOf id turns).Pairwise R)
    (hother : ∀ first ∈ turns, ∀ last ∈ turns, first.id ≠ last.id → R first last) :
    turns.Pairwise R := by
  induction turns with
  | nil => exact .nil
  | cons first rest ih =>
      refine List.pairwise_cons.mpr ⟨fun last hlast => ?_, ih (fun id => ?_) fun a ha b hb =>
        hother a (List.mem_cons_of_mem _ ha) b (List.mem_cons_of_mem _ hb)⟩
      · by_cases hid : first.id = last.id
        · have hthis := hsame first.id
          rw [turnsOf, List.filter_cons_of_pos (by simp)] at hthis
          exact (List.pairwise_cons.mp hthis).1 last
            (List.mem_filter.mpr ⟨hlast, beq_iff_eq.mpr hid.symm⟩)
        · exact hother first List.mem_cons_self last (List.mem_cons_of_mem _ hlast) hid
      · exact (hsame id).sublist ((List.sublist_cons_self first rest).filter _)

namespace Chapter

variable {chapter : Chapter}

theorem mem_turnsOf {turns : List Turn} (hturn : turn ∈ turns) : turn ∈ turnsOf turn.id turns :=
  List.mem_filter.mpr ⟨hturn, beq_self_eq_true _⟩

/-- Whatever begins in a chapter is a work of it. -/
theorem Orderly.mem_of_assigned (h : chapter.Orderly) (hturn : turn ∈ chapter.turns)
    (hstate : turn.state = .assigned assignment) : (assignment, turn.id) ∈ chapter.works := by
  obtain ⟨work, hwork, hid⟩ := List.mem_map.mp (h.played turn hturn)
  obtain ⟨headway, hlife⟩ := h.life work hwork
  have hmem := mem_turnsOf hturn
  rw [← hid] at hmem
  rcases hlife.begins with ⟨hnone, -⟩ | ⟨first, rest, hturns, hfirst, hrest, -⟩
  · rw [hnone] at hmem
    cases hmem
  · rw [hturns] at hmem
    rcases List.mem_cons.mp hmem with rfl | hlater
    · rw [← hid, ← FlightState.assigned.inj (hfirst.symm.trans hstate)]
      exact hwork
    · obtain ⟨task, hbegun⟩ := hrest turn hlater
      cases hbegun.symm.trans hstate

/-- If all works are different, no two turns begin the same. -/
theorem Orderly.nodup_rendered (h : chapter.Orderly) (hnodup : (chapter.works.map Prod.fst).Nodup) :
    (chapter.turns.filterMap Turn.rendered?).Nodup := by
  refine List.pairwise_filterMap.mpr (pairwise_of_turnsOf (fun id => ?_) ?_)
  · by_cases hid : id ∈ chapter.works.map Prod.snd
    · obtain ⟨work, hwork, rfl⟩ := List.mem_map.mp hid
      obtain ⟨headway, hlife⟩ := h.life work hwork
      rcases hlife.begins with ⟨hnone, -⟩ | ⟨first, rest, hturns, -, hrest, -⟩
      · rw [hnone]
        exact .nil
      · rw [hturns]
        have hbegun : ∀ turn ∈ rest, ∀ id, turn.rendered? ≠ some id := by
          intro turn hturn id
          obtain ⟨task, hstate⟩ := hrest turn hturn
          simp [Turn.rendered?, hstate]
        exact List.pairwise_cons.mpr
          ⟨fun turn hturn _ _ other hother => absurd hother (hbegun turn hturn other),
            List.pairwise_of_forall_mem_list fun _ _ turn hturn _ _ other hother =>
              absurd hother (hbegun turn hturn other)⟩
    · have hnone : turnsOf id chapter.turns = [] := by
        refine List.filter_eq_nil_iff.mpr fun turn hturn hsame => hid ?_
        rw [← beq_iff_eq.mp hsame]
        exact h.played turn hturn
      rw [hnone]
      exact .nil
  · intro first hfirst last hlast hne id hid other hother hsame
    obtain rfl := hsame
    have hone := h.mem_of_assigned hfirst (Turn.state_of_rendered hid)
    have htwo := h.mem_of_assigned hlast (Turn.state_of_rendered hother)
    exact hne (Prod.mk.inj (List.inj_on_of_nodup_map hnodup hone htwo rfl)).2

end Chapter

/-! ## What lasts -/

namespace Page

variable {start page after : Page} {id : CollectionId} {components : List ComponentId}

/-- Components keep their priorities. -/
theorem Lasts.ofPriority (h : Lasts start page) (hknown : ∀ id ∈ components, id < start.components.size)
    (priority : Priority) : page.ofPriority priority components = start.ofPriority priority components := by
  refine List.filter_congr fun id hid => ?_
  have hcell : start.components.get? id = some _ := Array.getElem?_eq_getElem (hknown id hid)
  obtain ⟨later, hlater, hbecomes⟩ := h.cells id _ hcell
  rw [hcell, hlater, Option.any_some, Option.any_some, hbecomes.priority]

/-- A disposed collection stays disposed. -/
theorem Lasts.isCollectionDisposed (h : Lasts page after) (hdisposed : page.isCollectionDisposed id = true) :
    after.isCollectionDisposed id = true := by
  obtain ⟨cell, hcell, hstate⟩ := (Option.any_eq_true _ _).mp hdisposed
  obtain ⟨later, hlater, hbecomes⟩ := h.collections id cell hcell
  exact (Option.any_eq_true _ _).mpr
    ⟨later, hlater, beq_iff_eq.mpr (hbecomes.disposed (beq_iff_eq.mp hstate))⟩

/-- What the works of a chapter are, for all components of a collection or for a class of them. -/
def duties (page : Page) (components : List ComponentId) : Option Priority → List Assignment
  | none => components.map .prepare
  | some priority => (page.ofPriority priority components).map .render

end Page

theorem Phase.Tells.orderly {phase : Phase} {bound : FlightId} {chapter : Chapter}
    (h : phase.Tells bound chapter.works chapter.turns) : chapter.Orderly :=
  ⟨h.distinct, h.played, h.life⟩

/-! ## The course of a run -/

/-- What is known of the chapters of a run, which began on a page `start` with some components. -/
structure Tale (start : Page) (id : CollectionId) (components : List ComponentId) (page : Page)
    (chapters : List Chapter) (passed : List Priority) : Prop where
  lasts : Page.Lasts start page
  plan : chapters.map Chapter.priority? = none :: passed.map some
  duties : ∀ chapter ∈ chapters,
    chapter.works.map Prod.fst = start.duties components chapter.priority?
  orderly : ∀ chapter ∈ chapters, chapter.Orderly
  found : ∀ chapter ∈ chapters, ∀ turn ∈ chapter.turns, Page.Lasts start turn.page
  opened : ∀ chapter ∈ chapters, chapter.priority?.isSome = true →
    chapter.opened.isCollectionDisposed id = false

/-- How far a run has come, by its chapters. -/
def Tells (start : Page) (id : CollectionId) (components : List ComponentId) (chapters : List Chapter) :
    Page × Progress Run → Prop
  | (page, .suspended _ run) => ∃ past last passed, chapters = past ++ [last] ∧
      Tale start id components page chapters passed ∧ passed ++ run.later = Priority.runOrder ∧
      run.collection = id ∧ run.components = components ∧ (∀ chapter ∈ past, chapter.Settled) ∧
      run.failure = (past.flatMap Chapter.outcomes).findSome? errorOf? ∧
      run.phase.Tells page.flights last.works last.turns
  | (page, .finished result) => ∃ passed, Tale start id components page chapters passed ∧
      passed <+: Priority.runOrder ∧ (∀ chapter ∈ chapters, chapter.Settled) ∧
      result = resultOf ((chapters.flatMap Chapter.outcomes).findSome? errorOf?) ∧
      (page.isCollectionDisposed id = false → passed = Priority.runOrder)

section

variable {start page after : Page} {id : CollectionId} {components : List ComponentId}
  {chapters past : List Chapter} {passed later : List Priority} {run : Run}

theorem Tale.lasts_trans (h : Tale start id components page chapters passed)
    (hlasts : Page.Lasts page after) : Tale start id components after chapters passed :=
  { h with lasts := h.lasts.trans hlasts }

/-- A run that is over. -/
theorem Tale.finish (h : Tale start id components page chapters passed)
    (hpassed : passed <+: Priority.runOrder)
    (hsettled : ∀ chapter ∈ chapters, chapter.Settled)
    (hfailure : run.failure = (chapters.flatMap Chapter.outcomes).findSome? errorOf?)
    (hall : page.isCollectionDisposed id = false → passed = Priority.runOrder) :
    Tells start id components chapters (page.finishRun run) := by
  have hlasts := (Page.tends_finishRun page run).lasts
  refine ⟨passed, h.lasts_trans hlasts, hpassed, hsettled, ?_, fun hkept => hall ?_⟩
  · rw [← hfailure]
    cases run.failure <;> rfl
  · cases hdisposed : page.isCollectionDisposed id with
    | false => rfl
    | true =>
        have hstill := hlasts.isCollectionDisposed hdisposed
        change (page.finishRun run).1.isCollectionDisposed id = false at hkept
        rw [hstill] at hkept
        cases hkept

/-- Class after class. -/
theorem Tale.runClasses (h : Tale start id components page chapters passed)
    (hknown : ∀ id ∈ components, id < start.components.size)
    (hrun : run.collection = id) (hcomponents : run.components = components)
    (hlater : passed ++ later = Priority.runOrder)
    (hsettled : ∀ chapter ∈ chapters, chapter.Settled)
    (hfailure : run.failure = (chapters.flatMap Chapter.outcomes).findSome? errorOf?) :
    Tells start id components (chapters ++ Page.classChapters id components later page)
      (Page.runClasses later page run) := by
  induction later generalizing page chapters passed run with
  | nil =>
      rw [List.append_nil] at hlater
      rw [Page.classChapters, List.append_nil]
      exact h.finish (hlater ▸ List.prefix_refl _) hsettled hfailure fun _ => hlater
  | cons priority later ih =>
      rw [Page.classChapters, Page.runClasses, hrun, hcomponents]
      split
      · next hdisposed =>
          rw [List.append_nil]
          refine h.finish ⟨_, hlater⟩ hsettled hfailure fun hkept => ?_
          rw [hdisposed] at hkept
          cases hkept
      · next hkept =>
          have htells := Phase.tells_beginPhase page
            ((page.ofPriority priority components).map .render)
          have hplayed := Page.played_beginPhase page
            ((page.ofPriority priority components).map .render)
          have hduties : ((page.phaseWorks ((page.ofPriority priority components).map
              .render)).map Prod.fst) = start.duties components (some priority) := by
            rw [Page.phaseWorks, List.zipIdx_map_fst, h.lasts.ofPriority hknown]
            rfl
          dsimp only
          generalize hopening : Chapter.opening page (some priority)
            ((page.ofPriority priority components).map .render) = chapter
          generalize page.beginPhase ((page.ofPriority priority components).map .render) = reached
            at htells hplayed ⊢
          obtain ⟨after, phase, awake⟩ := reached
          have hlasts := hplayed.lasts
          have hchapter : phase.Tells after.flights chapter.works chapter.turns := hopening ▸ htells
          have htale : Tale start id components after (chapters ++ [chapter])
              (passed ++ [priority]) := by
            constructor
            case lasts => exact h.lasts.trans hlasts
            case plan => rw [List.map_append, h.plan, List.map_append, ← hopening]; rfl
            case duties =>
              intro other hother
              rcases List.mem_append.mp hother with hold | hnew
              · exact h.duties other hold
              · rw [List.mem_singleton.mp hnew, ← hopening]
                exact hduties
            case orderly =>
              intro other hother
              rcases List.mem_append.mp hother with hold | hnew
              · exact h.orderly other hold
              · rw [List.mem_singleton.mp hnew]
                exact hchapter.orderly
            case found =>
              intro other hother turn hturn
              rcases List.mem_append.mp hother with hold | hnew
              · exact h.found other hold turn hturn
              · rw [List.mem_singleton.mp hnew, ← hopening] at hturn
                exact h.lasts.trans (hplayed.lasts_of_mem hturn)
            case opened =>
              intro other hother hsome
              rcases List.mem_append.mp hother with hold | hnew
              · exact h.opened other hold hsome
              · rw [List.mem_singleton.mp hnew, ← hopening]
                exact Bool.eq_false_iff.mpr hkept
          have hpassed : (passed ++ [priority]) ++ later = Priority.runOrder := by
            rw [List.append_assoc]
            exact hlater
          dsimp only
          split
          · next hover =>
              rw [List.append_cons]
              refine ih htale rfl rfl hpassed (fun other hother => ?_) ?_
              · rcases List.mem_append.mp hother with hold | hnew
                · exact hsettled other hold
                · rw [List.mem_singleton.mp hnew]
                  exact hchapter.settled hover
              · rw [List.flatMap_append, List.findSome?_append, ← hfailure, List.flatMap_singleton,
                  Phase.failure?_eq, hchapter.results]
                rfl
          · exact ⟨chapters, chapter, _, rfl, htale, hpassed, rfl, rfl, hsettled, hfailure, hchapter⟩

/-- Going on after a phase, if it is over. -/
theorem Tale.continueRun {last : Chapter}
    (h : Tale start id components page (past ++ [last]) passed)
    (hknown : ∀ id ∈ components, id < start.components.size)
    (hrun : run.collection = id) (hcomponents : run.components = components)
    (hlater : passed ++ run.later = Priority.runOrder) (hsettled : ∀ chapter ∈ past, chapter.Settled)
    (hfailure : run.failure = (past.flatMap Chapter.outcomes).findSome? errorOf?)
    (hphase : run.phase.Tells page.flights last.works last.turns) (awake : Bool) :
    Tells start id components (past ++ last :: page.continueChapters run)
      (page.continueRun run awake) := by
  rw [Page.continueChapters, Page.continueRun, hrun, hcomponents]
  split
  · next hover =>
      rw [List.append_cons]
      refine h.runClasses hknown rfl rfl hlater (fun other hother => ?_) ?_
      · rcases List.mem_append.mp hother with hold | hnew
        · exact hsettled other hold
        · rw [List.mem_singleton.mp hnew]
          exact hphase.settled hover
      · rw [List.flatMap_append, List.findSome?_append, ← hfailure, List.flatMap_singleton,
          Phase.failure?_eq, hphase.results]
        rfl
  · exact ⟨past, last, passed, rfl, h, hlater, hrun, hcomponents, hsettled, hfailure, hphase⟩

/-- A collection that is ready begins with all of its components being prepared. -/
theorem Page.beginRun_of_ready {page : Page} {cell : Collection}
    (hcell : page.collections.get? id = some cell) (hready : cell.state = .ready) :
    page.beginRun id = Page.continueRun
      ((page.running id cell.components).beginPhase (cell.components.map .prepare)).1
      { collection := id, components := cell.components, later := Priority.runOrder
        phase := ((page.running id cell.components).beginPhase (cell.components.map .prepare)).2.1 }
      ((page.running id cell.components).beginPhase (cell.components.map .prepare)).2.2 := by
  rw [Page.beginRun, hcell]
  dsimp only
  rw [hready]
  rfl

theorem tells_beginRun {cell : Collection}
    (hcell : start.collections.get? id = some cell) (hready : cell.state = .ready)
    (hknown : ∀ id ∈ cell.components, id < start.components.size) :
    Tells start id cell.components (start.beginChapters id cell.components)
      (start.beginRun id) := by
  have hrunning := (Page.tends_running hcell hready cell.components).lasts
  have htells := Phase.tells_beginPhase (start.running id cell.components)
    (cell.components.map .prepare)
  have hplayed := Page.played_beginPhase (start.running id cell.components)
    (cell.components.map .prepare)
  rw [Page.beginRun_of_ready hcell hready, Page.beginChapters]
  generalize hopening : Chapter.opening (start.running id cell.components) none
    (cell.components.map .prepare) = chapter
  generalize (start.running id cell.components).beginPhase
    (cell.components.map .prepare) = reached at htells hplayed ⊢
  obtain ⟨after, phase, awake⟩ := reached
  have hchapter : phase.Tells after.flights chapter.works chapter.turns := hopening ▸ htells
  have htale : Tale start id cell.components after ([] ++ [chapter]) [] := by
    constructor
    case lasts => exact hrunning.trans hplayed.lasts
    case plan => rw [← hopening]; rfl
    case duties =>
      intro other hother
      rw [List.mem_singleton.mp hother, ← hopening]
      exact List.zipIdx_map_fst _ _
    case orderly =>
      intro other hother
      rw [List.mem_singleton.mp hother]
      exact hchapter.orderly
    case found =>
      intro other hother turn hturn
      rw [List.mem_singleton.mp hother, ← hopening] at hturn
      exact hrunning.trans (hplayed.lasts_of_mem hturn)
    case opened =>
      intro other hother hsome
      rw [List.mem_singleton.mp hother, ← hopening] at hsome
      cases hsome
  exact htale.continueRun hknown rfl rfl rfl (fun _ hin => absurd hin List.not_mem_nil) rfl hchapter
    awake

theorem Tells.resumeRun {last : Chapter} {on : Suspension}
    (h : Tells start id components (past ++ [last]) (page, .suspended on run))
    (hknown : ∀ id ∈ components, id < start.components.size) :
    Tells start id components (past ++ page.resumeChapters run last) (page.resumeRun run) := by
  obtain ⟨others, other, passed, hchapters, htale, hlater, hrun, hcomponents, hsettled, hfailure,
    hphase⟩ := h
  obtain ⟨rfl, hsame⟩ := List.append_inj' hchapters rfl
  obtain rfl := List.singleton_inj.mp hsame
  have hresumed := hphase.resumePhase
  have hplayed := Page.played_resumePhase page run.phase
  have hgone : Tale start id components (page.resumePhase run.phase).1
      (past ++ [last.goOn page run.phase]) passed := by
    have hmem : ∀ {other}, other ∈ past ++ [last.goOn page run.phase] →
        other ∈ past ∨ other = last.goOn page run.phase := by
      intro other hother
      rcases List.mem_append.mp hother with hold | hnew
      · exact .inl hold
      · exact .inr (List.mem_singleton.mp hnew)
    have hin : ∀ {other}, other ∈ past → other ∈ past ++ [last] :=
      fun hother => List.mem_append_left _ hother
    have hlast : last ∈ past ++ [last] := List.mem_append_right _ List.mem_cons_self
    constructor
    case lasts => exact htale.lasts.trans hplayed.lasts
    case plan =>
      rw [← htale.plan, List.map_append, List.map_append]
      rfl
    case duties =>
      intro other hother
      rcases hmem hother with hold | rfl
      · exact htale.duties other (hin hold)
      · exact htale.duties last hlast
    case orderly =>
      intro other hother
      rcases hmem hother with hold | rfl
      · exact htale.orderly other (hin hold)
      · exact Phase.Tells.orderly hresumed
    case found =>
      intro other hother turn hturn
      rcases hmem hother with hold | rfl
      · exact htale.found other (hin hold) turn hturn
      · rcases List.mem_append.mp hturn with hold | hnew
        · exact htale.found last hlast turn hold
        · exact htale.lasts.trans (hplayed.lasts_of_mem hnew)
    case opened =>
      intro other hother
      rcases hmem hother with hold | rfl
      · exact htale.opened other (hin hold)
      · exact htale.opened last hlast
  exact @Tale.continueRun _ _ _ _ _ _ { run with phase := (page.resumePhase run.phase).2.1 } _ hgone
    hknown hrun hcomponents hlater hsettled hfailure hresumed _

end

end ReactiveMarkup
