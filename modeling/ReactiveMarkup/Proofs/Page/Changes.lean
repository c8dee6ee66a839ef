import ReactiveMarkup.Proofs.Page.Upkeep

/-!
# What single changes keep

One lemma for everything that work does to a page: holds come and go, a job is put into the queue, a
source is set, a component registers, markup changes where nothing is bound or where something is.
After a source was set, the bindings that read it may show what is old; until their jobs are in the
queue they are counted as due, and all that happens then is that the debt is paid.
-/

namespace ReactiveMarkup.Page

variable {page before middle after : Page} {ledger other : Ledger} {component : ComponentId}

/-- A page that is as sound as a ledger says, and what leads to it left alone what work does not
change. -/
structure Kept (before after : Page) (ledger : Ledger) : Prop where
  sound : after.Sound ledger
  stays : Stays before after

theorem Kept.refl (h : page.Sound ledger) : Kept page page ledger := ⟨h, .refl page⟩

theorem Kept.trans (h : Kept before middle other) (h' : Kept middle after ledger) :
    Kept before after ledger := ⟨h'.sound, h.stays.trans h'.stays⟩

theorem Sound.beside (h : before.Sound ledger) (hbeside : Beside before after) :
    Kept before after ledger := ⟨hbeside.sound h, hbeside.stays⟩

/-! ## Holds -/

theorem Sound.holdComponent (h : page.Sound ledger) (component : ComponentId) :
    Kept page (page.holdComponent component)
      { ledger with owed := component :: ledger.owed } where
  stays := ⟨rfl, rfl, Nat.le_refl _, fun _ => rfl⟩
  sound := { h with
    alive := fun other hother => by
      have halive := h.alive other hother
      change _ ≤ (component :: page.heldComponents).count other
      change 1 + page.queued.count other + _ ≤ _
      rw [List.count_cons, List.count_cons]
      omega }

theorem Sound.releaseComponent
    (h : page.Sound { ledger with owed := component :: ledger.owed }) :
    Kept page (page.releaseComponent component) ledger where
  stays := ⟨rfl, rfl, Nat.le_refl _, fun _ => rfl⟩
  sound := { h with
    alive := fun other hother => by
      have halive : 1 + page.queued.count other + (component :: ledger.owed).count other ≤
          page.heldComponents.count other := h.alive other hother
      change 1 + page.queued.count other + _ ≤ (page.heldComponents.erase component).count other
      rw [List.count_cons] at halive
      rw [List.count_erase]
      omega }

theorem Sound.holdScope (h : page.Sound ledger) :
    Kept page (page.holdScope rootScope) { ledger with loads := ledger.loads + 1 } where
  stays := ⟨rfl, rfl, Nat.le_refl _, fun _ => rfl⟩
  sound := { h with
    rooted := h.rooted.congr rfl
    cells := fun component hin => by
      obtain ⟨cell, hcell, hworking⟩ := h.cells component hin
      exact ⟨cell, hcell, { hworking with }⟩
    held := by
      have hheld := h.held
      change 1 + (ledger.loads + 1) ≤ (rootScope :: page.scopes.held).count rootScope
      rw [List.count_cons_self]
      omega }

theorem Sound.releaseScope (h : page.Sound { ledger with loads := ledger.loads + 1 }) :
    Kept page (page.releaseScope rootScope) ledger where
  stays := ⟨rfl, rfl, Nat.le_refl _, fun _ => rfl⟩
  sound := { h with
    rooted := h.rooted.congr rfl
    cells := fun component hin => by
      obtain ⟨cell, hcell, hworking⟩ := h.cells component hin
      exact ⟨cell, hcell, { hworking with }⟩
    held := by
      have hheld : 1 + (ledger.loads + 1) ≤ page.scopes.held.count rootScope := h.held
      change _ ≤ (page.scopes.held.erase rootScope).count rootScope
      rw [List.count_erase_self]
      omega }

/-! ## Jobs -/

theorem Sound.enqueue (h : page.Sound ledger) (hin : page.Collected component) (cause : Source) :
    Kept page (page.enqueue (.render component cause)) ledger ∧
      (page.enqueue (.render component cause)).queued = page.queued ++ [component] ∧
      (page.enqueue (.render component cause)).scopes = page.scopes := by
  have hopen : ¬page.queue.closed = true := by
    rw [h.running]
    exact Bool.false_ne_true
  have hqueue : page.queue.push (.render component cause) = { page.queue with
      jobs := page.queue.jobs ++ [.render component cause], signal := page.queue.signal.call } := by
    rw [Queue.push, if_neg hopen]
  have henqueue : page.enqueue (.render component cause) = { page with
      queue := { page.queue with
        jobs := page.queue.jobs ++ [.render component cause], signal := page.queue.signal.call }
      heldComponents := component :: page.heldComponents } := by
    rw [Page.enqueue, hqueue]
    exact if_neg hopen
  have hqueued : (page.enqueue (.render component cause)).queued = page.queued ++ [component] := by
    rw [henqueue, queued, queued, List.filterMap_append]
    rfl
  rw [henqueue] at hqueued ⊢
  refine ⟨⟨{ h with
    alive := fun other hother => ?_
    jobs := fun job hjob => ?_
    shown := fun other spot hother hspot hdue => ?_ },
    ⟨rfl, rfl, Nat.le_refl _, fun _ => rfl⟩⟩, hqueued, rfl⟩
  · have halive := h.alive other hother
    rw [hqueued]
    change _ ≤ (component :: page.heldComponents).count other
    rw [List.count_append, List.count_cons, List.count_cons, List.count_nil]
    omega
  · rcases List.mem_append.mp hjob with hold | hnew
    · exact h.jobs job hold
    · exact ⟨component, cause, List.mem_singleton.mp hnew, hin⟩
  · rw [hqueued]
    exact (h.shown other spot hother hspot hdue).imp id (List.mem_append_left _)

/-! ## Markup -/

/-- Other markup in which nothing that is bound is something else. -/
theorem Sound.putMarkup (h : page.Sound ledger) {markup : Markup}
    (hsize : page.markup.size ≤ markup.size) (hnamed : markup.Wellnamed)
    (hkind : ∀ component spot, page.Collected component → page.spot? component = some spot →
      markup.kind spot.node = page.markup.kind spot.node) :
    Kept page { page with markup } ledger where
  stays := ⟨rfl, rfl, Nat.le_refl _, fun _ => rfl⟩
  sound := { h with
    named := hnamed
    spots := fun component spot hin hspot => by
      obtain ⟨hlt, hread⟩ := h.spots component spot hin hspot
      exact ⟨Nat.lt_of_lt_of_le hlt hsize, (hkind component spot hin hspot).symm ▸ hread⟩
    shown := fun component spot hin hspot hdue => by
      refine (h.shown component spot hin hspot hdue).imp (fun hshows => ?_) id
      rw [Shows, hkind component spot hin hspot]
      exact hshows }

/-- Nothing that is bound changes when no node becomes something else. -/
theorem Sound.changeMarkup (h : page.Sound ledger) {f : Markup → Markup}
    (hkeeps : Markup.Keeps page.markup (f page.markup)) : Kept page (page.changeMarkup f) ledger :=
  h.putMarkup hkeeps.size (hkeeps.named h.named) fun component spot hin hspot =>
    hkeeps.kind _ (h.spots component spot hin hspot).1

/-- What a binding writes does no harm to the others: those that write to the same place write the
same text. -/
theorem Sound.write (h : page.Sound ledger) (hin : page.Collected component) {spot : Spot}
    (hspot : page.spot? component = some spot) (hfresh : component ∉ ledger.fresh) :
    Kept page
      (page.changeMarkup (·.setKind spot.node
        (spot.place.write (spot.token.text (page.scopes.find? rootScope)))))
      { ledger with due := ledger.due.filter (· ≠ component) } := by
  obtain ⟨hnode, hthere⟩ := h.spots component spot hin hspot
  -- What is read at a place afterwards: the new text at the same place, elsewhere what was there.
  have hread : ∀ other more, page.Collected other → page.spot? other = some more →
      (more.node = spot.node ∧ spot.place.same more.place = true ∧
        more.place.read? ((page.markup.setKind spot.node (spot.place.write
          (spot.token.text (page.scopes.find? rootScope)))).kind more.node) =
            some (more.token.text (page.scopes.find? rootScope))) ∨
      more.place.read? ((page.markup.setKind spot.node (spot.place.write
          (spot.token.text (page.scopes.find? rootScope)))).kind more.node) =
        more.place.read? (page.markup.kind more.node) := by
    intro other more hother hmore
    by_cases hsame : more.node = spot.node
    · rw [Markup.kind_setKind hnode, if_pos hsame]
      by_cases hplace : spot.place.same more.place = true
      · have htoken := h.agree component other spot more hin hother hspot hmore hsame.symm hplace
        refine .inl ⟨hsame, hplace, ?_⟩
        rw [← Place.read?_of_same hplace, ← htoken, hsame]
        exact Place.read?_write_self hthere
      · exact .inr (Place.read?_write_other (Bool.not_eq_true _ ▸ hplace))
    · rw [Markup.kind_setKind_of_ne hsame]
      exact .inr rfl
  refine ⟨{ h with
    named := h.named.setKind (fun kind hkind => Place.wellnamed_write hkind) spot.node
    spots := fun other more hother hmore => ?_
    pending := fun other hother => ?_
    shown := fun other more hother hmore hdue => ?_ },
    ⟨rfl, rfl, Nat.le_refl _, fun _ => rfl⟩⟩
  · obtain ⟨hlt, hsome⟩ := h.spots other more hother hmore
    refine ⟨by rw [Page.changeMarkup, Markup.size_setKind]; exact hlt, ?_⟩
    rcases hread other more hother hmore with ⟨-, -, hnew⟩ | hold
    · exact Option.isSome_iff_exists.mpr ⟨_, hnew⟩
    · exact hold.symm ▸ hsome
  · refine List.mem_filter.mpr ⟨h.pending other hother, decide_eq_true ?_⟩
    rintro rfl
    exact hfresh hother
  · rcases hread other more hother hmore with ⟨-, -, hnew⟩ | hold
    · exact .inl hnew
    · by_cases hself : other = component
      · obtain rfl := hself
        obtain rfl := Option.some.inj (hspot.symm.trans hmore)
        refine .inl ?_
        rw [Shows, Page.changeMarkup, Markup.kind_setKind hnode, if_pos rfl]
        exact Place.read?_write_self hthere
      · have hnot : other ∉ ledger.due := fun hc =>
          hdue (List.mem_filter.mpr ⟨hc, decide_eq_true hself⟩)
        exact (h.shown other more hother hmore hnot).imp (fun hshows => hold.trans hshows) id

/-! ## Components -/

theorem spot?_changeComponent (f : Component → Component)
    (hf : ∀ cell, page.components.get? component = some cell → (f cell).spot? = cell.spot?)
    (other : ComponentId) : (page.changeComponent component f).spot? other = page.spot? other := by
  rw [spot?, spot?, Page.changeComponent, Arena.get?_modify]
  split
  · next hsame =>
      obtain rfl := hsame
      cases hcell : page.components.get? component with
      | none => rfl
      | some cell => exact hf cell hcell
  · rfl

theorem Sound.changeComponent (h : page.Sound ledger) {f : Component → Component}
    (hspot : ∀ cell, page.components.get? component = some cell → (f cell).spot? = cell.spot?)
    (hworking : ∀ cell, page.components.get? component = some cell →
      Working page.scopes component cell → Working page.scopes component (f cell)) :
    Kept page (page.changeComponent component f) ledger := by
  have hspots := spot?_changeComponent f hspot
  refine ⟨{ h with
    cells := fun other hother => ?_
    spots := fun other spot hother hmore => h.spots other spot hother (hspots other ▸ hmore)
    agree := fun first second spot more hfirst hsecond hs hm =>
      h.agree first second spot more hfirst hsecond (hspots first ▸ hs) (hspots second ▸ hm)
    registered := fun other spot hother hmore =>
      h.registered other spot hother (hspots other ▸ hmore)
    shown := fun other spot hother hmore => h.shown other spot hother (hspots other ▸ hmore) },
    ⟨rfl, rfl, Nat.le_refl _, hspots⟩⟩
  obtain ⟨cell, hcell, hcellWorking⟩ := h.cells other hother
  by_cases hsame : component = other
  · obtain rfl := hsame
    refine ⟨f cell, ?_, hworking cell hcell hcellWorking⟩
    rw [Page.changeComponent, Arena.get?_modify, if_pos rfl, hcell]
    rfl
  · refine ⟨cell, ?_, hcellWorking⟩
    rw [Page.changeComponent, Arena.get?_modify, if_neg hsame]
    exact hcell

end ReactiveMarkup.Page
