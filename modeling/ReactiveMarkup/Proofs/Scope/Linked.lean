import ReactiveMarkup.Proofs.Scope.Orderly

/-!
# Who is linked to the sources above

A component that registers in a scope is told of the sources that are set above it because bridges lead
down to the scope. Where a scope was disposed its bridges are gone, on both ends, and those that lead to
it are left hanging; so all that can be said in general is said of parents that are not disposed. There
a bridge has both ends, it goes on above the parent, and whoever is registered has one.

While a bridge is set up the second of these facts fails in one place, the scope that is next on the way
up; `ClimbsBut` names it.
-/

namespace ReactiveMarkup.Scopes

open Relation

variable {scopes before after : Scopes} {scope other parent head : ScopeId} {id name : String}
  {handler : Handler}

/-- Bridges go on above a parent that is not disposed, but for one id at one scope. -/
def ClimbsBut (scopes : Scopes) (id : String) (head : ScopeId) : Prop :=
  ∀ scope parent name, scopes.hasBridge scope name = true → scopes.parent? scope = some parent →
    scopes.isDisposed parent = false → (scopes.parent? parent).isSome = true →
      scopes.hasBridge parent name = true ∨ parent = head ∧ name = id

/-- Bridges that lead on where nothing is disposed. -/
structure Linked (scopes : Scopes) : Prop extends Backed scopes where
  there : ∀ scope parent id, scopes.hasBridge scope id = true → scopes.parent? scope = some parent →
    scopes.isDisposed parent = false → .bridge scope ∈ scopes.handlers parent id
  climbs : ∀ scope parent id, scopes.hasBridge scope id = true → scopes.parent? scope = some parent →
    scopes.isDisposed parent = false → (scopes.parent? parent).isSome = true →
      scopes.hasBridge parent id = true
  heard : ∀ scope id component, .trigger component ∈ scopes.handlers scope id →
    scopes.isDisposed scope = false → (scopes.parent? scope).isSome = true →
      scopes.hasBridge scope id = true

/-- What is taken down is taken down at a scope that is disposed, and nothing new is put up. -/
theorem Linked.shrink (h : Linked before) (hbacked : Backed after)
    (hparent : ∀ scope, after.parent? scope = before.parent? scope)
    (hdisposed : ∀ scope, after.isDisposed scope = false → before.isDisposed scope = false)
    (hnew : ∀ scope id, after.hasBridge scope id = true → before.hasBridge scope id = true)
    (hkept : ∀ scope id, after.isDisposed scope = false → before.hasBridge scope id = true →
      after.hasBridge scope id = true)
    (hends : ∀ parent id child, after.isDisposed parent = false → after.hasBridge child id = true →
      .bridge child ∈ before.handlers parent id → .bridge child ∈ after.handlers parent id)
    (hheard : ∀ scope id component, .trigger component ∈ after.handlers scope id →
      .trigger component ∈ before.handlers scope id) : Linked after where
  toBacked := hbacked
  there scope parent id hbridge habove hopen := by
    rw [hparent] at habove
    exact hends parent id scope hopen hbridge
      (h.there scope parent id (hnew _ _ hbridge) habove (hdisposed _ hopen))
  climbs scope parent id hbridge habove hopen hmore := by
    rw [hparent] at habove hmore
    exact hkept parent id hopen
      (h.climbs scope parent id (hnew _ _ hbridge) habove (hdisposed _ hopen) hmore)
  heard scope id component hmem hopen habove := by
    rw [hparent] at habove
    exact hkept scope id hopen
      (h.heard scope id component (hheard _ _ _ hmem) (hdisposed _ hopen) habove)

/-- Nothing that has to do with bridges has changed, and perhaps more is disposed. -/
theorem Linked.congr (h : Linked before)
    (hparent : ∀ scope, after.parent? scope = before.parent? scope)
    (hdisposed : ∀ scope, before.isDisposed scope = true → after.isDisposed scope = true)
    (hbridges : ∀ scope id, after.hasBridge scope id = before.hasBridge scope id)
    (hhandlers : ∀ scope id, after.handlers scope id = before.handlers scope id) : Linked after := by
  refine h.shrink (h.toBacked.congr hparent hbridges hhandlers) hparent (fun scope hopen => ?_)
    (fun scope id hbridge => (hbridges scope id).symm.trans hbridge)
    (fun scope id _ hbridge => (hbridges scope id).trans hbridge)
    (fun parent id child _ _ hmem => hhandlers parent id ▸ hmem)
    fun scope id component hmem => hhandlers scope id ▸ hmem
  cases hgone : before.isDisposed scope with
  | false => rfl
  | true =>
      rw [hdisposed scope hgone] at hopen
      cases hopen

/-! ## Registering -/

theorem mem_handlers_connect (hordered : scopes.Ordered) (hparent : scopes.parent? scope = some parent)
    (hid : Unicode.lower id = id) :
    handler ∈ (scopes.connect id scope parent).handlers other name ↔
      handler ∈ scopes.handlers other name ∨
        other = parent ∧ name = id ∧ handler = .bridge scope := by
  have hlt : parent < scopes.scopes.size :=
    Nat.lt_trans (hordered scope parent hparent) (lt_size_of_parent? hparent)
  rw [connect, mem_handlers_addLocalHandler, size_modify, hid, handlers_modify (fun _ => by rfl),
    and_iff_right hlt]

/-- Both ends of a new bridge are there. -/
theorem there_connect (hordered : scopes.Ordered) (hparent : scopes.parent? scope = some parent)
    (hid : Unicode.lower id = id)
    (hthere : ∀ scope parent id, scopes.hasBridge scope id = true → scopes.parent? scope = some parent →
      scopes.isDisposed parent = false → .bridge scope ∈ scopes.handlers parent id) :
    ∀ below above name, (scopes.connect id scope parent).hasBridge below name = true →
      (scopes.connect id scope parent).parent? below = some above →
        (scopes.connect id scope parent).isDisposed above = false →
          .bridge below ∈ (scopes.connect id scope parent).handlers above name := by
  intro below above name hbridge habove hopen
  rw [(leaves_connect scopes id scope parent).parent] at habove
  rw [(leaves_connect scopes id scope parent).disposed] at hopen
  rw [mem_handlers_connect hordered hparent hid]
  rcases (hasBridge_connect hparent below).mp hbridge with hold | ⟨rfl, rfl⟩
  · exact .inl (hthere below above name hold habove hopen)
  · rw [hparent] at habove
    exact .inr ⟨(Option.some.inj habove).symm, rfl, rfl⟩

/-- Setting bridges up along a lineage makes them go all the way up, from the first scope on. -/
theorem climbs_bridgeAlong (hordered : scopes.Ordered) (height : Nat) (hheight : head < height)
    (hclimbs : scopes.ClimbsBut id head) :
    (∀ scope parent name,
      (bridgeAlong id (scopes.lineageTo height head) scopes).hasBridge scope name = true →
        scopes.parent? scope = some parent → scopes.isDisposed parent = false →
          (scopes.parent? parent).isSome = true →
            (bridgeAlong id (scopes.lineageTo height head) scopes).hasBridge parent name = true) ∧
      ((scopes.parent? head).isSome = true →
        (bridgeAlong id (scopes.lineageTo height head) scopes).hasBridge head id = true) := by
  induction height generalizing scopes head with
  | zero => cases hheight
  | succ height ih =>
      rw [lineageTo]
      cases hparent : scopes.parent? head with
      | none =>
          refine ⟨fun scope parent name hbridge habove hopen hmore => ?_, fun hsome => by cases hsome⟩
          refine (hclimbs scope parent name hbridge habove hopen hmore).resolve_right ?_
          rintro ⟨rfl, -⟩
          rw [hparent] at hmore
          cases hmore
      | some parent =>
          have hlt := hordered head parent hparent
          obtain ⟨rest, hrest⟩ : ∃ rest, scopes.lineageTo height parent = parent :: rest := by
            cases height with
            | zero => exact absurd (Nat.lt_of_lt_of_le hlt (Nat.le_of_lt_succ hheight)) (Nat.not_lt_zero _)
            | succ height => exact ⟨_, rfl⟩
          dsimp only
          rw [hrest, bridgeAlong]
          split
          · next hbridged =>
              refine ⟨fun scope above name hbridge habove hopen hmore => ?_, fun _ => hbridged⟩
              rcases hclimbs scope above name hbridge habove hopen hmore with hup | ⟨rfl, rfl⟩
              · exact hup
              · exact hbridged
          · have hleaves := leaves_connect scopes id head parent
            have hnext : (scopes.connect id head parent).ClimbsBut id parent := by
              intro scope above name hbridge habove hopen hmore
              rw [hleaves.parent] at habove hmore
              rw [hleaves.disposed] at hopen
              rw [hasBridge_connect hparent]
              rcases (hasBridge_connect hparent scope).mp hbridge with hold | ⟨rfl, rfl⟩
              · rcases hclimbs scope above name hold habove hopen hmore with hup | hhead
                · exact .inl (.inl hup)
                · exact .inl (.inr hhead)
              · rw [hparent] at habove
                exact .inr ⟨(Option.some.inj habove).symm, rfl⟩
            have hlineage : (scopes.connect id head parent).lineageTo height parent =
                parent :: rest := (lineageTo_congr hleaves.parent height parent).trans hrest
            have hordered' : (scopes.connect id head parent).Ordered := fun scope above habove =>
              hordered scope above (hleaves.parent scope ▸ habove)
            obtain ⟨hup, -⟩ :=
              ih hordered' (Nat.lt_of_lt_of_le hlt (Nat.le_of_lt_succ hheight)) hnext
            rw [hlineage] at hup
            refine ⟨fun scope above name hbridge habove hopen hmore => ?_, fun _ => ?_⟩
            · refine hup scope above name hbridge ?_ ?_ ?_
              · rwa [hleaves.parent]
              · rwa [hleaves.disposed]
              · rwa [hleaves.parent]
            · exact (tells_bridgeAlong _ _ _).bridges head id
                ((hasBridge_connect hparent head).mpr (.inr ⟨rfl, rfl⟩))

/-- Where the bridges of a scope for an id are set up, everything is linked, and the scope with it. -/
theorem Linked.bridge (hordered : scopes.Ordered) (hbacked : scopes.Backed)
    (hthere : ∀ scope parent id, scopes.hasBridge scope id = true → scopes.parent? scope = some parent →
      scopes.isDisposed parent = false → .bridge scope ∈ scopes.handlers parent id)
    (hclimbs : ∀ scope parent id, scopes.hasBridge scope id = true →
      scopes.parent? scope = some parent → scopes.isDisposed parent = false →
        (scopes.parent? parent).isSome = true → scopes.hasBridge parent id = true)
    (hheard : ∀ other name component, .trigger component ∈ scopes.handlers other name →
      scopes.isDisposed other = false → (scopes.parent? other).isSome = true →
        scopes.hasBridge other name = true ∨ other = scope ∧ name = Unicode.lower id) :
    (scopes.bridge scope id).Linked := by
  have hleaves := leaves_bridge scopes scope id
  have htells : Tells scopes (scopes.bridge scope id) [] := tells_bridgeAlong _ _ scopes
  obtain ⟨hup, hhere⟩ := @climbs_bridgeAlong scopes scope (Unicode.lower id) hordered (scope + 1)
    (Nat.lt_succ_self scope) fun below above name hbridge habove hopen hmore =>
      .inl (hclimbs below above name hbridge habove hopen hmore)
  refine ⟨hbacked.bridge scope id, ?_, fun below above name hbridge habove hopen hmore => ?_,
    fun other name component hmem hopen habove => ?_⟩
  · have hsteps := bridge_connects scopes scope id
    generalize scopes.bridge scope id = after at hsteps
    have hboth : after.Ordered ∧ ∀ scope parent id, after.hasBridge scope id = true →
        after.parent? scope = some parent → after.isDisposed parent = false →
          .bridge scope ∈ after.handlers parent id := by
      induction hsteps with
      | refl => exact ⟨hordered, hthere⟩
      | @tail middle last _ hstep ih =>
          obtain ⟨below, -, above, habove, rfl⟩ := hstep
          refine ⟨fun other higher hhigher => ih.1 other higher ?_,
            there_connect ih.1 habove (Unicode.lower_lower id) ih.2⟩
          rwa [(leaves_connect middle _ below above).parent] at hhigher
    exact hboth.2
  · rw [hleaves.parent] at habove hmore
    rw [hleaves.disposed] at hopen
    exact hup below above name hbridge habove hopen hmore
  · have hold : .trigger component ∈ scopes.handlers other name := by
      have hlisten := mem_listeners.mpr ⟨hmem, rfl⟩
      rw [htells.listeners] at hlisten
      exact (mem_listeners.mp hlisten).1
    rw [hleaves.parent] at habove
    rw [hleaves.disposed] at hopen
    rcases hheard other name component hold hopen habove with hbridge | ⟨rfl, rfl⟩
    · exact htells.bridges other name hbridge
    · exact hhere habove

theorem Linked.addLocalHandler (h : scopes.Linked)
    (hhandler : ∀ child, handler ≠ .bridge child) (hquiet : ∀ component, handler ≠ .trigger component) :
    (scopes.addLocalHandler scope id handler).1.Linked := by
  have hleaves := leaves_addLocalHandler scopes scope id handler
  have hbridges : ∀ other name, (scopes.addLocalHandler scope id handler).1.hasBridge other name =
      scopes.hasBridge other name := fun other name => hasBridge_addLocalHandler handler other
  refine h.shrink (h.toBacked.addLocalHandler fun child hsame => absurd hsame (hhandler child))
    hleaves.parent (fun other hopen => (hleaves.disposed other).symm.trans hopen)
    (fun other name hbridge => (hbridges other name).symm.trans hbridge)
    (fun other name _ hbridge => (hbridges other name).trans hbridge)
    (fun above name child _ _ hmem => mem_handlers_addLocalHandler.mpr (.inl hmem))
    fun other name component hmem => ?_
  exact (mem_handlers_addLocalHandler.mp hmem).resolve_right fun hadded =>
    hquiet component hadded.2.2.2.symm

theorem Linked.bridgeMore (h : scopes.Linked) (hordered : scopes.Ordered) (scope : ScopeId)
    (id : String) : (scopes.bridge scope id).Linked :=
  .bridge hordered h.toBacked h.there h.climbs fun other name component hmem hopen habove =>
    .inl (h.heard other name component hmem hopen habove)

theorem Linked.addHandler (h : scopes.Linked) (hordered : scopes.Ordered) (scope : ScopeId)
    (id : String) (hhandler : ∀ child, handler ≠ .bridge child) :
    (scopes.addHandler scope id handler).1.Linked := by
  have hleaves := leaves_addLocalHandler scopes scope id handler
  have hbridges : ∀ other name, (scopes.addLocalHandler scope id handler).1.hasBridge other name =
      scopes.hasBridge other name := fun other name => hasBridge_addLocalHandler handler other
  change ((scopes.addLocalHandler scope id handler).1.bridge scope id).Linked
  refine .bridge (fun below above habove => hordered below above (hleaves.parent below ▸ habove))
    (h.toBacked.addLocalHandler fun child hsame => absurd hsame (hhandler child))
    (fun below above name hbridge habove hopen => ?_) (fun below above name hbridge habove hopen hmore => ?_)
    fun other name component hmem hopen habove => ?_
  · rw [hbridges] at hbridge
    rw [hleaves.parent] at habove
    rw [hleaves.disposed] at hopen
    exact mem_handlers_addLocalHandler.mpr (.inl (h.there below above name hbridge habove hopen))
  · rw [hbridges] at hbridge ⊢
    rw [hleaves.parent] at habove hmore
    rw [hleaves.disposed] at hopen
    exact h.climbs below above name hbridge habove hopen hmore
  · rw [hbridges]
    rw [hleaves.parent] at habove
    rw [hleaves.disposed] at hopen
    rcases mem_handlers_addLocalHandler.mp hmem with hold | ⟨-, rfl, rfl, -⟩
    · exact .inl (h.heard other name component hold hopen habove)
    · exact .inr ⟨rfl, rfl⟩

theorem Linked.removeHandler (h : scopes.Linked) (scope : ScopeId) (id : String)
    (hhandler : ∀ child, handler ≠ .bridge child) :
    (scopes.removeHandler scope id handler).1.Linked := by
  have hleaves := leaves_removeHandler scopes scope id handler
  have hbridges : ∀ other name, (scopes.removeHandler scope id handler).1.hasBridge other name =
      scopes.hasBridge other name := fun other name => hasBridge_removeHandler handler other
  exact h.shrink (h.toBacked.removeHandler scope id handler) hleaves.parent
    (fun other hopen => (hleaves.disposed other).symm.trans hopen)
    (fun other name hbridge => (hbridges other name).symm.trans hbridge)
    (fun other name _ hbridge => (hbridges other name).trans hbridge)
    (fun above name child _ _ hmem => mem_handlers_removeHandler (hhandler child).symm hmem)
    fun other name component hmem => mem_handlers_of_removeHandler hmem

/-! ## Disposing and making scopes -/

/-- A scope that does not exist cannot be changed. -/
theorem modify_of_ge (h : scopes.scopes.size ≤ scope) (f : Scope → Scope) :
    scopes.modify scope f = scopes := by
  have hcells : scopes.scopes.modify scope f = scopes.scopes := by
    refine modify_eq_self fun cell hcell => ?_
    rw [Arena.get?, Array.getElem?_eq_none h] at hcell
    cases hcell
  rw [modify, hcells]

theorem dispose_of_ge (h : scopes.scopes.size ≤ scope) : scopes.dispose scope = scopes := by
  rw [Scopes.dispose, isDisposed, look_of_ge h]
  dsimp only
  rw [if_neg Bool.false_ne_true, modify_of_ge h, Scopes.removeBridges, modify_of_ge h, parent?,
    look_of_ge h]
  dsimp only
  rw [Scopes.clear, look_of_ge h, List.map_nil, List.foldl_nil, modify_of_ge h]

theorem Linked.dispose (h : scopes.Linked) (scope : ScopeId) : (scopes.dispose scope).Linked := by
  cases hdisposed : scopes.isDisposed scope with
  | true =>
      rw [dispose_of_disposed hdisposed]
      exact h
  | false =>
      rcases Nat.lt_or_ge scope scopes.scopes.size with hlt | hge
      · obtain ⟨htree, hbacked, hgone, hbridges, hhandlers, -, -⟩ := h.toBacked.disposes hlt hdisposed
        have hopen : ∀ other, (scopes.dispose scope).isDisposed other = false →
            scopes.isDisposed other = false ∧ scope ≠ other := by
          intro other hkept
          rw [hgone] at hkept
          simpa using hkept
        refine h.shrink hbacked htree.parent (fun other hkept => (hopen other hkept).1)
          (fun other name hbridge => ?_) (fun other name hkept hbridge => ?_)
          (fun above name child hkept hbridge hmem => ?_) fun other name component hmem => ?_
        · rw [hbridges] at hbridge
          exact (Bool.and_eq_true_iff.mp hbridge).2
        · rw [hbridges, decide_eq_true (hopen other hkept).2, hbridge]
          rfl
        · rw [hbridges] at hbridge
          have hother := of_decide_eq_true (Bool.and_eq_true_iff.mp hbridge).1
          refine (hhandlers _ _ _).mpr ⟨(hopen above hkept).2, hmem, fun hsame => ?_⟩
          exact hother (Handler.bridge.inj hsame).symm
        · exact ((hhandlers _ _ _).mp hmem).2.1
      · rw [dispose_of_ge hge]
        exact h

/-- Nobody has a bridge to a new scope, and it has none. -/
theorem Linked.grow (h : scopes.Linked) (hordered : scopes.Ordered) (above : Option ScopeId)
    (settings : Fields) : (scopes.grow above settings).Linked := by
  have hkept : ∀ other, (scopes.grow above settings).isDisposed other = scopes.isDisposed other :=
    fun other => look_grow_of_blank (f := Scope.disposed) rfl other
  refine ⟨h.toBacked.grow above settings, fun below parent name hbridge hparent hopen => ?_,
    fun below parent name hbridge hparent hopen hmore => ?_,
    fun below name component hmem hopen habove => ?_⟩
  · rw [hasBridge_grow] at hbridge
    rw [parent?_grow_of_hasBridge hbridge] at hparent
    rw [hkept] at hopen
    rw [handlers_grow]
    exact h.there below parent name hbridge hparent hopen
  · rw [hasBridge_grow] at hbridge ⊢
    rw [parent?_grow_of_hasBridge hbridge] at hparent
    rw [hkept] at hopen
    have hlt := Nat.lt_trans (hordered below parent hparent) (lt_size_of_parent? hparent)
    rw [parent?_grow, if_neg (Nat.ne_of_lt hlt)] at hmore
    exact h.climbs below parent name hbridge hparent hopen hmore
  · rw [handlers_grow] at hmem
    rw [hasBridge_grow]
    rw [hkept] at hopen
    have hlt : below < scopes.scopes.size := Nat.lt_of_not_le fun hge => by
      rw [handlers, look_of_ge hge] at hmem
      exact absurd hmem List.not_mem_nil
    rw [parent?_grow, if_neg (Nat.ne_of_lt hlt)] at habove
    exact h.heard below name component hmem hopen habove

theorem linked_empty : Linked {} where
  toBacked := Moment.backed_empty
  there _ _ _ hbridge := by cases hbridge
  climbs _ _ _ hbridge := by cases hbridge
  heard _ _ _ hmem := by cases hmem

end ReactiveMarkup.Scopes
