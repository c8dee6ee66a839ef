import ReactiveMarkup.Proofs.Scope.Waits

/-!
# What a wait is served with was seen

A wait is served when a broadcast is over, and it is given the source of the broadcast. By then the scope
may see something else: a handler that was called before may have set another source. But the source was
stored in the scope when the broadcast began, so there was a moment, behind the registration of the wait,
at which it was what the scope saw.

All that can happen to waits in one step is told once, by `Tends`. Everything else follows from it by
induction on a timeline, a row of moments each of which may come right after the one before.
-/

namespace ReactiveMarkup

namespace Scopes

variable {scopes before after : Scopes} {scope : ScopeId} {id : String} {source : Source}

/-- A scope sees what it stores itself. -/
theorem find?_of_stored? (hid : Unicode.lower source.id = source.id)
    (hstored : scopes.stored? scope source.id = some source) :
    scopes.find? scope source.id = some source := by
  rw [find?, lineage, lineageTo, List.findSome?_cons, local?, hid, hstored]

/-- Ids in any case find the same. -/
theorem find?_lower (scopes : Scopes) (scope : ScopeId) (id : String) :
    scopes.find? scope (Unicode.lower id) = scopes.find? scope id := by
  simp only [find?, local?, Unicode.lower_lower]

theorem promises_wait (h : scopes.isDisposed scope = false) (id : String) :
    (scopes.wait scope id).1.promises = scopes.promises.push { scope, id := Unicode.lower id } := by
  rw [wait_of_kept h]
  exact (leaves_bridge (scopes.awaiting scope (Unicode.lower id)) scope (Unicode.lower id)).promises

/-- Promises are what they were, but for some that were cancelled. -/
def Withdraws (before after : Scopes) : Prop :=
  ∀ promise, ∃ gone : Bool, after.promises.get? promise = (before.promises.get? promise).map fun cell =>
    if gone then { cell with state := .cancelled } else cell

theorem withdraws_of_eq (h : after.promises = before.promises) : Withdraws before after :=
  fun promise => ⟨false, by rw [h]; simp⟩

theorem withdraws_of_members {members : List PromiseId}
    (h : ∀ promise, after.promises.get? promise = (before.promises.get? promise).map fun cell =>
      match cell.state with
      | .pending => if promise ∈ members then { cell with state := .cancelled } else cell
      | _ => cell) : Withdraws before after := by
  intro promise
  rw [h]
  cases hcell : before.promises.get? promise with
  | none => exact ⟨false, rfl⟩
  | some cell =>
      cases hstate : cell.state with
      | pending => exact ⟨decide (promise ∈ members), by simp [hstate]⟩
      | fulfilled source => exact ⟨false, by simp [hstate]⟩
      | cancelled => exact ⟨false, by simp [hstate]⟩

end Scopes

namespace Moment

open Scopes

variable {m base after : Moment} {may : Moment → Deed → Prop} {scope : ScopeId} {id : String}
  {source : Source} {telling : Telling} {deed : Deed} {promise : PromiseId}

/-! ## What one step does to waits -/

/-- The waits of one moment are those of another. -/
structure Steady (base m : Moment) : Prop where
  waiters : ∀ scope id, m.scopes.waiters scope id = base.scopes.waiters scope id
  promises : m.scopes.promises = base.scopes.promises
  tellings : ∀ later ∈ m.tellings, ∃ earlier ∈ base.tellings, earlier.Continues later

/-- What can happen to waits. Some are cancelled; one is registered; a broadcast takes those of its id, and
its source is seen in its scope; or a broadcast serves those it has taken. -/
inductive Tends (m after : Moment) : Prop
  | rests
    (waiters : ∀ scope id, after.scopes.waiters scope id ⊆ m.scopes.waiters scope id)
    (promises : Withdraws m.scopes after.scopes)
    (tellings : ∀ later ∈ after.tellings, ∃ earlier ∈ m.tellings, earlier.Continues later)
  | enlists (scope : ScopeId) (id : String)
    (waiters : ∀ other name, after.scopes.waiters other name =
      if scope = other ∧ id = name then m.scopes.waiters other name ++ [m.scopes.promises.size]
      else m.scopes.waiters other name)
    (promises : after.scopes.promises = m.scopes.promises.push { scope, id })
    (tellings : after.tellings = m.tellings)
  | begins (scope : ScopeId) (source : Source)
    (seen : after.scopes.find? scope source.id = some source)
    (waiters : ∀ scope id, after.scopes.waiters scope id ⊆ m.scopes.waiters scope id)
    (promises : after.scopes.promises = m.scopes.promises)
    (tellings : ∀ later ∈ after.tellings, (∃ earlier ∈ m.tellings, earlier.Continues later) ∨
      later.scope = scope ∧ later.source = source ∧
        later.waiters = m.scopes.waiters scope source.id)
  | serves (telling : Telling) (among : telling ∈ m.tellings)
    (waiters : ∀ scope id, after.scopes.waiters scope id = m.scopes.waiters scope id)
    (promises : ∀ promise, after.scopes.promises.get? promise =
      (m.scopes.promises.get? promise).map fun cell => match cell.state with
        | .pending =>
          if promise ∈ telling.waiters then { cell with state := .fulfilled telling.source } else cell
        | _ => cell)
    (tellings : ∀ later ∈ after.tellings, later ∈ m.tellings)

theorem Steady.refl (m : Moment) : Steady m m :=
  ⟨fun _ _ => rfl, rfl, fun later hlater => ⟨later, hlater, .refl later⟩⟩

theorem Steady.tends (h : Steady m after) : Tends m after :=
  .rests (fun scope id => h.waiters scope id ▸ List.Subset.refl _) (withdraws_of_eq h.promises) h.tellings

/-- Broadcasts go on as they did. -/
theorem Steady.of_tellings (htellings : after.tellings = m.tellings)
    (hwaiters : ∀ scope id, after.scopes.waiters scope id = m.scopes.waiters scope id)
    (hpromises : after.scopes.promises = m.scopes.promises) : Steady m after :=
  ⟨hwaiters, hpromises, fun later hlater => ⟨later, htellings ▸ hlater, .refl later⟩⟩

/-- Scopes in which the same waits are listed. -/
theorem Steady.leave (h : Steady base m) {scopes : Scopes} (hleaves : Leaves m.scopes scopes) :
    Steady base { m with scopes } :=
  ⟨fun scope id => (hleaves.waiters_eq scope id).trans (h.waiters scope id),
    hleaves.promises.trans h.promises, h.tellings⟩

theorem Steady.tends_tell (h : Steady base m) (hseen : m.scopes.find? scope source.id = some source)
    (origin : Option Nat) : Tends base (m.tell scope source origin) := by
  refine .begins scope source ?_ (fun other name => ?_) h.promises fun later hlater => ?_
  · have hsame : (m.tell scope source origin).scopes.find? scope source.id =
        m.scopes.find? scope source.id := by
      have htree : SameTree m.scopes (m.tell scope source origin).scopes := sameTree_takeWaiters ..
      simp only [find?, htree.lineage]
      refine congrArg (List.findSome? · _) (funext fun above => ?_)
      exact stored?_modify fun _ => rfl
    exact hsame.trans hseen
  · change (m.scopes.takeWaiters scope source.id).waiters other name ⊆ _
    rw [waiters_takeWaiters, ← h.waiters]
    split
    · exact List.nil_subset _
    · exact List.Subset.refl _
  · rcases List.mem_cons.mp hlater with rfl | hold
    · exact .inr ⟨rfl, rfl, h.waiters scope source.id⟩
    · exact .inl (h.tellings later hold)

/-- A source is stored in a scope, and its broadcast begins. -/
theorem Steady.tends_store (h : Steady base m) {scopes : Scopes} (hleaves : Leaves m.scopes scopes)
    (hlt : scope < scopes.scopes.size) (hid : Unicode.lower source.id = source.id)
    (origin : Option Nat) : Tends base ({ m with scopes := scopes.put scope source }.tell scope source
      origin) := by
  have hput : Steady base { m with scopes := scopes.put scope source } :=
    h.leave (hleaves.trans (leaves_put scopes scope source))
  exact hput.tends_tell (find?_of_stored? hid (stored?_put_self hlt)) origin

theorem Steady.tends_receive (h : Steady base m) (hlt : scope < m.scopes.scopes.size)
    (hid : Unicode.lower source.id = source.id) (origin : Option Nat) :
    Tends base (m.receive scope source origin) := by
  have hleaves := leaves_inherit m.scopes scope source.id
  rw [Moment.receive]
  split
  · exact h.tends
  · exact h.tends_store hleaves (hleaves.size.symm ▸ hlt) hid origin

theorem Orderly.tends_act (h : Orderly m) (hallowed : m.Allows deed) : Tends m (m.act deed) := by
  cases deed with
  | create parent settings =>
      refine Steady.tends (.of_tellings rfl (fun other id => ?_) rfl)
      change (m.scopes.grow (some parent) settings).waiters other id = _
      rw [Scopes.waiters, look_grow_of_blank (f := Scope.waiters) rfl, Scopes.waiters]
  | hold scope | release scope | arrange hosts deliveries =>
      exact Steady.tends (.of_tellings rfl (fun _ _ => rfl) rfl)
  | subscribe scope id handler onlyHere =>
      have hleaves := leaves_register m.scopes scope id handler onlyHere
      exact Steady.tends (.of_tellings rfl hleaves.waiters_eq hleaves.promises)
  | unsubscribe scope id handler =>
      exact ((Steady.refl m).leave (leaves_removeHandler m.scopes scope id handler)).tends
  | wait scope id =>
      cases hdisposed : m.scopes.isDisposed scope with
      | true => exact (act_wait_of_disposed hdisposed id).symm ▸ (Steady.refl m).tends
      | false =>
          have hleaves := leaves_bridge (m.scopes.awaiting scope (Unicode.lower id)) scope
            (Unicode.lower id)
          refine .enlists scope (Unicode.lower id) (fun other name => ?_) (promises_wait hdisposed id) rfl
          change (m.scopes.wait scope id).1.waiters other name = _
          rw [wait_of_kept hdisposed]
          exact (hleaves.waiters_eq other name).trans (waiters_awaiting (h.lt_size hallowed) other name)
  | set scope source =>
      have hleaves := leaves_own m.scopes scope source.id
      have hid := id_mergedWith m.scopes scope source
      exact (Steady.refl m).tends_store hleaves (hleaves.size.symm ▸ h.lt_size hallowed.1)
        (hid.symm ▸ hallowed.2) none
  | put scope source =>
      exact (Steady.refl m).tends_store (.refl m.scopes) (h.lt_size hallowed.1) hallowed.2 none
  | receive scope source =>
      exact (Steady.refl m).tends_receive (h.lt_size hallowed.1) hallowed.2 none
  | dispose scope =>
      cases hdisposed : m.scopes.isDisposed scope with
      | true => exact (act_dispose_of_disposed hdisposed).symm ▸ (Steady.refl m).tends
      | false =>
          have hdisposes := h.backed.disposes (h.lt_size hallowed) hdisposed
          refine .rests (fun other name => ?_) (withdraws_of_members hdisposes.promises)
            (Steady.refl m).tellings
          change (m.scopes.dispose scope).waiters other name ⊆ _
          rw [hdisposes.waiters]
          split
          · exact List.nil_subset _
          · exact List.Subset.refl _
  | clear scope =>
      refine .rests (fun other name => ?_) (withdraws_of_members (promises_clear m.scopes scope))
        (Steady.refl m).tellings
      change (m.scopes.clear scope).waiters other name ⊆ _
      rw [waiters_clear]
      split
      · exact List.nil_subset _
      · exact List.Subset.refl _

theorem Steady.tends_call (h : Steady base m) (horderly : Orderly m) (htelling : telling ∈ m.tellings)
    (handler : Handler) : Tends base (m.call telling handler) := by
  cases handler with
  | bridge child =>
      rw [Moment.call]
      split
      · next halive =>
          exact h.tends_receive (horderly.lt_size halive) (horderly.small telling htelling) _
      · exact h.tends
  | host handler => exact Steady.tends ⟨h.waiters, h.promises, h.tellings⟩
  | trigger component => exact Steady.tends ⟨h.waiters, h.promises, h.tellings⟩

theorem Orderly.tends_proceed (h : Orderly m) : Tends m m.proceed := by
  rw [Moment.proceed]
  split
  · exact (Steady.refl m).tends
  · next telling others htellings =>
      have hothers : ∀ later ∈ others, later ∈ m.tellings :=
        fun later hlater => htellings ▸ List.mem_cons_of_mem _ hlater
      have hmem : telling ∈ m.tellings := htellings ▸ List.mem_cons_self
      split
      · refine .serves telling hmem (fun other name => ?_) (fun promise => ?_) hothers
        · rw [Moment.serve, resolveAll_eq]
          rfl
        · exact promises_resolveAll (.fulfilled telling.source) telling.waiters m.scopes promise
      · next handler rest hhandlers =>
          have hshifted := h.shift htellings hhandlers
          have hsteady : Steady m { m with tellings := { telling with handlers := rest } :: others } := by
            refine ⟨fun _ _ => rfl, rfl, List.forall_mem_cons.mpr ⟨⟨telling, hmem, ?_⟩, fun later hlater =>
              ⟨later, hothers later hlater, .refl later⟩⟩⟩
            exact ⟨rfl, rfl, rfl, rfl, hhandlers ▸ List.suffix_cons handler rest⟩
          exact hsteady.tends_call hshifted List.mem_cons_self handler

/-! ## What is known of waits -/

/-- A promise goes on to be for the same id in the same scope. -/
theorem Tends.promised (h : Tends m after) {state : PromiseState}
    (hcell : m.scopes.promises.get? promise = some { scope, id, state }) :
    ∃ state, after.scopes.promises.get? promise = some { scope, id, state } := by
  cases h with
  | rests waiters promises tellings =>
      obtain ⟨gone, hgone⟩ := promises promise
      rw [hgone, hcell]
      cases gone with
      | true => exact ⟨_, rfl⟩
      | false => exact ⟨_, rfl⟩
  | enlists other name waiters promises tellings =>
      have hlt : promise < m.scopes.promises.size := (Array.getElem?_eq_some_iff.mp hcell).1
      rw [promises, Arena.get?_push, if_neg (Nat.ne_of_lt hlt)]
      exact ⟨_, hcell⟩
  | begins other source seen waiters promises tellings =>
      rw [promises]
      exact ⟨_, hcell⟩
  | serves telling among waiters promises tellings =>
      rw [promises, hcell]
      cases state with
      | pending =>
          by_cases hmem : promise ∈ telling.waiters
          · exact ⟨.fulfilled telling.source, by simp [hmem]⟩
          · exact ⟨.pending, by simp [hmem]⟩
      | fulfilled source => exact ⟨_, rfl⟩
      | cancelled => exact ⟨_, rfl⟩

/-- Waits are where their promises say. Those that were registered since there were so many promises are
served with sources of which something is `known`. -/
structure Serves (start : Nat) (known : ScopeId → Source → Prop) (m : Moment) : Prop where
  listed : ∀ {scope id promise}, promise ∈ m.scopes.waiters scope id →
    ∃ state, m.scopes.promises.get? promise = some { scope, id, state }
  taken : ∀ {telling promise}, telling ∈ m.tellings → promise ∈ telling.waiters →
    (∃ state, m.scopes.promises.get? promise =
      some { scope := telling.scope, id := telling.source.id, state }) ∧
      (start ≤ promise → known telling.scope telling.source)
  served : ∀ {scope id promise source}, start ≤ promise →
    m.scopes.promises.get? promise = some { scope, id, state := .fulfilled source } →
      source.id = id ∧ known scope source

variable {start : Nat} {known more : ScopeId → Source → Prop}

theorem Serves.mono (h : Serves start known m) (hmore : ∀ scope source, known scope source →
    more scope source) : Serves start more m where
  listed := h.listed
  taken htelling hmem := (h.taken htelling hmem).imp_right fun hknown hle => hmore _ _ (hknown hle)
  served hle hcell := (h.served hle hcell).imp_right (hmore _ _)

/-- No wait was registered since now. -/
theorem Serves.now (h : Serves start known m) : Serves m.scopes.promises.size more m where
  listed := h.listed
  taken htelling hmem := by
    obtain ⟨state, hcell⟩ := (h.taken htelling hmem).1
    exact ⟨⟨state, hcell⟩, fun hle =>
      absurd (Array.getElem?_eq_some_iff.mp hcell).1 (Nat.not_lt.mpr hle)⟩
  served hle hcell := absurd (Array.getElem?_eq_some_iff.mp hcell).1 (Nat.not_lt.mpr hle)

theorem serves_first (settings : Fields) : Serves 0 known (first settings) where
  listed {scope id promise} hmem := by
    have hlook : (first settings).scopes.look scope [] Scope.waiters = [] :=
      (look_grow_of_blank rfl scope).trans (look_of_ge (Nat.zero_le scope))
    rw [Scopes.waiters, hlook] at hmem
    cases hmem
  taken hnone := by cases hnone
  served _ hcell := by cases hcell

/-- What was known of the waits of a telling is known where the telling goes on. -/
theorem Serves.continues (h : Serves start known m) (htends : Tends m after) {earlier later : Telling}
    (hearlier : earlier ∈ m.tellings) (hsame : earlier.Continues later) (hmem : promise ∈ later.waiters) :
    (∃ state, after.scopes.promises.get? promise =
      some { scope := later.scope, id := later.source.id, state }) ∧
      (start ≤ promise → known later.scope later.source) := by
  rw [hsame.waiters] at hmem
  rw [hsame.scope, hsame.source]
  obtain ⟨⟨state, hcell⟩, hknown⟩ := h.taken hearlier hmem
  exact ⟨htends.promised hcell, hknown⟩

theorem Serves.promised (h : Serves start known m) (htends : Tends m after)
    (hmem : promise ∈ m.scopes.waiters scope id) :
    ∃ state, after.scopes.promises.get? promise = some { scope, id, state } := by
  obtain ⟨state, hcell⟩ := h.listed hmem
  exact htends.promised hcell

/-- A promise that is served after a withdrawal was served before. -/
theorem Serves.withdrawn (h : Serves start known m) (hwithdraws : Withdraws m.scopes after.scopes)
    (hle : start ≤ promise)
    (hcell : after.scopes.promises.get? promise = some { scope, id, state := .fulfilled source }) :
    source.id = id ∧ known scope source := by
  obtain ⟨gone, hgone⟩ := hwithdraws promise
  rw [hgone] at hcell
  obtain ⟨cell, hbefore, hsame⟩ := Option.map_eq_some_iff.mp hcell
  cases gone with
  | true => cases hsame
  | false =>
      rw [if_neg Bool.false_ne_true] at hsame
      exact h.served hle (hsame ▸ hbefore)

/-- A promise that is served when a telling has served those it has taken was served before, or it is one
of them. -/
theorem Serves.fulfilled (h : Serves start known m) (htelling : telling ∈ m.tellings)
    (hpromises : after.scopes.promises.get? promise =
      (m.scopes.promises.get? promise).map fun cell => match cell.state with
        | .pending =>
          if promise ∈ telling.waiters then { cell with state := .fulfilled telling.source } else cell
        | _ => cell)
    (hle : start ≤ promise)
    (hcell : after.scopes.promises.get? promise = some { scope, id, state := .fulfilled source }) :
    source.id = id ∧ known scope source := by
  rw [hpromises] at hcell
  obtain ⟨cell, hbefore, hsame⟩ := Option.map_eq_some_iff.mp hcell
  cases hstate : cell.state with
  | pending =>
      rw [hstate] at hsame
      dsimp only at hsame
      split at hsame
      · next hmem =>
          obtain ⟨⟨state, hthere⟩, hknown⟩ := h.taken htelling hmem
          obtain rfl := Option.some.inj (hbefore.symm.trans hthere)
          obtain ⟨rfl, rfl, hsource⟩ := Promise.mk.inj hsame
          obtain rfl := PromiseState.fulfilled.inj hsource
          exact ⟨rfl, hknown hle⟩
      · rw [hsame] at hstate
        cases hstate
  | fulfilled given =>
      rw [hstate] at hsame
      exact h.served hle (hsame ▸ hbefore)
  | cancelled =>
      rw [hstate] at hsame
      dsimp only at hsame
      rw [hsame] at hstate
      cases hstate

/-- A step keeps what is known of waits; what is new to be known is seen after it. -/
theorem Serves.step (h : Serves start known m) (htends : Tends m after) :
    Serves start (fun scope source => known scope source ∨
      after.scopes.find? scope source.id = some source) after := by
  have hstep := htends
  cases hstep with
  | rests waiters promises tellings =>
      refine ⟨fun hmem => h.promised htends (waiters _ _ hmem), fun htelling hmem => ?_, fun hle hcell =>
        (h.withdrawn promises hle hcell).imp_right .inl⟩
      obtain ⟨earlier, hearlier, hsame⟩ := tellings _ htelling
      exact (h.continues htends hearlier hsame hmem).imp_right fun hknown hle => .inl (hknown hle)
  | enlists scope id waiters promises tellings =>
      refine ⟨fun {other name promise} hmem => ?_, fun htelling hmem => ?_, fun hle hcell => ?_⟩
      · rw [waiters] at hmem
        split at hmem
        · next hplace =>
            rcases List.mem_append.mp hmem with hold | hnew
            · exact h.promised htends hold
            · rw [List.mem_singleton.mp hnew, promises, Arena.get?_push, if_pos rfl, hplace.1, hplace.2]
              exact ⟨_, rfl⟩
        · exact h.promised htends hmem
      · rw [tellings] at htelling
        exact (h.continues htends htelling (.refl _) hmem).imp_right fun hknown hle => .inl (hknown hle)
      · rw [promises, Arena.get?_push] at hcell
        split at hcell
        · cases hcell
        · exact (h.served hle hcell).imp_right .inl
  | begins scope source seen waiters promises tellings =>
      refine ⟨fun hmem => h.promised htends (waiters _ _ hmem), fun htelling hmem => ?_, fun hle hcell => ?_⟩
      · rcases tellings _ htelling with ⟨earlier, hearlier, hsame⟩ | ⟨rfl, rfl, hwaiters⟩
        · exact (h.continues htends hearlier hsame hmem).imp_right fun hknown hle => .inl (hknown hle)
        · exact ⟨h.promised htends (hwaiters ▸ hmem), fun _ => .inr seen⟩
      · rw [promises] at hcell
        exact (h.served hle hcell).imp_right .inl
  | serves telling among waiters promises tellings =>
      refine ⟨fun hmem => h.promised htends (waiters _ _ ▸ hmem), fun htelling hmem => ?_, fun hle hcell =>
        (h.fulfilled among (promises _) hle hcell).imp_right .inl⟩
      exact (h.continues htends (tellings _ htelling) (.refl _) hmem).imp_right fun hknown hle =>
        .inl (hknown hle)

end Moment

/-! ## Timelines -/

/-- What may come right after a moment. -/
inductive Moment.Passes (may : Moment → Deed → Prop) (m : Moment) : Moment → Prop
  | idle : Passes may m m
  | act {deed : Deed} (allowed : m.Allows deed) (permitted : may m deed) : Passes may m (m.act deed)
  | proceed : Passes may m m.proceed

theorem Moment.Passes.orderly {may : Moment → Deed → Prop} {m after : Moment} (h : m.Passes may after)
    (hm : m.Orderly) : after.Orderly := by
  cases h with
  | idle => exact hm
  | act allowed permitted => exact hm.act allowed
  | proceed => exact hm.proceed

theorem Moment.Passes.tends {may : Moment → Deed → Prop} {m after : Moment} (h : m.Passes may after)
    (hm : m.Orderly) : m.Tends after := by
  cases h with
  | idle => exact (Steady.refl m).tends
  | act allowed permitted => exact hm.tends_act allowed
  | proceed => exact hm.tends_proceed

/-- Moments in the order of time, from a first one on. -/
structure Timeline (may : Moment → Deed → Prop) where
  moment : Nat → Moment
  opens : ∃ settings, moment 0 = Moment.first settings
  passes : ∀ time, (moment time).Passes may (moment (time + 1))

namespace Timeline

open Moment

variable {may : Moment → Deed → Prop} {scope : ScopeId} {id : String} {source : Source}
  {promise : PromiseId} {since now : Nat}

theorem orderly (line : Timeline may) (time : Nat) : Orderly (line.moment time) := by
  induction time with
  | zero =>
      obtain ⟨settings, hfirst⟩ := line.opens
      exact hfirst ▸ orderly_first settings
  | succ time ih => exact (line.passes time).orderly ih

theorem tends (line : Timeline may) (time : Nat) :
    Tends (line.moment time) (line.moment (time + 1)) := (line.passes time).tends (line.orderly time)

/-- A source was what a scope saw under its id, at some time from one to another. -/
def Saw (line : Timeline may) (since now : Nat) (scope : ScopeId) (source : Source) : Prop :=
  ∃ time, since ≤ time ∧ time ≤ now ∧
    (line.moment time).scopes.find? scope source.id = some source

theorem promised (line : Timeline may) (hle : since ≤ now) {state : PromiseState}
    (hcell : (line.moment since).scopes.promises.get? promise = some { scope, id, state }) :
    ∃ state, (line.moment now).scopes.promises.get? promise = some { scope, id, state } := by
  induction now, hle using Nat.le_induction with
  | base => exact ⟨state, hcell⟩
  | succ now hle ih =>
      obtain ⟨state, hnow⟩ := ih
      exact (line.tends now).promised hnow

/-- Waits that were registered since a time are served with what was seen since then. -/
theorem serves (line : Timeline may) (hle : since ≤ now) :
    Serves (line.moment since).scopes.promises.size (line.Saw since now) (line.moment now) := by
  have hever : ∀ time, Serves 0 (fun _ _ => True) (line.moment time) := by
    intro time
    induction time with
    | zero =>
        obtain ⟨settings, hfirst⟩ := line.opens
        exact hfirst ▸ serves_first settings
    | succ time ih => exact (ih.step (line.tends time)).mono fun _ _ _ => trivial
  induction now, hle using Nat.le_induction with
  | base => exact (hever since).now
  | succ now hle ih =>
      refine (ih.step (line.tends now)).mono fun scope source hseen => ?_
      rcases hseen with ⟨time, hsince, hnow, hfound⟩ | hfound
      · exact ⟨time, hsince, Nat.le_succ_of_le hnow, hfound⟩
      · exact ⟨now + 1, Nat.le_succ_of_le hle, Nat.le_refl _, hfound⟩

/-- What a wait was served with was seen in its scope since it was registered. -/
theorem saw_of_fulfilled (line : Timeline may) (hle : since ≤ now)
    (hfresh : (line.moment since).scopes.promises.size ≤ promise) {state : PromiseState}
    (hcell : (line.moment now).scopes.promises.get? promise = some { scope, id, state })
    (hstate : (line.moment now).scopes.promiseState promise = .fulfilled source) :
    source.id = id ∧ line.Saw since now scope source := by
  have hsame : state = .fulfilled source := by
    rw [Scopes.promiseState, hcell] at hstate
    cases state with
    | pending =>
        dsimp only at hstate
        split at hstate <;> cases hstate
    | fulfilled other => exact hstate
    | cancelled => cases hstate
  exact (line.serves hle).served hfresh (hsame ▸ hcell)

/-- Steps one after another: deeds, and broadcasts that go on. -/
def pass (m : Moment) : Option Deed → Moment
  | some deed => m.act deed
  | none => m.proceed

/-- The moment after so many of some steps. -/
def after (settings : Fields) (steps : List (Option Deed)) (time : Nat) : Moment :=
  (steps.take time).foldl pass (first settings)

/-- The timeline of some steps, which is over with the last of them. -/
def ofSteps (settings : Fields) (steps : List (Option Deed))
    (hallowed : ∀ time deed, steps[time]? = some (some deed) → (after settings steps time).Allows deed) :
    Timeline fun _ _ => True where
  moment := after settings steps
  opens := ⟨settings, rfl⟩
  passes time := by
    have hnext : after settings steps (time + 1) =
        steps[time]?.toList.foldl pass (after settings steps time) := by
      rw [after, List.take_add_one, List.foldl_append]
      rfl
    rw [hnext]
    cases hstep : steps[time]? with
    | none => exact .idle
    | some step =>
        cases step with
        | none => exact .proceed
        | some deed => exact .act (hallowed time deed hstep) trivial

end Timeline

end ReactiveMarkup
