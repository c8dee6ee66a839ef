import ReactiveMarkup.Proofs.Scope.Orderly

/-!
# How moments follow each other

From one moment to a later one the record only grows, broadcasts that go on do so with what is left of
the handlers they began with, and a scope that lives no more neither comes back nor has anything begin
in it. All this is one relation, which every step is in and which is transitive.
-/

namespace ReactiveMarkup

/-- The scope that something happened to as a whole. -/
def Happening.place? : Happening → Option ScopeId
  | .began scope _ _ => some scope
  | .disposed scope => some scope
  | _ => none

/-- What became of a broadcast that goes on. -/
structure Telling.Continues (earlier later : Telling) : Prop where
  since : later.since = earlier.since
  scope : later.scope = earlier.scope
  source : later.source = earlier.source
  waiters : later.waiters = earlier.waiters
  handlers : later.handlers <:+ earlier.handlers

theorem Telling.Continues.refl (telling : Telling) : Telling.Continues telling telling :=
  ⟨rfl, rfl, rfl, rfl, List.suffix_refl _⟩

theorem Telling.Continues.trans {earlier middle later : Telling}
    (h : Telling.Continues earlier middle) (h' : Telling.Continues middle later) :
    Telling.Continues earlier later :=
  ⟨h'.since.trans h.since, h'.scope.trans h.scope, h'.source.trans h.source,
    h'.waiters.trans h.waiters, h'.handlers.trans h.handlers⟩

namespace Moment

open Scopes

variable {m middle after : Moment} {may : Moment → Deed → Prop} {scope : ScopeId} {source : Source}
  {telling : Telling} {deed : Deed}

/-- A moment comes after another one. -/
structure Follows (m after : Moment) : Prop where
  past : m.past <+: after.past
  tellings : ∀ telling ∈ after.tellings, telling.since < m.past.length →
    ∃ earlier ∈ m.tellings, earlier.Continues telling
  size : m.scopes.scopes.size ≤ after.scopes.scopes.size
  parent : ∀ scope < m.scopes.scopes.size, after.scopes.parent? scope = m.scopes.parent? scope
  disposed : ∀ scope, m.scopes.isDisposed scope = true → after.scopes.isDisposed scope = true
  alive : ∀ scope < m.scopes.scopes.size,
    after.scopes.isAlive scope = true → m.scopes.isAlive scope = true
  quiet : ∀ scope < m.scopes.scopes.size, m.scopes.isAlive scope = false →
    ∀ index entry, m.past.length ≤ index → after.past[index]? = some entry →
      entry.place? ≠ some scope
  parts : ∀ index entry since scope, m.past.length ≤ index → after.past[index]? = some entry →
    entry.partOf = some (since, scope) →
      m.past.length ≤ since ∨ ∃ earlier ∈ m.tellings, earlier.since = since

theorem Follows.refl (m : Moment) : Follows m m where
  past := List.prefix_refl _
  tellings telling htelling _ := ⟨telling, htelling, .refl telling⟩
  size := Nat.le_refl _
  parent _ _ := rfl
  disposed _ h := h
  alive _ _ h := h
  quiet _ _ _ _ _ hindex hentry :=
    absurd (List.getElem?_eq_some_iff.mp hentry).1 (Nat.not_lt_of_le hindex)
  parts _ _ _ _ hindex hentry _ :=
    absurd (List.getElem?_eq_some_iff.mp hentry).1 (Nat.not_lt_of_le hindex)

theorem Follows.trans (h : Follows m middle) (h' : Follows middle after) : Follows m after where
  past := h.past.trans h'.past
  tellings telling htelling hsince := by
    obtain ⟨between, hbetween, hcontinues⟩ := h'.tellings telling htelling
      (Nat.lt_of_lt_of_le hsince h.past.length_le)
    obtain ⟨earlier, hearlier, hbefore⟩ := h.tellings between hbetween (hcontinues.since ▸ hsince)
    exact ⟨earlier, hearlier, hbefore.trans hcontinues⟩
  size := Nat.le_trans h.size h'.size
  parent scope hlt :=
    (h'.parent scope (Nat.lt_of_lt_of_le hlt h.size)).trans (h.parent scope hlt)
  disposed scope hdisposed := h'.disposed scope (h.disposed scope hdisposed)
  alive scope hlt halive := h.alive scope hlt (h'.alive scope (Nat.lt_of_lt_of_le hlt h.size) halive)
  quiet scope hlt hdead index entry hindex hentry := by
    have hstill : middle.scopes.isAlive scope = false := by
      rw [← Bool.not_eq_true] at hdead ⊢
      exact fun halive => hdead (h.alive scope hlt halive)
    rcases Nat.lt_or_ge index middle.past.length with hless | hmore
    · exact h.quiet scope hlt hdead index entry hindex
        (getElem?_of_extension_of_lt h'.past hless hentry)
    · exact h'.quiet scope (Nat.lt_of_lt_of_le hlt h.size) hstill index entry hmore hentry
  parts index entry since scope hindex hentry hpart := by
    rcases Nat.lt_or_ge index middle.past.length with hless | hmore
    · exact h.parts index entry since scope hindex
        (getElem?_of_extension_of_lt h'.past hless hentry) hpart
    · rcases Nat.lt_or_ge since m.past.length with hold | hnew
      · rcases h'.parts index entry since scope hmore hentry hpart with hlate | ⟨between, hmem, rfl⟩
        · exact absurd (Nat.lt_of_lt_of_le hold h.past.length_le) (Nat.not_lt_of_le hlate)
        · obtain ⟨earlier, hearlier, hsame⟩ := h.tellings between hmem hold
          exact .inr ⟨earlier, hearlier, hsame.since.symm⟩
      · exact .inl hnew

/-- What may be put on record at a moment: what happens to scopes that live, and what broadcasts do that
are under way. -/
structure Admits (m : Moment) (entry : Happening) : Prop where
  place : ∀ scope, entry.place? = some scope → m.scopes.isAlive scope = true
  part : ∀ since scope, entry.partOf = some (since, scope) →
    ∃ earlier ∈ m.tellings, earlier.since = since

/-- Later scopes in which nobody came back. -/
theorem Follows.of_scopes (hsize : m.scopes.scopes.size ≤ after.scopes.scopes.size)
    (hparent : ∀ scope < m.scopes.scopes.size, after.scopes.parent? scope = m.scopes.parent? scope)
    (hdisposed : ∀ scope, m.scopes.isDisposed scope = true → after.scopes.isDisposed scope = true)
    (halive : ∀ scope < m.scopes.scopes.size,
      after.scopes.isAlive scope = true → m.scopes.isAlive scope = true)
    (htellings : ∀ telling ∈ after.tellings, telling.since < m.past.length →
      ∃ earlier ∈ m.tellings, earlier.Continues telling)
    {more : List Happening} (hpast : after.past = m.past ++ more)
    (hmore : ∀ entry ∈ more, m.Admits entry) : Follows m after where
  past := ⟨more, hpast.symm⟩
  tellings := htellings
  size := hsize
  parent := hparent
  disposed := hdisposed
  alive := halive
  quiet scope _ hdead index entry hindex hentry hplace := by
    rw [hpast, List.getElem?_append_right hindex] at hentry
    rw [(hmore entry (List.mem_of_getElem? hentry)).place scope hplace] at hdead
    cases hdead
  parts index entry since scope hindex hentry hpart := by
    rw [hpast, List.getElem?_append_right hindex] at hentry
    exact .inr ((hmore entry (List.mem_of_getElem? hentry)).part since scope hpart)

theorem Follows.of_sameTree (htree : SameTree m.scopes after.scopes)
    (hdisposed : ∀ scope, m.scopes.isDisposed scope = true → after.scopes.isDisposed scope = true)
    (htellings : ∀ telling ∈ after.tellings, telling.since < m.past.length →
      ∃ earlier ∈ m.tellings, earlier.Continues telling)
    {more : List Happening} (hpast : after.past = m.past ++ more)
    (hmore : ∀ entry ∈ more, m.Admits entry) : Follows m after :=
  .of_scopes (Nat.le_of_eq htree.size.symm) (fun scope _ => htree.parent scope) hdisposed
    (fun scope _ halive => htree.isAlive scope ▸ halive) htellings hpast hmore

theorem follows_rescope {scopes : Scopes} (htree : SameTree m.scopes scopes)
    (hdisposed : ∀ scope, m.scopes.isDisposed scope = true → scopes.isDisposed scope = true) :
    Follows m { m with scopes } :=
  .of_sameTree htree hdisposed (fun telling htelling _ => ⟨telling, htelling, .refl telling⟩)
    (List.append_nil _).symm fun _ hnone => by cases hnone

theorem follows_leave {scopes : Scopes} (hleaves : Leaves m.scopes scopes) :
    Follows m { m with scopes } :=
  follows_rescope hleaves.toSameTree fun scope hdisposed => (hleaves.disposed scope).trans hdisposed

theorem follows_tell (halive : m.scopes.isAlive scope = true) (source : Source)
    (origin : Option Nat) : Follows m (m.tell scope source origin) := by
  refine .of_sameTree (sameTree_takeWaiters m.scopes scope source.id) ?_ ?_ rfl ?_
  · intro other hdisposed
    have hsame : (m.scopes.takeWaiters scope source.id).isDisposed other =
        m.scopes.isDisposed other := look_modify m.scopes fun _ => rfl
    exact hsame.trans hdisposed
  · intro telling htelling hsince
    rcases List.mem_cons.mp htelling with rfl | htelling
    · exact absurd hsince (Nat.lt_irrefl _)
    · exact ⟨telling, htelling, .refl telling⟩
  · intro entry hmem
    rw [List.mem_singleton.mp hmem]
    refine ⟨fun other hplace => ?_, fun _ _ hpart => by cases hpart⟩
    obtain rfl := Option.some.inj hplace
    exact halive

theorem follows_receive (halive : m.scopes.isAlive scope = true) (source : Source)
    (origin : Option Nat) : Follows m (m.receive scope source origin) := by
  rw [Moment.receive]
  split
  · exact .refl m
  · have hleaves := (leaves_inherit m.scopes scope source.id).trans (leaves_put _ scope source)
    exact (follows_leave hleaves).trans
      (follows_tell ((hleaves.isAlive scope).trans halive) source origin)

theorem Orderly.follows_act (h : Orderly m) (hallowed : m.Allows deed) :
    Follows m (m.act deed) := by
  have hsame : ∀ telling ∈ m.tellings, telling.since < m.past.length →
      ∃ earlier ∈ m.tellings, earlier.Continues telling :=
    fun telling htelling _ => ⟨telling, htelling, .refl telling⟩
  cases deed with
  | create parent settings =>
      refine .of_scopes ?_ ?_ ?_ ?_ hsame (List.append_nil _).symm fun _ hnone => by cases hnone
      · rw [Moment.act, size_grow]
        exact Nat.le_succ _
      · exact fun scope hlt => (parent?_grow _ _ scope).trans (if_neg (Nat.ne_of_lt hlt))
      · intro scope hdisposed
        exact (look_grow_of_blank rfl scope).trans hdisposed
      · intro scope hlt halive
        exact ((h.order.isAlive_grow h.held hallowed).mp halive).resolve_left (Nat.ne_of_lt hlt)
  | hold scope =>
      exact .of_scopes (Nat.le_refl _) (fun _ _ => rfl) (fun _ hdisposed => hdisposed)
        (fun _ _ halive => (h.order.isAlive_hold hallowed).mp halive) hsame
        (List.append_nil _).symm fun _ hnone => by cases hnone
  | release scope =>
      exact .of_scopes (Nat.le_refl _) (fun _ _ => rfl) (fun _ hdisposed => hdisposed)
        (fun _ _ halive => isAlive_of_release halive) hsame (List.append_nil _).symm
        fun _ hnone => by cases hnone
  | subscribe scope id handler onlyHere =>
      have hleaves := leaves_register m.scopes scope id handler onlyHere
      refine .of_sameTree hleaves.toSameTree
        (fun scope hdisposed => (hleaves.disposed scope).trans hdisposed) hsame rfl
        fun entry hmem => ?_
      obtain rfl := eq_of_mem_registered hmem
      exact ⟨fun _ hplace => (by cases hplace), fun _ _ hpart => by cases hpart⟩
  | unsubscribe scope id handler => exact follows_leave (leaves_removeHandler m.scopes scope id handler)
  | wait scope id =>
      refine .of_sameTree (sameTree_wait m.scopes scope id)
        (fun other hdisposed => (isDisposed_wait m.scopes scope id other).trans hdisposed) hsame rfl
        fun entry hmem => ?_
      obtain ⟨promise, rfl⟩ := eq_of_mem_waited hmem
      exact ⟨fun _ hplace => (by cases hplace), fun _ _ hpart => by cases hpart⟩
  | set scope source =>
      have hleaves := (leaves_own m.scopes scope source.id).trans
        (leaves_put _ scope (m.scopes.mergedWith scope source))
      exact (follows_leave hleaves).trans
        (follows_tell ((hleaves.isAlive scope).trans hallowed.1) _ none)
  | put scope source =>
      have hleaves := leaves_put m.scopes scope source
      exact (follows_leave hleaves).trans
        (follows_tell ((hleaves.isAlive scope).trans hallowed.1) source none)
  | receive scope source => exact follows_receive hallowed.1 source none
  | dispose scope =>
      obtain ⟨htree, -, hdisposes⟩ := h.backed.dispose (h.lt_size hallowed)
      refine .of_sameTree htree (fun other hdisposed => ?_) hsame rfl fun entry hmem => ?_
      · rw [Moment.act, hdisposes, hdisposed]
        rfl
      · obtain rfl := eq_of_mem_disposed hmem
        refine ⟨fun other hplace => ?_, fun _ _ hpart => by cases hpart⟩
        obtain rfl := Option.some.inj hplace
        exact hallowed
  | clear scope =>
      exact follows_rescope (sameTree_clear m.scopes scope) fun other hdisposed =>
        (look_clear (fun _ => rfl) m.scopes scope other).trans hdisposed
  | arrange hosts deliveries => exact follows_leave (.of_scopes rfl rfl rfl)

/-- A call of a handler from outside is put on record. -/
theorem follows_called (htelling : telling ∈ m.tellings) {scopes : Scopes}
    (hleaves : Leaves m.scopes scopes) (handler : Handler) : Follows m { m with
      scopes
      past := m.past ++ [.called telling.since telling.scope handler telling.source] } := by
  refine .of_sameTree hleaves.toSameTree
    (fun other hdisposed => (hleaves.disposed other).trans hdisposed)
    (fun later hlater _ => ⟨later, hlater, .refl later⟩) rfl fun entry hmem => ?_
  rw [List.mem_singleton.mp hmem]
  refine ⟨fun _ hplace => (by cases hplace), fun _ _ hpart => ?_⟩
  cases hpart
  exact ⟨telling, htelling, rfl⟩

theorem follows_call (htelling : telling ∈ m.tellings) (handler : Handler) :
    Follows m (m.call telling handler) := by
  cases handler with
  | bridge child =>
      rw [Moment.call]
      split
      · next halive => exact follows_receive halive _ _
      · exact .refl m
  | host handler =>
      have hleaves : Leaves m.scopes
          ((m.scopes.deliver (.handled handler telling.source)).markCalled handler) :=
        .of_scopes rfl rfl rfl
      exact follows_called htelling hleaves _
  | trigger component =>
      have hleaves : Leaves m.scopes (m.scopes.deliver (.triggered component telling.source)) :=
        .of_scopes rfl rfl rfl
      exact follows_called htelling hleaves _

/-- The innermost broadcast has served its waits and is over. -/
theorem follows_serve {others : List Telling} (htellings : m.tellings = telling :: others) :
    Follows m ({ m with tellings := others }.serve telling) := by
  refine .of_sameTree ?_ ?_ ?_ rfl fun entry hmem => ?_
  · rw [Moment.serve, resolveAll_eq]
    exact ⟨rfl, fun _ => rfl, rfl⟩
  · intro other hdisposed
    rw [Moment.serve, resolveAll_eq]
    exact hdisposed
  · exact fun later hlater _ => ⟨later, htellings ▸ List.mem_cons_of_mem _ hlater, .refl later⟩
  · obtain ⟨promise, -, rfl⟩ := List.mem_map.mp hmem
    refine ⟨fun _ hplace => (by cases hplace), fun _ _ hpart => ?_⟩
    cases hpart
    exact ⟨telling, htellings ▸ List.mem_cons_self, rfl⟩

/-- The innermost broadcast has one call less to make. -/
theorem follows_shift {others : List Telling} {handler : Handler} {rest : List Handler}
    (htellings : m.tellings = telling :: others) (hhandlers : telling.handlers = handler :: rest) :
    Follows m { m with tellings := { telling with handlers := rest } :: others } := by
  refine .of_sameTree ⟨rfl, fun _ => rfl, rfl⟩ (fun _ hdisposed => hdisposed) ?_
    (List.append_nil _).symm fun _ hnone => by cases hnone
  intro later hlater _
  rcases List.mem_cons.mp hlater with rfl | hlater
  · refine ⟨telling, htellings ▸ List.mem_cons_self, rfl, rfl, rfl, rfl, ?_⟩
    exact hhandlers ▸ List.suffix_cons handler rest
  · exact ⟨later, htellings ▸ List.mem_cons_of_mem _ hlater, .refl later⟩

theorem follows_proceed (m : Moment) : Follows m m.proceed := by
  rw [Moment.proceed]
  split
  · exact .refl m
  · next telling others htellings =>
      split
      · exact follows_serve htellings
      · next handler rest hhandlers =>
          exact (follows_shift htellings hhandlers).trans (follows_call List.mem_cons_self handler)

theorem Later.follows (h : Later may m after) (hm : Orderly m) : Follows m after := by
  induction h with
  | refl => exact .refl m
  | act before hallowed _ ih => exact ih.trans ((before.orderly hm).follows_act hallowed)
  | proceed _ ih => exact ih.trans (follows_proceed _)

theorem Later.trans (h : Later may m middle) (h' : Later may middle after) : Later may m after := by
  induction h' with
  | refl => exact h
  | act _ hallowed hpermitted ih => exact ih.act hallowed hpermitted
  | proceed _ ih => exact ih.proceed

end Moment

end ReactiveMarkup
