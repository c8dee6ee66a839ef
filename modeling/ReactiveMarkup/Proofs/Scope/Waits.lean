import ReactiveMarkup.Proofs.Scope.Courses

/-!
# Waiting once

A wait is decided by the first thing behind its registration that concerns it: a broadcast of its id
that begins in its scope, or the end of the scope. The record says which it is, so what became of a wait
can be read off the record and the broadcasts that are under way. That this is what its promise says is
an invariant of all moments. Two others go with it: the waits a scope has listed are those that are not
decided, and the waits a broadcast has taken are those that it decided. A wait moves from the one to the
other when a broadcast begins, and it is served when this broadcast is over.
-/

namespace ReactiveMarkup

/-- Whether an entry decides the waits for an id in a scope. -/
def Happening.decides (scope : ScopeId) (id : String) : Happening → Bool
  | .began other source _ => other == scope && source.id == id
  | .disposed other => other == scope
  | _ => false

/-- The moment at which a wait was decided that was registered at a moment. -/
def decision? (past : List Happening) (scope : ScopeId) (id : String) (registered : Nat) :
    Option Nat :=
  ((past.drop (registered + 1)).findIdx? (Happening.decides scope id)).map (registered + 1 + ·)

/-- A wait is on record, decided at a moment or open. -/
def OnRecord (past : List Happening) (scope : ScopeId) (id : String) (promise : PromiseId)
    (decision : Option Nat) : Prop :=
  ∃ registered, past[registered]? = some (.waited scope id promise) ∧
    decision? past scope id registered = decision

section

variable {past more : List Happening} {scope : ScopeId} {id : String} {registered decided : Nat}
  {entry other : Happening}

theorem decision?_append (hlt : registered < past.length) (more : List Happening) :
    decision? (past ++ more) scope id registered = (decision? past scope id registered).or
      ((more.findIdx? (Happening.decides scope id)).map (past.length + ·)) := by
  rw [decision?, decision?, List.drop_append_of_le_length hlt, List.findIdx?_append]
  cases (past.drop (registered + 1)).findIdx? (Happening.decides scope id) with
  | some index => rfl
  | none =>
      cases more.findIdx? (Happening.decides scope id) with
      | none => rfl
      | some index =>
          simp only [Option.map_some, Option.none_or, Option.map_none, List.length_drop,
            Option.some.injEq]
          omega

/-- What concerns no wait leaves decisions as they are. -/
theorem decision?_append_idle (hlt : registered < past.length)
    (hidle : ∀ entry ∈ more, entry.decides scope id = false) :
    decision? (past ++ more) scope id registered = decision? past scope id registered := by
  rw [decision?_append hlt, List.findIdx?_eq_none_iff.mpr hidle]
  exact Option.or_none

theorem decision?_concat (hlt : registered < past.length) (hdecides : entry.decides scope id = true) :
    decision? (past ++ [entry]) scope id registered =
      (decision? past scope id registered).or (some past.length) := by
  rw [decision?_append hlt]
  simp [List.findIdx?_cons, hdecides]

/-- Nothing is behind the last entry. -/
theorem decision?_last : decision? (past ++ [entry]) scope id past.length = none := by
  rw [decision?, List.drop_of_length_le (by simp)]
  rfl

theorem decision?_spec (h : decision? past scope id registered = some decided) :
    registered < decided ∧ ∃ entry, past[decided]? = some entry ∧ entry.decides scope id = true := by
  obtain ⟨index, hindex, rfl⟩ := Option.map_eq_some_iff.mp h
  obtain ⟨hlt, hdecides, -⟩ := List.findIdx?_eq_some_iff_getElem.mp hindex
  refine ⟨by omega, _, ?_, hdecides⟩
  rw [List.getElem_drop]
  exact List.getElem?_eq_getElem _

theorem place?_of_decides (h : entry.decides scope id = true) : entry.place? = some scope := by
  cases entry <;> simp_all [Happening.decides, Happening.place?]

theorem decision?_lt (h : decision? past scope id registered = some decided) :
    decided < past.length := by
  obtain ⟨-, entry, hentry, -⟩ := decision?_spec h
  exact (List.getElem?_eq_some_iff.mp hentry).1

end

namespace Moment

open Scopes

variable {m middle after : Moment} {may : Moment → Deed → Prop} {scope : ScopeId} {id : String}
  {source : Source} {telling : Telling} {deed : Deed} {promise : PromiseId} {registered : Nat}

/-- What a wait that was registered at a moment has come to, by the record. A broadcast serves its waits
when it is over. -/
def verdict (m : Moment) (scope : ScopeId) (id : String) (registered : Nat) : PromiseState :=
  match decision? m.past scope id registered with
  | none => .pending
  | some decided =>
    match m.past[decided]? with
    | some (.began _ source _) =>
      if decided ∈ m.tellings.map Telling.since then .pending else .fulfilled source
    | _ => .cancelled

/-- Every wait is where the record says it is. -/
structure Attended (m : Moment) : Prop where
  there : ∀ {registered : Nat} {scope : ScopeId} {id : String} {promise : PromiseId},
    m.past[registered]? = some (.waited scope id promise) → scope < m.scopes.scopes.size
  state : ∀ {registered : Nat} {scope : ScopeId} {id : String} {promise : PromiseId},
    m.past[registered]? = some (.waited scope id promise) →
      m.scopes.promises.get? promise = some { scope, id, state := m.verdict scope id registered }
  once : ∀ {registered again : Nat} {scope other : ScopeId} {id name : String} {promise : PromiseId},
    m.past[registered]? = some (.waited scope id promise) →
      m.past[again]? = some (.waited other name promise) → registered = again
  listed : ∀ scope id promise, promise ∈ m.scopes.waiters scope id ↔
    OnRecord m.past scope id promise none
  taken : ∀ telling ∈ m.tellings, ∀ promise, promise ∈ telling.waiters ↔
    OnRecord m.past telling.scope telling.source.id promise (some telling.since)

theorem lt_length_of_waited (h : m.past[registered]? = some (.waited scope id promise)) :
    registered < m.past.length := (List.getElem?_eq_some_iff.mp h).1

/-- Entries that decide no wait. -/
def Undeciding (more : List Happening) : Prop :=
  ∀ entry ∈ more, ∀ scope id, entry.decides scope id = false

theorem Undeciding.decision?_eq {more : List Happening} (h : Undeciding more)
    (hpast : after.past = m.past ++ more) (hlt : registered < m.past.length) :
    decision? after.past scope id registered = decision? m.past scope id registered := by
  rw [hpast]
  exact decision?_append_idle hlt fun entry hmem => h entry hmem scope id

/-- Verdicts stay while nothing decides and no broadcast begins or ends. -/
theorem Undeciding.verdict_eq {more : List Happening} (h : Undeciding more)
    (hpast : after.past = m.past ++ more) (hlt : registered < m.past.length)
    (hsinces : after.tellings.map Telling.since = m.tellings.map Telling.since) :
    after.verdict scope id registered = m.verdict scope id registered := by
  rw [verdict, verdict, h.decision?_eq hpast hlt, hsinces]
  cases hdecision : decision? m.past scope id registered with
  | none => rfl
  | some decided =>
      have hless := decision?_lt hdecision
      dsimp only
      rw [hpast, List.getElem?_append_left hless]

/-- Entries that register no wait. -/
theorem waited_iff_of_append {more : List Happening} (hpast : after.past = m.past ++ more)
    (hmore : ∀ entry ∈ more, ∀ scope id promise, entry ≠ .waited scope id promise) :
    after.past[registered]? = some (.waited scope id promise) ↔
      m.past[registered]? = some (.waited scope id promise) := by
  rw [hpast]
  constructor
  · intro hwaited
    rcases Nat.lt_or_ge registered m.past.length with hlt | hge
    · rwa [List.getElem?_append_left hlt] at hwaited
    · rw [List.getElem?_append_right hge] at hwaited
      exact absurd rfl (hmore _ (List.mem_of_getElem? hwaited) scope id promise)
  · exact getElem?_of_extension (List.prefix_append _ _)

theorem onRecord_iff_of_idle {more : List Happening} {decision : Option Nat}
    (hpast : after.past = m.past ++ more)
    (hmore : ∀ entry ∈ more, ∀ scope id promise, entry ≠ .waited scope id promise)
    (hidle : ∀ entry ∈ more, entry.decides scope id = false) :
    OnRecord after.past scope id promise decision ↔ OnRecord m.past scope id promise decision := by
  refine exists_congr fun registered => ?_
  rw [waited_iff_of_append hpast hmore]
  refine and_congr_right fun hwaited => ?_
  rw [hpast, decision?_append_idle (lt_length_of_waited hwaited) hidle]

/-- What has nothing to do with waits leaves them attended. -/
theorem Attended.idle (h : Attended m) {more : List Happening} (hidle : Undeciding more)
    (hmore : ∀ entry ∈ more, ∀ scope id promise, entry ≠ .waited scope id promise)
    (hpast : after.past = m.past ++ more)
    (hsize : m.scopes.scopes.size ≤ after.scopes.scopes.size)
    (hpromises : after.scopes.promises = m.scopes.promises)
    (hwaiters : ∀ scope id, after.scopes.waiters scope id = m.scopes.waiters scope id)
    (hsinces : after.tellings.map Telling.since = m.tellings.map Telling.since)
    (htellings : ∀ later ∈ after.tellings, ∃ earlier ∈ m.tellings, earlier.Continues later) :
    Attended after := by
  constructor
  case there =>
    intro registered scope id promise hwaited
    rw [waited_iff_of_append hpast hmore] at hwaited
    exact Nat.lt_of_lt_of_le (h.there hwaited) hsize
  case state =>
    intro registered scope id promise hwaited
    rw [waited_iff_of_append hpast hmore] at hwaited
    rw [hpromises, hidle.verdict_eq hpast (lt_length_of_waited hwaited) hsinces]
    exact h.state hwaited
  case once =>
    intro registered again scope other id name promise hwaited hagain
    rw [waited_iff_of_append hpast hmore] at hwaited hagain
    exact h.once hwaited hagain
  case listed =>
    intro scope id promise
    rw [hwaiters, h.listed]
    exact (onRecord_iff_of_idle hpast hmore fun entry hmem => hidle entry hmem scope id).symm
  case taken =>
    intro later hlater promise
    obtain ⟨earlier, hearlier, hsame⟩ := htellings later hlater
    rw [hsame.waiters, hsame.scope, hsame.source, hsame.since, h.taken earlier hearlier]
    exact (onRecord_iff_of_idle hpast hmore fun entry hmem => hidle entry hmem _ _).symm

/-- Scopes in which the same waits are listed. -/
theorem Attended.leave (h : Attended m) {scopes : Scopes}
    (hsize : m.scopes.scopes.size ≤ scopes.scopes.size)
    (hpromises : scopes.promises = m.scopes.promises)
    (hwaiters : ∀ scope id, scopes.waiters scope id = m.scopes.waiters scope id) :
    Attended { m with scopes } :=
  h.idle (fun _ hnone => by cases hnone) (fun _ hnone => by cases hnone) (List.append_nil _).symm
    hsize hpromises hwaiters rfl fun later hlater => ⟨later, hlater, .refl later⟩

theorem Attended.leaves (h : Attended m) {scopes : Scopes} (hleaves : Leaves m.scopes scopes) :
    Attended { m with scopes } :=
  h.leave (Nat.le_of_eq hleaves.size.symm) hleaves.promises hleaves.waiters_eq

/-! ## Registering a wait -/

theorem Attended.lt_promises (h : Attended m)
    (hwaited : m.past[registered]? = some (.waited scope id promise)) :
    promise < m.scopes.promises.size := by
  obtain ⟨hlt, -⟩ := Array.getElem?_eq_some_iff.mp (h.state hwaited)
  exact hlt

section

variable {other : ScopeId} {name : String} {fresh : PromiseId} {decision : Option Nat}

theorem waited_iff_of_concat (hpast : after.past = m.past ++ [.waited scope id fresh]) :
    after.past[registered]? = some (.waited other name promise) ↔
      m.past[registered]? = some (.waited other name promise) ∨
        registered = m.past.length ∧ scope = other ∧ id = name ∧ fresh = promise := by
  rw [hpast, getElem?_concat_eq_some, Happening.waited.injEq]

/-- A wait that is put on record last is open. -/
theorem onRecord_iff_of_concat (hpast : after.past = m.past ++ [.waited scope id fresh]) :
    OnRecord after.past other name promise decision ↔
      OnRecord m.past other name promise decision ∨
        none = decision ∧ scope = other ∧ id = name ∧ fresh = promise := by
  have hopen : decision? after.past other name m.past.length = none := hpast ▸ decision?_last
  have hstill : ∀ {registered}, m.past[registered]? = some (.waited other name promise) →
      decision? after.past other name registered = decision? m.past other name registered := by
    intro registered hwaited
    rw [hpast]
    refine decision?_append_idle (lt_length_of_waited hwaited) fun entry hmem => ?_
    rw [List.mem_singleton.mp hmem]
    rfl
  constructor
  · rintro ⟨registered, hwaited, hdecision⟩
    rcases (waited_iff_of_concat hpast).mp hwaited with hold | ⟨rfl, hnew⟩
    · exact .inl ⟨registered, hold, hstill hold ▸ hdecision⟩
    · exact .inr ⟨hopen.symm.trans hdecision, hnew⟩
  · rintro (⟨registered, hold, hdecision⟩ | ⟨rfl, hnew⟩)
    · exact ⟨registered, (waited_iff_of_concat hpast).mpr (.inl hold), hstill hold ▸ hdecision⟩
    · exact ⟨m.past.length, (waited_iff_of_concat hpast).mpr (.inr ⟨rfl, hnew⟩), hopen⟩

end

/-- A new wait is listed. -/
theorem Attended.enlist (h : Attended m) (hlt : scope < m.scopes.scopes.size)
    (hsize : after.scopes.scopes.size = m.scopes.scopes.size)
    (htellings : after.tellings = m.tellings)
    (hpast : after.past = m.past ++ [.waited scope id m.scopes.promises.size])
    (hpromises : ∀ promise, after.scopes.promises.get? promise =
      if promise = m.scopes.promises.size then some { scope, id }
      else m.scopes.promises.get? promise)
    (hwaiters : ∀ other name, after.scopes.waiters other name =
      if scope = other ∧ id = name then m.scopes.waiters other name ++ [m.scopes.promises.size]
      else m.scopes.waiters other name) : Attended after := by
  have hidle : Undeciding [.waited scope id m.scopes.promises.size] := by
    intro entry hmem other name
    rw [List.mem_singleton.mp hmem]
    rfl
  have hsinces : after.tellings.map Telling.since = m.tellings.map Telling.since := by rw [htellings]
  constructor
  case there =>
    intro registered other name promise hregistered
    rw [hsize]
    rcases (waited_iff_of_concat hpast).mp hregistered with hold | ⟨-, rfl, -, -⟩
    · exact h.there hold
    · exact hlt
  case state =>
    intro registered other name promise hregistered
    rw [hpromises]
    rcases (waited_iff_of_concat hpast).mp hregistered with hold | ⟨rfl, rfl, rfl, rfl⟩
    · rw [if_neg (Nat.ne_of_lt (h.lt_promises hold)),
        hidle.verdict_eq hpast (lt_length_of_waited hold) hsinces]
      exact h.state hold
    · rw [if_pos rfl, verdict, hpast, decision?_last]
  case once =>
    intro registered again other another name title promise hregistered hagain
    rcases (waited_iff_of_concat hpast).mp hregistered with hold | ⟨rfl, -, -, rfl⟩ <;>
      rcases (waited_iff_of_concat hpast).mp hagain with hother | ⟨rfl, -, -, hnew⟩
    · exact h.once hold hother
    · exact absurd hnew.symm (Nat.ne_of_lt (h.lt_promises hold))
    · exact absurd rfl (Nat.ne_of_lt (h.lt_promises hother))
    · rfl
  case listed =>
    intro other name promise
    rw [onRecord_iff_of_concat hpast, hwaiters, ← h.listed]
    split
    · next hplace => simp [hplace.1, hplace.2, eq_comm]
    · next hplace => simp_all
  case taken =>
    intro telling htelling promise
    rw [onRecord_iff_of_concat hpast, h.taken telling (htellings ▸ htelling)]
    simp

theorem Attended.wait (h : Attended m) (hlt : scope < m.scopes.scopes.size)
    (hkept : m.scopes.isDisposed scope = false) (id : String) : Attended (m.act (.wait scope id)) := by
  have hleaves := leaves_bridge (m.scopes.awaiting scope (Unicode.lower id)) scope (Unicode.lower id)
  rw [act, wait_of_kept hkept]
  refine h.enlist hlt ?_ rfl rfl ?_ ?_
  · exact hleaves.size.trans (sameTree_awaiting m.scopes scope _).size
  · intro promise
    rw [hleaves.promises]
    exact Arena.get?_push _ _ _
  · intro other name
    rw [hleaves.waiters_eq, waiters_awaiting hlt]

/-! ## Beginning a broadcast -/

theorem waited_tell {origin : Option Nat} {other : ScopeId} {name : String} :
    (m.tell scope source origin).past[registered]? = some (.waited other name promise) ↔
      m.past[registered]? = some (.waited other name promise) :=
  waited_iff_of_append rfl fun entry hmem _ _ _ hsame => by
    rw [List.mem_singleton.mp hmem] at hsame
    cases hsame

theorem decision?_tell (origin : Option Nat) (other : ScopeId) (name : String)
    (hlt : registered < m.past.length) :
    decision? (m.tell scope source origin).past other name registered =
      if scope = other ∧ source.id = name then
        (decision? m.past other name registered).or (some m.past.length)
      else decision? m.past other name registered := by
  split
  · next hplace => exact decision?_concat hlt (by simp [Happening.decides, hplace.1, hplace.2])
  · next hplace =>
      refine decision?_append_idle hlt fun entry hmem => ?_
      rw [List.mem_singleton.mp hmem]
      simpa [Happening.decides] using hplace

/-- A broadcast that begins decides waits, and leaves what they have come to for its end. -/
theorem verdict_tell (origin : Option Nat) (other : ScopeId) (name : String)
    (hlt : registered < m.past.length) :
    (m.tell scope source origin).verdict other name registered = m.verdict other name registered := by
  rw [verdict, verdict, decision?_tell origin other name hlt]
  cases hdecision : decision? m.past other name registered with
  | none =>
      split
      · next hsome =>
          split at hsome
          · cases hsome
          · rfl
      · next decided hsome =>
          split at hsome
          · obtain rfl := Option.some.inj hsome
            simp [tell]
          · cases hsome
  | some decided =>
      have hless := decision?_lt hdecision
      have hentry : (m.tell scope source origin).past[decided]? = m.past[decided]? :=
        List.getElem?_append_left hless
      have hgoes : decided ∈ (m.tell scope source origin).tellings.map Telling.since ↔
          decided ∈ m.tellings.map Telling.since := by
        simp [tell, Nat.ne_of_lt hless]
      simp only [Option.some_or, ite_self, hentry, hgoes]

section

variable {entry : Happening} {decision : Option Nat}

/-- An entry that decides a wait does so if the wait is open. -/
theorem onRecord_iff_of_decides (hpast : after.past = m.past ++ [entry])
    (hdecides : entry.decides scope id = true) :
    OnRecord after.past scope id promise decision ↔
      ∃ earlier, OnRecord m.past scope id promise earlier ∧
        earlier.or (some m.past.length) = decision := by
  have hwaited : ∀ {registered : Nat},
      after.past[registered]? = some (.waited scope id promise) ↔
        m.past[registered]? = some (.waited scope id promise) := by
    intro registered
    refine waited_iff_of_append hpast fun other hmem _ _ _ hsame => ?_
    rw [← List.mem_singleton.mp hmem, hsame] at hdecides
    cases hdecides
  constructor
  · rintro ⟨registered, hregistered, hdecision⟩
    rw [hwaited] at hregistered
    rw [hpast, decision?_concat (lt_length_of_waited hregistered) hdecides] at hdecision
    exact ⟨_, ⟨registered, hregistered, rfl⟩, hdecision⟩
  · rintro ⟨_, ⟨registered, hregistered, rfl⟩, hdecision⟩
    refine ⟨registered, hwaited.mpr hregistered, ?_⟩
    rw [hpast, decision?_concat (lt_length_of_waited hregistered) hdecides, hdecision]

theorem not_onRecord_of_decides (hpast : after.past = m.past ++ [entry])
    (hdecides : entry.decides scope id = true) : ¬OnRecord after.past scope id promise none := by
  rw [onRecord_iff_of_decides hpast hdecides]
  rintro ⟨earlier, -, hopen⟩
  cases earlier <;> cases hopen

theorem onRecord_length_iff (hpast : after.past = m.past ++ [entry])
    (hdecides : entry.decides scope id = true) :
    OnRecord after.past scope id promise (some m.past.length) ↔
      OnRecord m.past scope id promise none := by
  rw [onRecord_iff_of_decides hpast hdecides]
  constructor
  · rintro ⟨_, ⟨registered, hregistered, rfl⟩, hnow⟩
    refine ⟨registered, hregistered, ?_⟩
    cases hdecision : decision? m.past scope id registered with
    | none => rfl
    | some decided =>
        rw [hdecision] at hnow
        exact absurd (Option.some.inj hnow) (Nat.ne_of_lt (decision?_lt hdecision))
  · exact fun hopen => ⟨none, hopen, rfl⟩

/-- What was decided before stays so. -/
theorem onRecord_earlier_iff (hpast : after.past = m.past ++ [entry])
    (hnew : ∀ scope id promise, entry ≠ .waited scope id promise) {since : Nat}
    (hless : since < m.past.length) :
    OnRecord after.past scope id promise (some since) ↔
      OnRecord m.past scope id promise (some since) := by
  cases hdecides : entry.decides scope id with
  | false =>
      refine onRecord_iff_of_idle hpast (fun other hmem => ?_) fun other hmem => ?_
      · exact List.mem_singleton.mp hmem ▸ hnew
      · exact List.mem_singleton.mp hmem ▸ hdecides
  | true =>
      rw [onRecord_iff_of_decides hpast hdecides]
      constructor
      · rintro ⟨earlier, hearlier, hsame⟩
        cases earlier with
        | none => exact absurd (Option.some.inj hsame) (Nat.ne_of_gt hless)
        | some decided => exact hsame ▸ hearlier
      · exact fun hdecided => ⟨_, hdecided, rfl⟩

end

/-- The waits for an id move from the list of their scope to a broadcast that begins. -/
theorem Attended.tell (h : Attended m) (horderly : Orderly m) (scope : ScopeId) (source : Source)
    (origin : Option Nat) : Attended (m.tell scope source origin) := by
  have hpast : (m.tell scope source origin).past = m.past ++ [.began scope source origin] := rfl
  have hnew : ∀ other name promise, Happening.began scope source origin ≠ .waited other name promise :=
    fun _ _ _ hsame => by cases hsame
  constructor
  case there =>
    intro registered other name promise hregistered
    rw [waited_tell] at hregistered
    exact (sameTree_takeWaiters m.scopes scope source.id).size ▸ h.there hregistered
  case state =>
    intro registered other name promise hregistered
    rw [waited_tell] at hregistered
    rw [verdict_tell origin other name (lt_length_of_waited hregistered)]
    exact h.state hregistered
  case once =>
    intro registered again other another name title promise hregistered hagain
    rw [waited_tell] at hregistered hagain
    exact h.once hregistered hagain
  case listed =>
    intro other name promise
    have hwaiters : (m.tell scope source origin).scopes.waiters other name =
        if scope = other ∧ source.id = name then [] else m.scopes.waiters other name :=
      waiters_takeWaiters m.scopes scope source.id other name
    rw [hwaiters]
    split
    · next hplace =>
        have hdecides : (Happening.began scope source origin).decides other name = true := by
          simp [Happening.decides, hplace.1, hplace.2]
        exact iff_of_false List.not_mem_nil (not_onRecord_of_decides hpast hdecides)
    · next hplace =>
        rw [h.listed]
        refine (onRecord_iff_of_idle hpast (fun entry hmem => ?_) fun entry hmem => ?_).symm
        · exact List.mem_singleton.mp hmem ▸ hnew
        · rw [List.mem_singleton.mp hmem]
          simpa [Happening.decides] using hplace
  case taken =>
    intro telling htelling promise
    rcases List.mem_cons.mp htelling with rfl | htelling
    · exact (h.listed scope source.id promise).trans
        (onRecord_length_iff hpast (by simp [Happening.decides])).symm
    · rw [h.taken telling htelling]
      exact (onRecord_earlier_iff hpast hnew (horderly.since_lt htelling)).symm

/-! ## Ending a broadcast -/

theorem undeciding_served (telling : Telling) :
    Undeciding (telling.waiters.map (Happening.served telling.since telling.scope)) := by
  intro entry hmem scope id
  obtain ⟨promise, -, rfl⟩ := List.mem_map.mp hmem
  rfl

/-- A broadcast has taken a wait if it is what decided it. -/
theorem Attended.taken_iff (h : Attended m) (horderly : Orderly m) (htelling : telling ∈ m.tellings)
    (hwaited : m.past[registered]? = some (.waited scope id promise)) :
    promise ∈ telling.waiters ↔ decision? m.past scope id registered = some telling.since := by
  rw [h.taken telling htelling promise]
  constructor
  · rintro ⟨again, hagain, hdecided⟩
    obtain rfl := h.once hwaited hagain
    rw [hwaited] at hagain
    obtain ⟨rfl, rfl, -⟩ := Happening.waited.inj (Option.some.inj hagain)
    exact hdecided
  · intro hdecided
    obtain ⟨-, entry, hentry, hdecides⟩ := decision?_spec hdecided
    obtain ⟨origin, hbegan⟩ := horderly.began telling htelling
    obtain rfl := Option.some.inj (hentry.symm.trans hbegan)
    obtain ⟨rfl, rfl⟩ : telling.scope = scope ∧ telling.source.id = id := by
      simpa [Happening.decides] using hdecides
    exact ⟨registered, hwaited, hdecided⟩

theorem Orderly.verdict_of_decision (h : Orderly m) (htelling : telling ∈ m.tellings)
    (hdecision : decision? m.past scope id registered = some telling.since) :
    m.verdict scope id registered = .pending := by
  obtain ⟨origin, hbegan⟩ := h.began telling htelling
  have hmem : telling.since ∈ m.tellings.map Telling.since := List.mem_map_of_mem htelling
  simp only [verdict, hdecision, hbegan, if_pos hmem]

theorem Orderly.verdict_serve (h : Orderly m) {others : List Telling}
    (htellings : m.tellings = telling :: others) (hlt : registered < m.past.length) :
    ({ m with tellings := others }.serve telling).verdict scope id registered =
      if decision? m.past scope id registered = some telling.since then .fulfilled telling.source
      else m.verdict scope id registered := by
  have hpast : ({ m with tellings := others }.serve telling).past = m.past ++
      telling.waiters.map (Happening.served telling.since telling.scope) := rfl
  rw [verdict, verdict, (undeciding_served telling).decision?_eq hpast hlt]
  cases hdecision : decision? m.past scope id registered with
  | none => rfl
  | some decided =>
      have hentry : ({ m with tellings := others }.serve telling).past[decided]? =
          m.past[decided]? := List.getElem?_append_left (decision?_lt hdecision)
      have hgoes : decided ∈ ({ m with tellings := others }.serve telling).tellings.map
          Telling.since ↔ decided ∈ others.map Telling.since := Iff.rfl
      have honce := h.once
      rw [htellings, List.map_cons, List.nodup_cons] at honce
      obtain ⟨origin, hbegan⟩ := h.began telling (htellings ▸ List.mem_cons_self)
      simp only [hentry, hgoes, htellings, List.map_cons, List.mem_cons, Option.some.injEq]
      by_cases hsince : decided = telling.since
      · subst hsince
        rw [hbegan, if_pos rfl]
        exact if_neg honce.1
      · rw [if_neg hsince]
        simp only [hsince, false_or]

/-- A broadcast that is over has served the waits it decided. -/
theorem Attended.serve (h : Attended m) (horderly : Orderly m) {others : List Telling}
    (htellings : m.tellings = telling :: others) :
    Attended ({ m with tellings := others }.serve telling) := by
  have hmem : telling ∈ m.tellings := htellings ▸ List.mem_cons_self
  have hidle := undeciding_served telling
  have hpast : ({ m with tellings := others }.serve telling).past = m.past ++
      telling.waiters.map (Happening.served telling.since telling.scope) := rfl
  have hnew : ∀ entry ∈ telling.waiters.map (Happening.served telling.since telling.scope),
      ∀ scope id promise, entry ≠ .waited scope id promise := by
    rintro entry hentry scope id promise rfl
    obtain ⟨served, -, hsame⟩ := List.mem_map.mp hentry
    cases hsame
  constructor
  case there =>
    intro registered scope id promise hregistered
    rw [waited_iff_of_append hpast hnew] at hregistered
    rw [Moment.serve, resolveAll_eq]
    exact h.there hregistered
  case state =>
    intro registered scope id promise hregistered
    rw [waited_iff_of_append hpast hnew] at hregistered
    rw [horderly.verdict_serve htellings (lt_length_of_waited hregistered)]
    refine (promises_resolveAll _ _ _ _).trans ?_
    rw [h.state hregistered]
    have htaken := h.taken_iff horderly hmem hregistered
    by_cases hdecision : decision? m.past scope id registered = some telling.since
    · rw [if_pos hdecision, horderly.verdict_of_decision hmem hdecision]
      simp [htaken.mpr hdecision]
    · rw [if_neg hdecision]
      have habsent : promise ∉ telling.waiters := fun hin => hdecision (htaken.mp hin)
      cases m.verdict scope id registered <;> simp [habsent]
  case once =>
    intro registered again scope other id name promise hregistered hagain
    rw [waited_iff_of_append hpast hnew] at hregistered hagain
    exact h.once hregistered hagain
  case listed =>
    intro scope id promise
    have hwaiters : ({ m with tellings := others }.serve telling).scopes.waiters scope id =
        m.scopes.waiters scope id := by
      rw [Moment.serve, resolveAll_eq]
      rfl
    rw [hwaiters, h.listed]
    exact (onRecord_iff_of_idle hpast hnew fun entry hmem => hidle entry hmem scope id).symm
  case taken =>
    intro other hother promise
    rw [h.taken other (htellings ▸ List.mem_cons_of_mem _ hother)]
    exact (onRecord_iff_of_idle hpast hnew fun entry hmem => hidle entry hmem _ _).symm

/-! ## Disposing -/

theorem mem_allWaiters {scopes : Scopes} :
    promise ∈ (scopes.look scope [] Scope.waiters).map Prod.snd ↔
      ∃ id, promise ∈ scopes.waiters scope id := by
  simp [Scopes.waiters]

/-- A scope has a wait listed if it is registered there and not decided. -/
theorem Attended.listed_iff (h : Attended m) (scope : ScopeId) {other : ScopeId}
    (hwaited : m.past[registered]? = some (.waited other id promise)) :
    promise ∈ (m.scopes.look scope [] Scope.waiters).map Prod.snd ↔
      scope = other ∧ decision? m.past other id registered = none := by
  rw [mem_allWaiters]
  constructor
  · rintro ⟨name, hmem⟩
    obtain ⟨again, hagain, hopen⟩ := (h.listed scope name promise).mp hmem
    obtain rfl := h.once hwaited hagain
    rw [hwaited] at hagain
    obtain ⟨rfl, rfl, -⟩ := Happening.waited.inj (Option.some.inj hagain)
    exact ⟨rfl, hopen⟩
  · rintro ⟨rfl, hopen⟩
    exact ⟨id, (h.listed scope id promise).mpr ⟨registered, hwaited, hopen⟩⟩

section

variable {other : ScopeId} {name : String}

theorem past_dispose (hkept : m.scopes.isDisposed scope = false) :
    (m.act (.dispose scope)).past = m.past ++ [.disposed scope] := by
  rw [act, hkept]
  rfl

theorem waited_dispose (hkept : m.scopes.isDisposed scope = false) :
    (m.act (.dispose scope)).past[registered]? = some (.waited other name promise) ↔
      m.past[registered]? = some (.waited other name promise) :=
  waited_iff_of_append (past_dispose hkept) fun entry hmem _ _ _ hsame => by
    rw [List.mem_singleton.mp hmem] at hsame
    cases hsame

theorem decision?_dispose (hkept : m.scopes.isDisposed scope = false)
    (hlt : registered < m.past.length) :
    decision? (m.act (.dispose scope)).past other name registered =
      if scope = other then (decision? m.past other name registered).or (some m.past.length)
      else decision? m.past other name registered := by
  rw [past_dispose hkept]
  split
  · next hscope => exact decision?_concat hlt (by simp [Happening.decides, hscope])
  · next hscope =>
      refine decision?_append_idle hlt fun entry hmem => ?_
      rw [List.mem_singleton.mp hmem]
      simpa [Happening.decides] using hscope

theorem verdict_dispose (hkept : m.scopes.isDisposed scope = false)
    (hlt : registered < m.past.length) :
    (m.act (.dispose scope)).verdict other name registered =
      if scope = other ∧ decision? m.past other name registered = none then .cancelled
      else m.verdict other name registered := by
  rw [verdict, verdict, decision?_dispose hkept hlt]
  cases hdecision : decision? m.past other name registered with
  | none =>
      have hlast : (m.act (.dispose scope)).past[m.past.length]? = some (.disposed scope) := by
        rw [past_dispose hkept, List.getElem?_concat_length]
      by_cases hscope : scope = other
      · subst hscope
        simp only [if_true, Option.none_or, hlast, and_self]
      · simp only [hscope, false_and, if_false]
  | some decided =>
      have hentry : (m.act (.dispose scope)).past[decided]? = m.past[decided]? := by
        rw [past_dispose hkept, List.getElem?_append_left (decision?_lt hdecision)]
      simp only [Option.some_or, ite_self, hentry, reduceCtorEq, and_false, if_false]
      rfl

end

/-- The waits in a scope that is disposed are cancelled, but for those that a broadcast has taken. -/
theorem Attended.dispose (h : Attended m) (horderly : Orderly m)
    (halive : m.scopes.isAlive scope = true) (hkept : m.scopes.isDisposed scope = false) :
    Attended (m.act (.dispose scope)) := by
  have hdisposes := horderly.backed.disposes (horderly.lt_size halive) hkept
  have hnew : ∀ other id promise, Happening.disposed scope ≠ .waited other id promise :=
    fun _ _ _ hsame => by cases hsame
  constructor
  case there =>
    intro registered other id promise hregistered
    rw [waited_dispose hkept] at hregistered
    exact hdisposes.tree.size ▸ h.there hregistered
  case state =>
    intro registered other id promise hregistered
    rw [waited_dispose hkept] at hregistered
    rw [verdict_dispose hkept (lt_length_of_waited hregistered)]
    refine (hdisposes.promises promise).trans ?_
    rw [h.state hregistered]
    have hlisted := h.listed_iff scope hregistered
    by_cases hplace : scope = other ∧ decision? m.past other id registered = none
    · rw [if_pos hplace, verdict, hplace.2]
      simp only [Option.map_some, if_pos (hlisted.mpr hplace)]
    · rw [if_neg hplace]
      have habsent := fun hin => hplace (hlisted.mp hin)
      cases m.verdict other id registered <;> simp only [Option.map_some, if_neg habsent]
  case once =>
    intro registered again other another id name promise hregistered hagain
    rw [waited_dispose hkept] at hregistered hagain
    exact h.once hregistered hagain
  case listed =>
    intro other id promise
    have hwaiters : (m.act (.dispose scope)).scopes.waiters other id =
        if scope = other then [] else m.scopes.waiters other id := hdisposes.waiters other id
    rw [hwaiters]
    split
    · next hscope =>
        have hdecides : (Happening.disposed scope).decides other id = true := by
          simp [Happening.decides, hscope]
        exact iff_of_false List.not_mem_nil (not_onRecord_of_decides (past_dispose hkept) hdecides)
    · next hscope =>
        rw [h.listed]
        refine (onRecord_iff_of_idle (past_dispose hkept) (fun entry hmem => ?_)
          fun entry hmem => ?_).symm
        · exact List.mem_singleton.mp hmem ▸ hnew
        · rw [List.mem_singleton.mp hmem]
          simpa [Happening.decides] using hscope
  case taken =>
    intro telling htelling promise
    rw [h.taken telling htelling]
    exact (onRecord_earlier_iff (past_dispose hkept) hnew (horderly.since_lt htelling)).symm

/-! ## Every moment -/

theorem Attended.receive (h : Attended m) (horderly : Orderly m) (scope : ScopeId) (source : Source)
    (origin : Option Nat) : Attended (m.receive scope source origin) := by
  rw [Moment.receive]
  split
  · exact h
  · have hleaves := (leaves_inherit m.scopes scope source.id).trans (leaves_put _ scope source)
    have hwires := (sameWires_inherit m.scopes scope source.id).trans (sameWires_put _ scope source)
    exact (h.leaves hleaves).tell (horderly.leave hleaves hwires) ..

theorem act_wait_of_disposed (h : m.scopes.isDisposed scope = true) (id : String) :
    m.act (.wait scope id) = m := by
  rw [act, wait_of_disposed h]
  exact congrArg (Moment.mk m.scopes m.tellings) (List.append_nil m.past)

theorem act_dispose_of_disposed (h : m.scopes.isDisposed scope = true) :
    m.act (.dispose scope) = m := by
  rw [act, dispose_of_disposed h, h]
  exact congrArg (Moment.mk m.scopes m.tellings) (List.append_nil m.past)

theorem Attended.act (h : Attended m) (horderly : Orderly m) (hallowed : m.Allows deed)
    (hkept : ∀ scope, deed ≠ .clear scope) : Attended (m.act deed) := by
  cases deed with
  | create parent settings =>
      refine h.leave ?_ rfl fun other id => ?_
      · rw [size_grow]
        exact Nat.le_succ _
      rw [Scopes.waiters, look_grow_of_blank (f := Scope.waiters) rfl, Scopes.waiters]
  | hold scope => exact h.leave (Nat.le_refl _) rfl fun _ _ => rfl
  | release scope => exact h.leave (Nat.le_refl _) rfl fun _ _ => rfl
  | subscribe scope id handler onlyHere =>
      have hleaves := leaves_register m.scopes scope id handler onlyHere
      refine h.idle ?_ ?_ rfl (Nat.le_of_eq hleaves.size.symm) hleaves.promises hleaves.waiters_eq rfl
        fun later hlater => ⟨later, hlater, .refl later⟩
      · intro entry hmem _ _
        obtain rfl := eq_of_mem_registered hmem
        rfl
      · intro entry hmem _ _ _ hsame
        obtain rfl := eq_of_mem_registered hmem
        cases hsame
  | unsubscribe scope id handler =>
      have hleaves := leaves_removeHandler m.scopes scope id handler
      exact h.leaves hleaves
  | wait scope id =>
      cases hdisposed : m.scopes.isDisposed scope with
      | true => exact (act_wait_of_disposed hdisposed id).symm ▸ h
      | false => exact h.wait (horderly.lt_size hallowed) hdisposed id
  | set scope source =>
      have hleaves := (leaves_own m.scopes scope source.id).trans
        (leaves_put _ scope (m.scopes.mergedWith scope source))
      have hwires := (sameWires_own m.scopes scope source.id).trans
        (sameWires_put _ scope (m.scopes.mergedWith scope source))
      exact (h.leaves hleaves).tell (horderly.leave hleaves hwires) ..
  | put scope source =>
      have hleaves := leaves_put m.scopes scope source
      exact (h.leaves hleaves).tell
        (horderly.leave hleaves (sameWires_put _ scope source)) ..
  | receive scope source => exact h.receive horderly scope source none
  | dispose scope =>
      cases hdisposed : m.scopes.isDisposed scope with
      | true => exact (act_dispose_of_disposed hdisposed).symm ▸ h
      | false => exact h.dispose horderly hallowed hdisposed
  | clear scope => exact absurd rfl (hkept scope)
  | arrange hosts deliveries => exact h.leave (Nat.le_refl _) rfl fun _ _ => rfl

/-- An entry that a call leaves behind. -/
theorem Attended.called (h : Attended m) {scopes : Scopes}
    (hsize : scopes.scopes.size = m.scopes.scopes.size)
    (hpromises : scopes.promises = m.scopes.promises)
    (hwaiters : ∀ scope id, scopes.waiters scope id = m.scopes.waiters scope id) (since : Nat)
    (scope : ScopeId) (handler : Handler) (source : Source) :
    Attended { m with scopes, past := m.past ++ [.called since scope handler source] } := by
  refine h.idle ?_ ?_ rfl (Nat.le_of_eq hsize.symm) hpromises hwaiters rfl
    fun later hlater => ⟨later, hlater, .refl later⟩
  · intro entry hmem _ _
    rw [List.mem_singleton.mp hmem]
    rfl
  · intro entry hmem _ _ _ hsame
    rw [List.mem_singleton.mp hmem] at hsame
    cases hsame

theorem Attended.call (h : Attended m) (horderly : Orderly m) (telling : Telling)
    (handler : Handler) : Attended (m.call telling handler) := by
  cases handler with
  | bridge child =>
      rw [Moment.call]
      split
      · exact h.receive horderly child telling.source (some telling.since)
      · exact h
  | host handler =>
      rw [Moment.call]
      refine h.called ?_ ?_ (fun _ _ => ?_) .. <;> rfl
  | trigger component =>
      rw [Moment.call]
      refine h.called ?_ ?_ (fun _ _ => ?_) .. <;> rfl

theorem Attended.proceed (h : Attended m) (horderly : Orderly m) : Attended m.proceed := by
  rw [Moment.proceed]
  split
  · exact h
  · next telling others htellings =>
      split
      · exact h.serve horderly htellings
      · next handler rest hhandlers =>
          have hshifted := horderly.shift htellings hhandlers
          have hon : Attended { m with tellings := { telling with handlers := rest } :: others } := by
            refine h.idle (fun _ hnone => by cases hnone) (fun _ hnone => by cases hnone)
              (List.append_nil _).symm (Nat.le_refl _) rfl (fun _ _ => rfl) ?_ ?_
            · rw [htellings]
              rfl
            · rw [htellings]
              refine List.forall_mem_cons.mpr ⟨⟨telling, List.mem_cons_self, ?_⟩, ?_⟩
              · exact ⟨rfl, rfl, rfl, rfl, hhandlers ▸ List.suffix_cons handler rest⟩
              · exact fun later hlater => ⟨later, List.mem_cons_of_mem _ hlater, .refl later⟩
          exact hon.call hshifted _ handler

theorem attended_first (settings : Fields) : Attended (first settings) := by
  constructor
  case there => exact fun hwaited => by cases hwaited
  case state => exact fun hwaited => by cases hwaited
  case once => exact fun hwaited => by cases hwaited
  case listed =>
    intro scope id promise
    have hnone : (first settings).scopes.waiters scope id = [] := by
      have hlook : (first settings).scopes.look scope [] Scope.waiters = [] :=
        (look_grow_of_blank rfl scope).trans (look_of_ge (Nat.zero_le scope))
      rw [Scopes.waiters, hlook]
      rfl
    rw [hnone]
    refine ⟨fun hmem => (by cases hmem), ?_⟩
    rintro ⟨_, hwaited, _⟩
    cases hwaited
  case taken => exact fun _ hnone => by cases hnone

theorem Later.attended (h : Later may m after) (hm : Attended m) (horderly : Orderly m)
    (hkept : ∀ {m deed scope}, may m deed → deed ≠ .clear scope) : Attended after := by
  induction h with
  | refl => exact hm
  | act before hallowed hpermitted ih =>
      exact ih.act (before.orderly horderly) hallowed fun scope => hkept hpermitted
  | proceed before ih => exact ih.proceed (before.orderly horderly)

/-! ## What became of a wait -/

theorem Attended.promiseState_eq (h : Attended m)
    (hwaited : m.past[registered]? = some (.waited scope id promise)) :
    m.scopes.promiseState promise =
      match m.verdict scope id registered with
      | .pending => if m.scopes.isAlive scope then .pending else .cancelled
      | state => state := by
  rw [promiseState, h.state hwaited]
  cases m.verdict scope id registered <;> rfl

/-- A wait goes on, or it was served, or it was cancelled; and each of these for one reason. -/
theorem Attended.outcome (h : Attended m) (horderly : Orderly m)
    (hwaited : m.past[registered]? = some (.waited scope id promise)) :
    (m.scopes.promiseState promise = .pending ∧ m.scopes.isAlive scope = true ∧
      (decision? m.past scope id registered = none ∨
        ∃ telling ∈ m.tellings, decision? m.past scope id registered = some telling.since)) ∨
    (∃ began source origin, decision? m.past scope id registered = some began ∧
      m.past[began]? = some (.began scope source origin) ∧ source.id = id ∧
      (∀ telling ∈ m.tellings, telling.since ≠ began) ∧
      m.scopes.promiseState promise = .fulfilled source) ∨
    (m.scopes.promiseState promise = .cancelled ∧
      ((∃ ended, decision? m.past scope id registered = some ended ∧
        m.past[ended]? = some (.disposed scope)) ∨
        decision? m.past scope id registered = none ∧ m.scopes.isAlive scope = false)) := by
  have hstate := h.promiseState_eq hwaited
  rw [verdict] at hstate
  cases hdecision : decision? m.past scope id registered with
  | none =>
      rw [hdecision] at hstate
      cases halive : m.scopes.isAlive scope with
      | true => exact .inl ⟨hstate.trans (if_pos halive), rfl, .inl rfl⟩
      | false =>
          have hdead : ¬m.scopes.isAlive scope = true := Bool.not_eq_true _ ▸ halive
          exact .inr (.inr ⟨hstate.trans (if_neg hdead), .inr ⟨rfl, rfl⟩⟩)
  | some decided =>
      obtain ⟨-, entry, hentry, hdecides⟩ := decision?_spec hdecision
      rw [hdecision] at hstate
      dsimp only at hstate
      rw [hentry] at hstate
      cases entry with
      | began other source origin =>
          obtain ⟨rfl, rfl⟩ : other = scope ∧ source.id = id := by
            simpa [Happening.decides] using hdecides
          dsimp only at hstate
          by_cases hgoes : decided ∈ m.tellings.map Telling.since
          · obtain ⟨telling, htelling, rfl⟩ := List.mem_map.mp hgoes
            have halive : m.scopes.isAlive other = true := by
              obtain ⟨_, hbegan⟩ := horderly.began telling htelling
              obtain ⟨rfl, -⟩ := Happening.began.inj (Option.some.inj (hentry.symm.trans hbegan))
              exact horderly.alive telling htelling
            rw [if_pos hgoes] at hstate
            exact .inl ⟨hstate.trans (if_pos halive), halive, .inr ⟨telling, htelling, rfl⟩⟩
          · rw [if_neg hgoes] at hstate
            refine .inr (.inl ⟨decided, source, origin, rfl, hentry, rfl, ?_, hstate⟩)
            exact fun telling htelling hsame => hgoes (hsame ▸ List.mem_map_of_mem htelling)
      | disposed other =>
          obtain rfl : other = scope := by simpa [Happening.decides] using hdecides
          exact .inr (.inr ⟨hstate, .inl ⟨decided, rfl, hentry⟩⟩)
      | waited _ _ _ => cases hdecides
      | registered _ _ _ => cases hdecides
      | called _ _ _ _ => cases hdecides
      | served _ _ _ => cases hdecides

theorem verdict_of_served {decided : Nat} {other : ScopeId} {origin : Option Nat}
    (hdecision : decision? m.past scope id registered = some decided)
    (hbegan : m.past[decided]? = some (.began other source origin))
    (hover : ∀ telling ∈ m.tellings, telling.since ≠ decided) :
    m.verdict scope id registered = .fulfilled source := by
  have hgone : decided ∉ m.tellings.map Telling.since := by
    intro hmem
    obtain ⟨telling, htelling, hsince⟩ := List.mem_map.mp hmem
    exact hover telling htelling hsince
  simp only [verdict, hdecision, hbegan, if_neg hgone]

theorem verdict_of_disposed {decided : Nat} {other : ScopeId}
    (hdecision : decision? m.past scope id registered = some decided)
    (hdisposed : m.past[decided]? = some (.disposed other)) :
    m.verdict scope id registered = .cancelled := by
  simp only [verdict, hdecision, hdisposed]

/-- A wait ends once. -/
theorem Later.promiseState_eq (h : Later may m after) (hm : Attended m) (horderly : Orderly m)
    (hkept : ∀ {m deed scope}, may m deed → deed ≠ .clear scope)
    (hwaited : m.past[registered]? = some (.waited scope id promise))
    (hended : m.scopes.promiseState promise ≠ .pending) :
    after.scopes.promiseState promise = m.scopes.promiseState promise := by
  have hfollows := h.follows horderly
  have hafter := h.attended hm horderly hkept
  have hstill := getElem?_of_extension hfollows.past hwaited
  have hdecided : ∀ {decided}, decision? m.past scope id registered = some decided →
      decision? after.past scope id registered = some decided := by
    intro decided hdecision
    obtain ⟨more, hpast⟩ := hfollows.past
    rw [← hpast, decision?_append (lt_length_of_waited hwaited), hdecision, Option.some_or]
  rcases hm.outcome horderly hwaited with ⟨hpending, -⟩ | ⟨began, source, origin, hdecision, hbegan,
    -, hover, hstate⟩ | ⟨hstate, ⟨ended, hdecision, hdisposed⟩ | ⟨hdecision, hdead⟩⟩
  · exact absurd hpending hended
  · -- The broadcast is over, and a later one has another number.
    have hgone : ∀ telling ∈ after.tellings, telling.since ≠ began := by
      rintro telling htelling rfl
      obtain ⟨earlier, hearlier, hsame⟩ := hfollows.tellings telling htelling (decision?_lt hdecision)
      exact hover earlier hearlier hsame.since.symm
    have hserved := verdict_of_served (hdecided hdecision)
      (getElem?_of_extension hfollows.past hbegan) hgone
    rw [hafter.promiseState_eq hstill, hserved, hstate]
  · have hcancelled := verdict_of_disposed (hdecided hdecision)
      (getElem?_of_extension hfollows.past hdisposed)
    rw [hafter.promiseState_eq hstill, hcancelled, hstate]
  · -- Nothing begins or ends in a scope that lives no more.
    have hopen : decision? after.past scope id registered = none := by
      cases hlater : decision? after.past scope id registered with
      | none => rfl
      | some decided =>
          obtain ⟨-, entry, hentry, hdecides⟩ := decision?_spec hlater
          obtain ⟨more, hpast⟩ := hfollows.past
          rw [← hpast, decision?_append (lt_length_of_waited hwaited), hdecision, Option.none_or]
            at hlater
          obtain ⟨index, -, rfl⟩ := Option.map_eq_some_iff.mp hlater
          exact absurd (place?_of_decides hdecides) (hfollows.quiet scope (hm.there hwaited) hdead _
            entry (Nat.le_add_right _ _) hentry)
    have hgone : after.scopes.isAlive scope = false := by
      rw [← Bool.not_eq_true] at hdead ⊢
      exact fun halive => hdead (hfollows.alive scope (hm.there hwaited) halive)
    rw [hafter.promiseState_eq hstill, verdict, hopen, hstate]
    exact if_neg (Bool.not_eq_true _ ▸ hgone)

end Moment

end ReactiveMarkup
