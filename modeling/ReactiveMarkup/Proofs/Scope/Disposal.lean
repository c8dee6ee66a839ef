import ReactiveMarkup.Proofs.Scope.Courses

/-!
# Disposing a scope

Disposing a scope takes down its bridges and empties its lists, once. What is set further up does not
come to it any more, as long as nobody sets up new bridges for it. Waiting in it is refused. But a
handler is registered in a scope without a look at whether it was disposed, and so is one below it, and
both set up bridges all the way up. A scope that was disposed before is not disposed again, so these
bridges stay.

Besides, a broadcast that is under way knows whom to call. Disposing a scope does not keep the
broadcasts of its parent from handing on what they were to hand on, nor its own from calling everybody.
-/

namespace ReactiveMarkup

namespace Scopes

variable {scopes before middle after : Scopes} {scope other parent : ScopeId} {id name : String}

/-! ## What scopes store -/

/-- Every scope stores what it stored, and the same of it came over a bridge. -/
structure SameSources (before after : Scopes) : Prop where
  sources : ∀ scope, after.look scope [] Scope.sources = before.look scope [] Scope.sources
  inherited : ∀ scope, after.look scope [] Scope.inherited = before.look scope [] Scope.inherited

theorem SameSources.refl (scopes : Scopes) : SameSources scopes scopes :=
  ⟨fun _ => rfl, fun _ => rfl⟩

theorem SameSources.trans (h : SameSources before middle) (h' : SameSources middle after) :
    SameSources before after :=
  ⟨fun scope => (h'.sources scope).trans (h.sources scope),
    fun scope => (h'.inherited scope).trans (h.inherited scope)⟩

theorem SameSources.of_scopes (h : after.scopes = before.scopes) : SameSources before after :=
  ⟨fun _ => look_of_scopes h _, fun _ => look_of_scopes h _⟩

theorem SameSources.stored?_eq (h : SameSources before after) (scope : ScopeId) (id : String) :
    after.stored? scope id = before.stored? scope id := by
  rw [stored?, h.sources, stored?]

theorem sameSources_modify (scopes : Scopes) {f : Scope → Scope}
    (h : ∀ cell, (f cell).sources = cell.sources)
    (hinherited : ∀ cell, (f cell).inherited = cell.inherited) :
    SameSources scopes (scopes.modify scope f) :=
  ⟨fun _ => look_modify scopes h, fun _ => look_modify scopes hinherited⟩

theorem sameSources_addLocalHandler (scopes : Scopes) (scope : ScopeId) (id : String)
    (handler : Handler) : SameSources scopes (scopes.addLocalHandler scope id handler).1 := by
  rw [addLocalHandler]
  split
  · exact .refl scopes
  · exact sameSources_modify scopes (fun _ => rfl) fun _ => rfl

theorem sameSources_bridge (scopes : Scopes) (scope : ScopeId) (id : String) :
    SameSources scopes (scopes.bridge scope id) := by
  have hsteps := bridge_connects scopes scope id
  generalize scopes.bridge scope id = after at hsteps ⊢
  induction hsteps with
  | refl => exact .refl scopes
  | @tail middle _ _ hstep ih =>
      obtain ⟨below, -, parent, -, rfl⟩ := hstep
      have hmarked : SameSources middle (middle.modify below fun cell =>
          { cell with bridges := Unicode.lower id :: cell.bridges }) :=
        sameSources_modify middle (fun _ => rfl) fun _ => rfl
      exact (ih.trans hmarked).trans (sameSources_addLocalHandler _ parent _ (.bridge below))

theorem sameSources_register (scopes : Scopes) (scope : ScopeId) (id : String) (handler : Handler)
    (onlyHere : Bool) : SameSources scopes (scopes.register scope id handler onlyHere).1 := by
  have hadded := sameSources_addLocalHandler scopes scope id handler
  rw [register]
  split
  · exact hadded
  · exact hadded.trans (sameSources_bridge _ scope id)

theorem sameSources_removeHandler (scopes : Scopes) (scope : ScopeId) (id : String)
    (handler : Handler) : SameSources scopes (scopes.removeHandler scope id handler).1 := by
  rw [removeHandler]
  split
  · exact sameSources_modify scopes (fun _ => rfl) fun _ => rfl
  · exact .refl scopes

theorem sameSources_wait (scopes : Scopes) (scope : ScopeId) (id : String) :
    SameSources scopes (scopes.wait scope id).1 := by
  cases hdisposed : scopes.isDisposed scope with
  | true =>
      rw [wait_of_disposed hdisposed]
      exact .refl scopes
  | false =>
      rw [wait_of_kept hdisposed]
      have hlisted : SameSources
          { scopes with promises := scopes.promises.push { scope, id := Unicode.lower id } }
          (scopes.awaiting scope (Unicode.lower id)) := sameSources_modify _ (fun _ => rfl) fun _ => rfl
      exact SameSources.trans ⟨hlisted.sources, hlisted.inherited⟩ (sameSources_bridge _ scope _)

theorem sameSources_clear (scopes : Scopes) (scope : ScopeId) :
    SameSources scopes (scopes.clear scope) :=
  ⟨fun other => look_clear (fun _ => rfl) scopes scope other,
    fun other => look_clear (fun _ => rfl) scopes scope other⟩

theorem sameSources_removeHandlers (ids : List String) (parent : ScopeId) (handler : Handler)
    (scopes : Scopes) : SameSources scopes
      (ids.foldl (fun scopes id => (scopes.removeHandler parent id handler).1) scopes) := by
  induction ids generalizing scopes with
  | nil => exact .refl scopes
  | cons first rest ih => exact (sameSources_removeHandler scopes parent first handler).trans (ih _)

theorem sameSources_dispose (scopes : Scopes) (scope : ScopeId) :
    SameSources scopes (scopes.dispose scope) := by
  cases hdisposed : scopes.isDisposed scope with
  | true =>
      rw [dispose_of_disposed hdisposed]
      exact .refl scopes
  | false =>
      have hmarked : SameSources scopes (scopes.markDisposed scope) :=
        sameSources_modify scopes (fun _ => rfl) fun _ => rfl
      have hcut : SameSources (scopes.markDisposed scope) ((scopes.markDisposed scope).modify scope
          fun cell => { cell with bridges := [] }) := sameSources_modify _ (fun _ => rfl) fun _ => rfl
      rw [dispose_of_kept hdisposed, removeBridges]
      refine (hmarked.trans hcut).trans (.trans ?_ (sameSources_clear _ scope))
      split
      · exact sameSources_removeHandlers _ _ (.bridge scope) _
      · exact .refl _

/-! ## Bridges of others -/

/-- Setting up bridges along a lineage concerns those in the lineage. -/
theorem hasBridge_bridge_of_not_mem (h : other ∉ scopes.lineage scope) (id name : String) :
    (scopes.bridge scope id).hasBridge other name = scopes.hasBridge other name := by
  have hsteps := bridge_connects scopes scope id
  generalize scopes.bridge scope id = after at hsteps ⊢
  induction hsteps with
  | refl => rfl
  | tail _ hstep ih =>
      obtain ⟨below, hbelow, parent, hparent, rfl⟩ := hstep
      rw [← ih, Bool.eq_iff_iff, hasBridge_connect hparent, or_iff_left]
      rintro ⟨rfl, -⟩
      exact h hbelow

theorem hasBridge_register_of_far {onlyHere : Bool} {handler : Handler}
    (h : onlyHere = false → other ∉ scopes.lineage scope) (id name : String) :
    (scopes.register scope id handler onlyHere).1.hasBridge other name =
      scopes.hasBridge other name := by
  cases onlyHere with
  | true => exact hasBridge_addLocalHandler handler other
  | false =>
      have hfar : other ∉ (scopes.addLocalHandler scope id handler).1.lineage scope := by
        rw [(leaves_addLocalHandler scopes scope id handler).lineage]
        exact h rfl
      exact (hasBridge_bridge_of_not_mem hfar id name).trans (hasBridge_addLocalHandler handler other)

theorem hasBridge_wait_of_far (h : scopes.isDisposed scope = false → other ∉ scopes.lineage scope)
    (id name : String) :
    (scopes.wait scope id).1.hasBridge other name = scopes.hasBridge other name := by
  cases hdisposed : scopes.isDisposed scope with
  | true => rw [wait_of_disposed hdisposed]
  | false =>
      rw [wait_of_kept hdisposed]
      have hfar : other ∉ (scopes.awaiting scope (Unicode.lower id)).lineage scope := by
        rw [(sameTree_awaiting scopes scope _).lineage]
        exact h hdisposed
      exact (hasBridge_bridge_of_not_mem hfar _ name).trans (hasBridge_awaiting scope _ other name)

end Scopes

/-- Whether a deed sets up bridges for somebody in a scope or below it. Waiting in the scope itself does
not, if it was disposed. -/
def Deed.ListensBelow (scopes : Scopes) (top : ScopeId) : Deed → Prop
  | .subscribe scope _ _ onlyHere => onlyHere = false ∧ top ∈ scopes.lineage scope
  | .wait scope _ => scope ≠ top ∧ top ∈ scopes.lineage scope
  | _ => False

namespace Moment

open Scopes

variable {start m after : Moment} {may : Moment → Deed → Prop} {scope top : ScopeId} {source : Source}
  {telling : Telling} {handler : Handler} {deed : Deed}

/-- A broadcast was under way at a moment and was to hand a source to a scope. -/
def Owes (start : Moment) (top : ScopeId) (since : Nat) (source : Source) : Prop :=
  ∃ telling ∈ start.tellings, telling.since = since ∧ telling.source = source ∧
    .bridge top ∈ telling.handlers

/-- Nothing comes to a scope that was not on its way at the start. -/
structure Detached (start : Moment) (top : ScopeId) (m : Moment) : Prop where
  disposed : m.scopes.isDisposed top = true
  cut : ∀ id, m.scopes.hasBridge top id = false
  owed : ∀ telling ∈ m.tellings, .bridge top ∈ telling.handlers →
    start.Owes top telling.since telling.source
  handed : ∀ index source since, start.past.length ≤ index →
    m.past[index]? = some (.began top source (some since)) → start.Owes top since source
  stored : ∀ id, m.scopes.stored? top id = start.scopes.stored? top id ∨
    ∃ index source origin, start.past.length ≤ index ∧
      m.past[index]? = some (.began top source origin) ∧ source.id = id

theorem Detached.not_mem_handlers (h : Detached start top m) (horderly : Orderly m)
    (scope : ScopeId) (id : String) : .bridge top ∉ m.scopes.handlers scope id := by
  intro hmem
  have hbridge := (horderly.backed.back scope id top hmem).2
  rw [h.cut] at hbridge
  cases hbridge

/-- Nothing begins, and nothing is stored. -/
theorem Detached.idle (h : Detached start top m)
    (hdisposed : ∀ scope, m.scopes.isDisposed scope = true → after.scopes.isDisposed scope = true)
    (hcut : ∀ id, after.scopes.hasBridge top id = false)
    (hsources : SameSources m.scopes after.scopes)
    (htellings : ∀ later ∈ after.tellings, ∃ earlier ∈ m.tellings, earlier.Continues later)
    {more : List Happening} (hpast : after.past = m.past ++ more)
    (hmore : ∀ entry ∈ more, ∀ scope source origin, entry ≠ .began scope source origin) :
    Detached start top after := by
  constructor
  case disposed => exact hdisposed top h.disposed
  case cut => exact hcut
  case owed =>
    intro later hlater hbridge
    obtain ⟨earlier, hearlier, hsame⟩ := htellings later hlater
    rw [hsame.since, hsame.source]
    exact h.owed earlier hearlier (hsame.handlers.subset hbridge)
  case handed =>
    intro index source since hindex hbegan
    rcases Nat.lt_or_ge index m.past.length with hlt | hge
    · exact h.handed index source since hindex
        (getElem?_of_extension_of_lt ⟨more, hpast.symm⟩ hlt hbegan)
    · rw [hpast, List.getElem?_append_right hge] at hbegan
      exact absurd rfl (hmore _ (List.mem_of_getElem? hbegan) top source (some since))
  case stored =>
    intro id
    rw [hsources.stored?_eq]
    refine (h.stored id).imp_right ?_
    rintro ⟨index, source, origin, hindex, hbegan, hid⟩
    exact ⟨index, source, origin, hindex, getElem?_of_extension ⟨more, hpast.symm⟩ hbegan, hid⟩

/-- A source is stored in a scope and told there. If it is the disposed one, the source was set in it
directly or was on its way. -/
theorem Detached.store (h : Detached start top m) (horderly : Orderly m)
    (hextends : start.past <+: m.past) {scopes : Scopes} (hleaves : Leaves m.scopes scopes)
    (hwires : SameWires m.scopes scopes)
    (hsources : ∀ id, ¬(scope = top ∧ source.id = id) →
      scopes.stored? top id = m.scopes.stored? top id) {origin : Option Nat}
    (howed : scope = top → ∀ since, origin = some since → start.Owes top since source) :
    Detached start top ({ m with scopes }.tell scope source origin) := by
  have hpast : ({ m with scopes }.tell scope source origin).past =
      m.past ++ [.began scope source origin] := rfl
  have hmore : m.past <+: ({ m with scopes }.tell scope source origin).past := List.prefix_append _ _
  constructor
  case disposed =>
    have hsame : (scopes.takeWaiters scope source.id).isDisposed top = scopes.isDisposed top :=
      look_modify scopes fun _ => rfl
    exact hsame.trans ((hleaves.disposed top).trans h.disposed)
  case cut =>
    intro id
    have hsame : (scopes.takeWaiters scope source.id).hasBridge top id = scopes.hasBridge top id :=
      hasBridge_modify fun _ => rfl
    exact hsame.trans ((hwires.bridges top id).trans (h.cut id))
  case owed =>
    intro later hlater hbridge
    rcases List.mem_cons.mp hlater with rfl | hlater
    · -- A broadcast that begins now goes through the list as it is now.
      have hmem : .bridge top ∈ m.scopes.handlers scope source.id :=
        hwires.handlers scope source.id ▸ hbridge
      exact absurd hmem (h.not_mem_handlers horderly scope source.id)
    · exact h.owed later hlater hbridge
  case handed =>
    intro index given since hindex hbegan
    rw [hpast, getElem?_concat_eq_some] at hbegan
    rcases hbegan with hold | ⟨-, hsame⟩
    · exact h.handed index given since hindex hold
    · obtain ⟨rfl, rfl, rfl⟩ := Happening.began.inj hsame
      exact howed rfl since rfl
  case stored =>
    intro id
    have hsame : ({ m with scopes }.tell scope source origin).scopes.stored? top id =
        scopes.stored? top id := stored?_modify fun _ => rfl
    by_cases hplace : scope = top ∧ source.id = id
    · obtain ⟨rfl, rfl⟩ := hplace
      refine .inr ⟨m.past.length, source, origin, hextends.length_le, ?_, rfl⟩
      exact List.getElem?_concat_length
    · rw [hsame, hsources id hplace]
      refine (h.stored id).imp_right ?_
      rintro ⟨index, given, since, hindex, hbegan, hid⟩
      exact ⟨index, given, since, hindex, getElem?_of_extension hmore hbegan, hid⟩

theorem Detached.receive (h : Detached start top m) (horderly : Orderly m)
    (hextends : start.past <+: m.past) (scope : ScopeId) (source : Source) {origin : Option Nat}
    (howed : scope = top → ∀ since, origin = some since → start.Owes top since source) :
    Detached start top (m.receive scope source origin) := by
  rw [Moment.receive]
  split
  · exact h
  · refine h.store horderly hextends
      ((leaves_inherit m.scopes scope source.id).trans (leaves_put _ scope source))
      ((sameWires_inherit m.scopes scope source.id).trans (sameWires_put _ scope source)) ?_ howed
    intro id hplace
    exact (stored?_put_of_ne hplace).trans stored?_inherit

/-- Entries that begin no broadcast. -/
theorem Detached.leave (h : Detached start top m) {scopes : Scopes}
    (hdisposed : ∀ scope, m.scopes.isDisposed scope = true → scopes.isDisposed scope = true)
    (hcut : ∀ id, scopes.hasBridge top id = false) (hsources : SameSources m.scopes scopes)
    {more : List Happening}
    (hmore : ∀ entry ∈ more, ∀ scope source origin, entry ≠ .began scope source origin) :
    Detached start top { m with scopes, past := m.past ++ more } :=
  h.idle hdisposed hcut hsources (fun later hlater => ⟨later, hlater, .refl later⟩) rfl hmore

theorem Detached.rescope (h : Detached start top m) {scopes : Scopes}
    (hdisposed : ∀ scope, m.scopes.isDisposed scope = true → scopes.isDisposed scope = true)
    (hcut : ∀ id, scopes.hasBridge top id = false) (hsources : SameSources m.scopes scopes) :
    Detached start top { m with scopes } :=
  h.idle hdisposed hcut hsources (fun later hlater => ⟨later, hlater, .refl later⟩)
    (List.append_nil _).symm fun _ hnone => by cases hnone

theorem Detached.act (h : Detached start top m) (horderly : Orderly m)
    (hextends : start.past <+: m.past) (hallowed : m.Allows deed)
    (hfar : ¬deed.ListensBelow m.scopes top) : Detached start top (m.act deed) := by
  have hdirect : ∀ {scope : ScopeId} {source : Source}, scope = top →
      ∀ since, none = some since → start.Owes top since source :=
    fun _ _ hsome => by cases hsome
  cases deed with
  | create parent settings =>
      refine h.rescope ?_ ?_ ?_
      · exact fun scope hdisposed => (look_grow_of_blank rfl scope).trans hdisposed
      · exact fun id => (hasBridge_grow _ settings top).trans (h.cut id)
      · exact ⟨fun scope => look_grow_of_blank rfl scope, fun scope => look_grow_of_blank rfl scope⟩
  | hold scope => exact h.rescope (fun _ hdisposed => hdisposed) h.cut (.of_scopes rfl)
  | release scope => exact h.rescope (fun _ hdisposed => hdisposed) h.cut (.of_scopes rfl)
  | subscribe scope id handler onlyHere =>
      have hleaves := leaves_register m.scopes scope id handler onlyHere
      refine h.leave (fun other hdisposed => (hleaves.disposed other).trans hdisposed) ?_
        (sameSources_register m.scopes scope id handler onlyHere) fun entry hmem _ _ _ hsame => ?_
      · intro name
        refine Eq.trans (hasBridge_register_of_far ?_ id name) (h.cut name)
        exact fun hopen hmem => hfar ⟨hopen, hmem⟩
      · obtain rfl := eq_of_mem_registered hmem
        cases hsame
  | unsubscribe scope id handler =>
      have hleaves := leaves_removeHandler m.scopes scope id handler
      refine h.rescope (fun other hdisposed => (hleaves.disposed other).trans hdisposed) ?_
        (sameSources_removeHandler m.scopes scope id handler)
      exact fun name => (hasBridge_removeHandler handler top).trans (h.cut name)
  | wait scope id =>
      refine h.leave (fun other hdisposed => (isDisposed_wait m.scopes scope id other).trans hdisposed)
        ?_ (sameSources_wait m.scopes scope id) fun entry hmem _ _ _ hsame => ?_
      · intro name
        refine Eq.trans (hasBridge_wait_of_far ?_ id name) (h.cut name)
        -- The scope itself refuses to wait, as it is disposed.
        intro hkept hmem
        refine hfar ⟨?_, hmem⟩
        rintro rfl
        rw [h.disposed] at hkept
        cases hkept
      · obtain ⟨promise, rfl⟩ := eq_of_mem_waited hmem
        cases hsame
  | set scope source =>
      have hid := id_mergedWith m.scopes scope source
      refine h.store horderly hextends
        ((leaves_own m.scopes scope source.id).trans (leaves_put _ scope _))
        ((sameWires_own m.scopes scope source.id).trans (sameWires_put _ scope _)) ?_ hdirect
      exact fun id hplace => (stored?_put_of_ne hplace).trans stored?_own
  | put scope source =>
      exact h.store horderly hextends (leaves_put m.scopes scope source)
        (sameWires_put m.scopes scope source) (fun id hplace => stored?_put_of_ne hplace) hdirect
  | receive scope source => exact h.receive horderly hextends scope source hdirect
  | dispose scope =>
      obtain ⟨-, -, hdisposes⟩ := horderly.backed.dispose (horderly.lt_size hallowed)
      refine h.leave ?_ ?_ (sameSources_dispose m.scopes scope) fun entry hmem _ _ _ hsame => ?_
      · intro other hdisposed
        rw [hdisposes, hdisposed]
        rfl
      · intro name
        cases hdisposed : m.scopes.isDisposed scope with
        | true =>
            rw [dispose_of_disposed hdisposed]
            exact h.cut name
        | false =>
            rw [(horderly.backed.disposes (horderly.lt_size hallowed) hdisposed).bridges, h.cut,
              Bool.and_false]
      · obtain rfl := eq_of_mem_disposed hmem
        cases hsame
  | clear scope =>
      refine h.rescope ?_ ?_ (sameSources_clear m.scopes scope)
      · exact fun other hdisposed => (look_clear (fun _ => rfl) m.scopes scope other).trans hdisposed
      · exact fun name => (hasBridge_clear m.scopes scope top name).trans (h.cut name)
  | arrange hosts deliveries => exact h.rescope (fun _ hdisposed => hdisposed) h.cut (.of_scopes rfl)

theorem Detached.call (h : Detached start top m) (horderly : Orderly m)
    (hextends : start.past <+: m.past)
    (howed : handler = .bridge top → start.Owes top telling.since telling.source) :
    Detached start top (m.call telling handler) := by
  have hcalled : ∀ handler : Handler, ∀ entry ∈
      [Happening.called telling.since telling.scope handler telling.source],
        ∀ scope source origin, entry ≠ .began scope source origin := by
    intro handler entry hmem scope source origin hsame
    rw [List.mem_singleton.mp hmem] at hsame
    cases hsame
  cases handler with
  | bridge child =>
      rw [Moment.call]
      split
      · refine h.receive horderly hextends child telling.source ?_
        rintro rfl since hsome
        exact Option.some.inj hsome ▸ howed rfl
      · exact h
  | host handler =>
      rw [Moment.call]
      refine h.leave ?_ ?_ ?_ (hcalled _)
      · exact fun _ hdisposed => hdisposed
      · exact h.cut
      · exact .of_scopes rfl
  | trigger component =>
      rw [Moment.call]
      refine h.leave ?_ ?_ ?_ (hcalled _)
      · exact fun _ hdisposed => hdisposed
      · exact h.cut
      · exact .of_scopes rfl

theorem Detached.proceed (h : Detached start top m) (horderly : Orderly m)
    (hextends : start.past <+: m.past) : Detached start top m.proceed := by
  rw [Moment.proceed]
  split
  · exact h
  · next telling others htellings =>
      have hmem : telling ∈ m.tellings := htellings ▸ List.mem_cons_self
      split
      · refine h.idle ?_ ?_ ?_ ?_ rfl fun entry hmem _ _ _ hsame => ?_
        · intro other hdisposed
          rw [serve, resolveAll_eq]
          exact hdisposed
        · intro id
          rw [serve, resolveAll_eq]
          exact h.cut id
        · rw [serve, resolveAll_eq]
          exact .of_scopes rfl
        · exact fun later hlater =>
            ⟨later, htellings ▸ List.mem_cons_of_mem _ hlater, .refl later⟩
        · obtain ⟨promise, -, rfl⟩ := List.mem_map.mp hmem
          cases hsame
      · next handler rest hhandlers =>
          have hon : Detached start top
              { m with tellings := { telling with handlers := rest } :: others } := by
            refine ⟨h.disposed, h.cut, List.forall_mem_cons.mpr ⟨fun hbridge => ?_, ?_⟩, h.handed,
              h.stored⟩
            · exact h.owed telling hmem (hhandlers ▸ List.mem_cons_of_mem _ hbridge)
            · exact fun later hlater => h.owed later (htellings ▸ List.mem_cons_of_mem _ hlater)
          refine hon.call (horderly.shift htellings hhandlers) hextends ?_
          rintro rfl
          exact h.owed telling hmem (hhandlers ▸ List.mem_cons_self)

/-- A scope that is disposed is detached at once, but for what is on its way. -/
theorem Orderly.detached (h : Orderly m) (halive : m.scopes.isAlive top = true)
    (hkept : m.scopes.isDisposed top = false) :
    Detached (m.act (.dispose top)) top (m.act (.dispose top)) := by
  have hdisposes := h.backed.disposes (h.lt_size halive) hkept
  constructor
  case disposed => exact (hdisposes.disposed top).trans (by simp)
  case cut => exact fun id => (hdisposes.bridges top id).trans (by simp)
  case owed => exact fun telling htelling hbridge => ⟨telling, htelling, rfl, rfl, hbridge⟩
  case handed =>
    intro index source since hindex hbegan
    exact absurd (List.getElem?_eq_some_iff.mp hbegan).1 (Nat.not_lt_of_le hindex)
  case stored => exact fun _ => .inl rfl

theorem Later.detached (h : Later may start after) (horderly : Orderly start)
    (hstart : Detached start top start)
    (hfar : ∀ {m deed}, may m deed → ¬deed.ListensBelow m.scopes top) :
    Detached start top after := by
  induction h with
  | refl => exact hstart
  | act before hallowed hpermitted ih =>
      exact ih.act (before.orderly horderly) (before.follows horderly).past hallowed
        (hfar hpermitted)
  | proceed before ih => exact ih.proceed (before.orderly horderly) (before.follows horderly).past

/-- A scope is disposed, and from then on nobody registers with bridges in it or below it, and nobody
waits below it. Then nothing leads to it any more. A source that is handed to it comes from a broadcast
that was under way, and has not got to the scope yet. Whoever is called or served in it, is so on behalf
of a broadcast of the scope that was under way or of one that began later, in the scope itself or because
it was handed on in this way. And what the scope stores has changed with such a broadcast only. -/
theorem dispose_detaches {before : Moment → Deed → Prop} (h : Reached before m)
    (halive : m.scopes.isAlive top = true) (hkept : m.scopes.isDisposed top = false)
    (hfar : ∀ {m deed}, may m deed → ¬deed.ListensBelow m.scopes top)
    (hlater : Later may (m.act (.dispose top)) after) :
    (∀ scope id, .bridge top ∉ after.scopes.handlers scope id) ∧
    (∀ index source since, m.past.length < index →
      after.past[index]? = some (.began top source (some since)) →
        ∃ telling ∈ m.tellings, telling.since = since ∧ telling.source = source ∧
          .bridge top ∈ telling.handlers) ∧
    (∀ index entry since, m.past.length < index → after.past[index]? = some entry →
      entry.partOf = some (since, top) →
        (∃ telling ∈ m.tellings, telling.since = since ∧ telling.scope = top) ∨
          m.past.length < since ∧
            ∃ source origin, after.past[since]? = some (.began top source origin)) ∧
    ∀ id, after.scopes.stored? top id = m.scopes.stored? top id ∨
      ∃ index source origin, m.past.length < index ∧
        after.past[index]? = some (.began top source origin) ∧ source.id = id := by
  have horderly := h.orderly
  have hstart : Orderly (m.act (.dispose top)) := horderly.act halive
  have hlength : (m.act (.dispose top)).past.length = m.past.length + 1 := by
    rw [act, hkept]
    exact List.length_append
  have hdetached := hlater.detached hstart (horderly.detached halive hkept) hfar
  have hfollows := hlater.follows hstart
  have hafter := hlater.orderly hstart
  refine ⟨hdetached.not_mem_handlers hafter, ?_, ?_, ?_⟩
  · intro index source since hindex hbegan
    exact hdetached.handed index source since (hlength ▸ hindex) hbegan
  · intro index entry since hindex hentry hpart
    obtain ⟨source, origin, hbegan⟩ := hafter.parts entry (List.mem_of_getElem? hentry) since top hpart
    rcases hfollows.parts index entry since top (hlength ▸ hindex) hentry hpart with
      hnew | ⟨telling, htelling, rfl⟩
    · rw [hlength] at hnew
      exact .inr ⟨hnew, source, origin, hbegan⟩
    · obtain ⟨_, hthen⟩ := hstart.began telling htelling
      have hsame := getElem?_of_extension hfollows.past hthen
      obtain ⟨hscope, -⟩ := Happening.began.inj (Option.some.inj (hsame.symm.trans hbegan))
      exact .inl ⟨telling, htelling, rfl, hscope⟩
  · intro id
    refine (hdetached.stored id).imp ?_ ?_
    · exact fun hsame => hsame.trans ((sameSources_dispose m.scopes top).stored?_eq top id)
    · rintro ⟨index, source, origin, hindex, hbegan, hid⟩
      exact ⟨index, source, origin, Nat.lt_of_lt_of_le (hlength ▸ Nat.lt_succ_self _) hindex, hbegan,
        hid⟩

/-- Nobody registers or waits below the second scope. -/
def SparesChild (m : Moment) (deed : Deed) : Prop := ¬deed.ListensBelow m.scopes 1

/-- A child scope in which somebody listens. -/
def attentiveChild : Moment :=
  ((first []).act (.create 0 [])).act (.subscribe 1 "db.items" (.trigger 0) false)

/-- The child is disposed, and a source is set in its parent and told to the end. -/
def disposedChild : Moment :=
  ((attentiveChild.act (.dispose 1)).act (.set 0 (itemsOf "a"))).proceed

theorem disposed_child_detached :
    .bridge 1 ∈ attentiveChild.scopes.handlers 0 "db.items" ∧
      .bridge 1 ∉ disposedChild.scopes.handlers 0 "db.items" := by
  have hreached : Reached (fun _ _ => True) attentiveChild := by
    have hcreated : Later (fun _ _ => True) (first []) ((first []).act (.create 0 [])) :=
      .act .refl (by exact (by decide +kernel : (first []).scopes.isAlive 0 = true)) trivial
    have hchild : ((first []).act (.create 0 [])).scopes.isAlive 1 = true := by decide +kernel
    exact ⟨[], .act hcreated ⟨hchild, fun child hsame => by cases hsame⟩ trivial⟩
  have hchild : attentiveChild.scopes.isAlive 1 = true := by decide +kernel
  have hkept : attentiveChild.scopes.isDisposed 1 = false := by decide +kernel
  have hroot : (attentiveChild.act (.dispose 1)).scopes.isAlive 0 = true := by decide +kernel
  have hset : Later SparesChild (attentiveChild.act (.dispose 1))
      ((attentiveChild.act (.dispose 1)).act (.set 0 (itemsOf "a"))) :=
    .act .refl ⟨hroot, lower_id_make ..⟩ id
  have hbridge : .bridge 1 ∈ attentiveChild.scopes.handlers 0 "db.items" := by decide +kernel
  exact ⟨hbridge,
    (dispose_detaches hreached hchild hkept (fun hmay => hmay) (.proceed hset)).1 0 "db.items"⟩

end Moment

namespace Scopes

/-- A child scope that was disposed before anybody listened in it. -/
def goneChild : Scopes := (((create {} none).1.hold 0).grow (some 0) []).dispose 1

/-- Somebody registers in the child all the same. -/
def reattachedChild : Scopes := (goneChild.addHandler 1 "db.items" (.trigger 0)).1

/-- A handler of the parent disposes a child that is to be handed the source next. -/
def overtakenChild : Scopes :=
  let tree := ((create {} none).1.hold 0).grow (some 0) []
  let tree := { tree with hosts := Arena.empty.push { name := "h", actions := [.dispose 1] } }
  ((tree.addHandler 0 "db.items" (.host 0)).1.addHandler 1 "db.items" (.trigger 0)).1

/-- Registering in a disposed scope leads the sources of its parent to it again, although it stays
disposed, and disposing it once more does not help. And a broadcast of the parent that is under way
reaches a scope that one of its handlers has disposed. -/
theorem disposed_child_reached :
    goneChild.isDisposed 1 = true ∧ goneChild.handlers 0 "db.items" = [] ∧
    (reattachedChild.dispose 1).handlers 0 "db.items" = [.bridge 1] ∧
    ((reattachedChild.dispose 1).set 0 (itemsOf "a")).1.deliveries.length = 1 ∧
    ((reattachedChild.dispose 1).set 0 (itemsOf "a")).1.ids 1 = ["db.items"] ∧
    (overtakenChild.set 0 (itemsOf "a")).1.isDisposed 1 = true ∧
    (overtakenChild.set 0 (itemsOf "a")).1.ids 1 = ["db.items"] := by
  decide +kernel

end Scopes

end ReactiveMarkup
