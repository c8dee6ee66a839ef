import ReactiveMarkup.Proofs.Scope.Courses

/-!
# Last told, last stored

Who is called with a source is called with what is stored, and a copy that is handed on is what the
parent sees. That does not make it so in the end: if an id is set again while it is told, the new
source is told to everybody at once, and then the old one to those who are still on the list. They are
left with the old source, and so are the copies in child scopes, for good.

It does not come to that if nobody is so hasty: an id is not set while a broadcast of the same id is
under way in the scope, or anywhere below where the source would come down to. A handler may set other
ids as it likes, and the same id in a scope of its own. Then every broadcast that is under way tells
what its scope sees at this moment. This is what carries the invariant: setting a source makes copies
and calls out of date only where the new broadcast will get to. When no broadcast of an id is left,
everybody was last told what is stored.
-/

namespace ReactiveMarkup

open Relation

namespace Scopes

variable {scopes before after : Scopes} {direct seen later : Direct} {scope other upper : ScopeId}
  {id name : String} {source : Source} {handler : Handler}

/-- Whether a scope stores a source of its own under an id. -/
def owns (scopes : Scopes) (scope : ScopeId) (id : String) : Bool :=
  (scopes.stored? scope id).isSome && !scopes.isInherited scope id

/-- A source that is told in a scope comes down to a child, over a bridge that may still be built. -/
def Forwards (scopes : Scopes) (id : String) (parent child : ScopeId) : Prop :=
  scopes.parent? child = some parent ∧ scopes.owns child id = false

/-- What was set directly, with what an entry of the record adds to it. -/
def Direct.note (direct : Direct) : Happening → Direct
  | .began scope source none => direct.give scope source
  | _ => direct

theorem Stocked.owns_eq (h : Stocked scopes direct) (scope : ScopeId) (id : String) :
    scopes.owns scope id = (direct scope id).isSome := by
  rw [owns]
  cases hdirect : direct scope id with
  | some given => rw [(h.own hdirect).1, (h.own hdirect).2]; rfl
  | none =>
      cases hstored : scopes.stored? scope id with
      | none => rfl
      | some kept => rw [(h.copy hdirect hstored).1]; rfl

theorem Stocked.congr (h : Stocked before direct)
    (hstored : ∀ scope id, after.stored? scope id = before.stored? scope id)
    (hinherited : ∀ scope id, after.isInherited scope id = before.isInherited scope id)
    (hbridges : ∀ scope id, before.hasBridge scope id = true → after.hasBridge scope id = true) :
    Stocked after direct where
  own hdirect := by
    rw [hstored, hinherited]
    exact h.own hdirect
  copy hdirect hkept := by
    rw [hstored] at hkept
    rw [hinherited]
    exact (h.copy hdirect hkept).imp_right (hbridges _ _)

/-- Where a source does not come down to, nothing else is seen than before. -/
theorem Nearest.seen_of_not_forwards (horder : scopes.Ordered) (hstocked : Stocked scopes direct)
    (hnearest : Nearest scopes direct seen) (hlater : Nearest scopes (direct.give scope source) later)
    (hfar : ¬ReflTransGen (scopes.Forwards source.id) scope other) :
    later other source.id = seen other source.id := by
  induction other using Nat.strongRecOn with
  | ind other ih =>
      have hother : ¬(scope = other ∧ source.id = source.id) := fun hsame => hfar (hsame.1 ▸ .refl)
      rw [hlater, hnearest, Direct.give_of_ne hother]
      cases hdirect : direct other source.id with
      | some given => rfl
      | none =>
          cases hparent : scopes.parent? other with
          | none => rfl
          | some parent =>
              have hforward : scopes.Forwards source.id parent other :=
                ⟨hparent, by rw [hstocked.owns_eq, hdirect]; rfl⟩
              exact congrArg _ (ih parent (horder other parent hparent) fun hreach =>
                hfar (hreach.tail hforward))

/-- A chain of bridges is still there after a source was set, down from where it came from, or down
from where the source was set. -/
theorem reaches_give (scope : ScopeId) (source : Source)
    (hfirst : direct upper name = none)
    (h : ReflTransGen (Link scopes direct name) upper other) :
    (direct.give scope source upper name = none ∧
        ReflTransGen (Link scopes (direct.give scope source) name) upper other) ∨
      source.id = name ∧ ReflTransGen (Link scopes (direct.give scope source) name) scope other := by
  induction h with
  | refl =>
      by_cases hplace : scope = upper ∧ source.id = name
      · exact .inr ⟨hplace.2, hplace.1 ▸ .refl⟩
      · exact .inl ⟨(Direct.give_of_ne hplace).trans hfirst, .refl⟩
  | @tail middle lower _ hlink ih =>
      by_cases hplace : scope = lower ∧ source.id = name
      · exact .inr ⟨hplace.2, hplace.1 ▸ .refl⟩
      · have hkept : Link scopes (direct.give scope source) name middle lower :=
          ⟨hlink.1, hlink.2.1, (Direct.give_of_ne hplace).trans hlink.2.2⟩
        exact ih.imp (fun hup => ⟨hup.1, hup.2.tail hkept⟩) fun hup => ⟨hup.1, hup.2.tail hkept⟩

theorem SameWires.links (h : SameWires before after)
    (hreach : ReflTransGen (Link before direct name) upper other) :
    ReflTransGen (Link after direct name) upper other := by
  refine ReflTransGen.mono (fun above below hlink => ?_) _ _ hreach
  exact ⟨(h.parent below).trans hlink.1, (h.bridges below name).trans hlink.2.1, hlink.2.2⟩

theorem SameWires.takeWaiters (h : SameWires before after) (scope : ScopeId) (id : String) :
    SameWires before (after.takeWaiters scope id) :=
  h.trans (alike_modify_waiters after scope (·.filter (·.1 != id))).toSameWires

/-- A scope that bridges lead down to from another one is below it. -/
theorem Ordered.mem_lineage_of_links (h : scopes.Ordered)
    (hlinks : ReflTransGen (Link scopes direct name) upper other) :
    upper ∈ scopes.lineage other := by
  induction hlinks with
  | refl => exact mem_lineage_self scopes upper
  | tail _ hlink ih => exact h.mem_lineage.mpr (.inr ⟨_, hlink.1, ih⟩)

theorem own_of_not_inherited (h : scopes.isInherited scope id = false) :
    scopes.own scope id = scopes := by
  have hcells : (scopes.scopes.modify scope fun cell =>
      { cell with inherited := cell.inherited.filter (· != id) }) = scopes.scopes := by
    refine modify_eq_self fun cell hcell => ?_
    rw [isInherited, look, hcell] at h
    have hkept : cell.inherited.filter (· != id) = cell.inherited := by
      refine List.filter_eq_self.mpr fun name hname => bne_iff_ne.mpr ?_
      rintro rfl
      rw [List.contains_iff_mem.mpr hname] at h
      cases h
    rw [hkept]
  rw [own, modify, hcells]

/-! ## What stores nothing -/

/-- Nothing is stored, nothing that was there moves, and of what was there nothing comes to life. -/
structure Spares (before after : Scopes) : Prop where
  wired : Wired after
  rising : Rising after
  lineage : ∀ scope < before.scopes.size, after.lineage scope = before.lineage scope
  parent : ∀ scope parent, before.parent? scope = some parent → after.parent? scope = some parent
  stored : ∀ scope id, after.stored? scope id = before.stored? scope id
  inherited : ∀ scope id, after.isInherited scope id = before.isInherited scope id
  bridges : ∀ scope id, before.hasBridge scope id = true → after.hasBridge scope id = true
  alive : ∀ scope < before.scopes.size, after.isAlive scope = true → before.isAlive scope = true

theorem Extends.spares (h : Extends before after) : Spares before after where
  wired := h.wired
  rising := h.rising
  lineage scope _ := lineageTo_congr h.grows.parent _ _
  parent scope parent hparent := (h.grows.parent scope).trans hparent
  stored := h.grows.stored
  inherited := h.grows.inherited
  bridges := h.grows.bridges
  alive scope _ halive := by
    have htree : SameTree before after := ⟨h.grows.size, h.grows.parent, h.grows.held⟩
    rwa [htree.isAlive] at halive

theorem Wired.spares_of_alike (h : Wired before) (hrising : Rising before)
    (halike : Alike before after) : Spares before after :=
  Extends.spares ⟨h.sameWires halike.toSameWires, hrising.sameWires halike.toSameWires, halike.grows⟩

/-- What is outside of the scopes themselves may change, if nobody comes back to life. -/
theorem Wired.spares_of_scopes (h : Wired before) (hrising : Rising before)
    (hscopes : after.scopes = before.scopes)
    (halive : ∀ scope, after.isAlive scope = true → before.isAlive scope = true) :
    Spares before after := by
  have hparent : ∀ scope, after.parent? scope = before.parent? scope := look_of_scopes hscopes
  have hbridge : ∀ scope id, after.hasBridge scope id = before.hasBridge scope id := by
    intro scope id
    rw [hasBridge, look_of_scopes hscopes, hasBridge]
  constructor
  case wired =>
    refine h.congr hparent hbridge fun scope id child => ?_
    rw [handlers, look_of_scopes hscopes, handlers]
  case rising => exact hrising.congr hparent hbridge
  case lineage => exact fun scope _ => lineageTo_congr hparent _ _
  case parent => exact fun scope parent habove => (hparent scope).trans habove
  case stored =>
    intro scope id
    rw [stored?, look_of_scopes hscopes, stored?]
  case inherited =>
    intro scope id
    rw [isInherited, look_of_scopes hscopes, isInherited]
  case bridges => exact fun scope id hbridged => (hbridge scope id).trans hbridged
  case alive => exact fun scope _ => halive scope

theorem Wired.spares_grow (h : Wired scopes) (hrising : Rising scopes)
    (hheld : ∀ held ∈ scopes.held, held < scopes.scopes.size) {parent : ScopeId}
    (halive : scopes.isAlive parent = true) (settings : Fields) :
    Spares scopes (scopes.grow (some parent) settings) := by
  have hlt := h.order.lt_size_of_isAlive hheld halive
  refine ⟨h.grow (fun _ hsome => Option.some.inj hsome ▸ hlt) settings,
    hrising.grow h.order _ settings, fun _ => h.order.lineage_grow hlt, ?_,
    fun _ _ => stored?_grow .., fun _ _ => isInherited_grow .., ?_, ?_⟩
  · intro scope above habove
    rw [parent?_grow, if_neg (Nat.ne_of_lt (lt_size_of_parent? habove)), habove]
  · exact fun scope id hbridge => (hasBridge_grow ..).trans hbridge
  · intro scope hscope hgrown
    exact ((h.order.isAlive_grow hheld halive).mp hgrown).resolve_left (Nat.ne_of_lt hscope)

theorem extends_register (hwired : Wired scopes) (hrising : Rising scopes) (scope : ScopeId)
    (id : String) {handler : Handler} (hhandler : ∀ child, handler ≠ .bridge child)
    (onlyHere : Bool) : Extends scopes (scopes.register scope id handler onlyHere).1 := by
  rw [register]
  split
  · exact ⟨hwired.addLocalHandler hhandler,
      hrising.congr (grows_addLocalHandler ..).parent fun _ _ => hasBridge_addLocalHandler _ _,
      grows_addLocalHandler ..⟩
  · exact extends_addHandler hwired hrising scope id hhandler

/-- Who listens after somebody registered did so before, or is the one who was not there yet. -/
theorem mem_listeners_register {added : Handler} {onlyHere : Bool}
    (h : handler ∈ (scopes.register scope id added onlyHere).1.listeners other name) :
    handler ∈ scopes.listeners other name ∨
      (scopes.register scope id added onlyHere).2 = true ∧
        scope = other ∧ Unicode.lower id = name ∧ added = handler := by
  have hlocal : ∀ {handler}, handler ∈ (scopes.addLocalHandler scope id added).1.listeners other name →
      handler ∈ scopes.listeners other name ∨ (scopes.addLocalHandler scope id added).2 = true ∧
        scope = other ∧ Unicode.lower id = name ∧ added = handler := by
    intro handler hmem
    obtain ⟨hmem, houtside⟩ := mem_listeners.mp hmem
    rw [mem_listeners]
    rcases mem_handlers_addLocalHandler.mp hmem with hold | ⟨-, rfl, rfl, rfl⟩
    · exact .inl ⟨hold, houtside⟩
    · rw [addLocalHandler] at hmem ⊢
      split at hmem
      · exact .inl ⟨hmem, houtside⟩
      · next habsent => exact .inr ⟨by rw [if_neg habsent], rfl, rfl, rfl⟩
  rw [register] at h ⊢
  split at h
  · next honly => rw [if_pos honly]; exact hlocal h
  · next honly =>
      rw [if_neg honly]
      have htells : Tells (scopes.addLocalHandler scope id added).1
          (scopes.addHandler scope id added).1 [] := tells_bridgeAlong _ _ _
      exact hlocal (htells.listeners other name ▸ h)

end Scopes

/-- The source a handler was called with last since it was registered, after one more entry of the
record. -/
def Happening.hear (scope : ScopeId) (id : String) (handler : Handler) (last : Option Source) :
    Happening → Option Source
  | .registered other name added =>
    if scope = other ∧ id = name ∧ handler = added then none else last
  | .called _ other callee source =>
    if scope = other ∧ id = source.id ∧ handler = callee then some source else last
  | _ => last

/-- Entries of nobody being called or registered, and of nothing being set, say nothing new. -/
def Happening.Mute : Happening → Prop
  | .waited _ _ _ => True
  | .served _ _ _ => True
  | .began _ _ origin => origin ≠ none
  | _ => False

namespace Moment

open Scopes

variable {m after : Moment} {may : Moment → Deed → Prop} {scope other : ScopeId} {id name : String}
  {source : Source} {telling : Telling} {others : List Telling} {handler : Handler}
  {rest : List Handler} {deed : Deed} {past more : List Happening}

/-- What was last set directly in every scope. -/
def given (past : List Happening) : Direct := past.foldl Direct.note fun _ _ => none

/-- The source that a handler was called with last, since it was registered. -/
def heard (past : List Happening) (scope : ScopeId) (id : String) (handler : Handler) :
    Option Source := past.foldl (Happening.hear scope id handler) none

/-- What a scope is to see: what was last set directly in the nearest scope in which the id was ever
set. -/
def view (m : Moment) : Direct := fun scope id =>
  (m.scopes.lineage scope).findSome? fun above => given m.past above id

/-- No broadcast of an id is under way where a source that is set in a scope comes down to. -/
def Silent (m : Moment) (scope : ScopeId) (id : String) : Prop :=
  ∀ telling ∈ m.tellings, telling.source.id = id →
    ¬ReflTransGen (m.scopes.Forwards id) scope telling.scope

/-- Nobody sets an id again while it is told, and nobody disposes anything or writes over copies. -/
def Patient (m : Moment) : Deed → Prop
  | .set scope source => m.Silent scope source.id
  | .put scope source => m.Silent scope source.id ∧ m.scopes.isInherited scope source.id = false
  | .receive _ _ => False
  | .dispose _ => False
  | .clear _ => False
  | _ => True

/-- A broadcast is still to call a handler. -/
def Due (m : Moment) (scope : ScopeId) (id : String) (handler : Handler) : Prop :=
  ∃ telling ∈ m.tellings, telling.scope = scope ∧ telling.source.id = id ∧ handler ∈ telling.handlers

/-- A broadcast is still to hand a source over, and it will come down to a scope. -/
def Awaits (m : Moment) (scope : ScopeId) (id : String) : Prop :=
  ∃ above child, m.Due above id (.bridge child) ∧ given m.past child id = none ∧
    ReflTransGen (Link m.scopes (given m.past) id) child scope

/-- What holds at every moment if nobody sets an id again while it is told: broadcasts tell what is
stored and seen, and what is out of date, be it a copy or what a handler heard, is about to change. -/
structure Abreast (m : Moment) : Prop where
  wired : Wired m.scopes
  rising : Rising m.scopes
  stocked : Stocked m.scopes (given m.past)
  seen : ∀ telling ∈ m.tellings, m.view telling.scope telling.source.id = some telling.source
  stored : ∀ telling ∈ m.tellings,
    m.scopes.stored? telling.scope telling.source.id = some telling.source
  bridged : ∀ telling ∈ m.tellings, ∀ child, .bridge child ∈ telling.handlers →
    m.scopes.hasBridge child telling.source.id = true
  copies : ∀ scope, m.scopes.isAlive scope = true → ∀ id,
    Fresh m.scopes (given m.past) m.view scope id ∨ m.Awaits scope id
  heard : ∀ scope id, ∀ handler ∈ m.scopes.listeners scope id, ∀ source,
    heard m.past scope id handler = some source →
      m.scopes.stored? scope id = some source ∨ m.Due scope id handler

/-! ## Reading the record -/

theorem given_concat (past : List Happening) (happening : Happening) :
    given (past ++ [happening]) = (given past).note happening := List.foldl_concat ..

theorem heard_concat (past : List Happening) (happening : Happening) (scope : ScopeId) (id : String)
    (handler : Handler) : heard (past ++ [happening]) scope id handler =
      Happening.hear scope id handler (heard past scope id handler) happening := List.foldl_concat ..

theorem given_append (hmore : ∀ entry ∈ more, Happening.Mute entry) :
    given (past ++ more) = given past := by
  induction more using List.reverseRecOn with
  | nil => rw [List.append_nil]
  | append_singleton before last ih =>
      rw [← List.append_assoc, given_concat,
        ih fun entry hentry => hmore entry (List.mem_append_left _ hentry)]
      have hlast := hmore last (List.mem_append_right _ List.mem_cons_self)
      cases last with
      | began scope source origin =>
          cases origin with
          | none => exact absurd rfl hlast
          | some since => rfl
      | waited _ _ _ | served _ _ _ | registered _ _ _ | disposed _ | called _ _ _ _ => rfl

theorem heard_append (hmore : ∀ entry ∈ more, Happening.Mute entry) :
    heard (past ++ more) = heard past := by
  funext scope id handler
  induction more using List.reverseRecOn with
  | nil => rw [List.append_nil]
  | append_singleton before last ih =>
      rw [← List.append_assoc, heard_concat,
        ih fun entry hentry => hmore entry (List.mem_append_left _ hentry)]
      have hlast := hmore last (List.mem_append_right _ List.mem_cons_self)
      cases last with
      | waited _ _ _ | served _ _ _ | began _ _ _ | disposed _ => rfl
      | registered _ _ _ | called _ _ _ _ => exact hlast.elim

theorem Orderly.nearest_view (h : Orderly m) : Nearest m.scopes (given m.past) m.view :=
  h.order.nearest (given m.past)

/-! ## What leaves sources alone -/

theorem Abreast.spare (h : Abreast m) (horderly : Orderly m) {scopes : Scopes}
    (hspares : Spares m.scopes scopes) (hgiven : given (m.past ++ more) = given m.past)
    (hheard : ∀ scope id, ∀ handler ∈ scopes.listeners scope id, ∀ source,
      Moment.heard (m.past ++ more) scope id handler = some source →
        handler ∈ m.scopes.listeners scope id ∧ Moment.heard m.past scope id handler = some source) :
    Abreast { m with scopes, past := m.past ++ more } := by
  have hview : ∀ scope < m.scopes.scopes.size, ∀ id,
      ({ m with scopes, past := m.past ++ more } : Moment).view scope id = m.view scope id := by
    intro scope hlt id
    rw [view, view, hspares.lineage scope hlt, hgiven]
  have hlinks : ∀ {id above below}, ReflTransGen (Link m.scopes (given m.past) id) above below →
      ReflTransGen (Link scopes (given m.past) id) above below := by
    intro id above below hreach
    refine ReflTransGen.mono (fun upper lower hlink => ?_) _ _ hreach
    exact ⟨hspares.parent _ _ hlink.1, hspares.bridges _ _ hlink.2.1, hlink.2.2⟩
  constructor
  case wired => exact hspares.wired
  case rising => exact hspares.rising
  case stocked =>
    rw [hgiven]
    exact h.stocked.congr hspares.stored hspares.inherited hspares.bridges
  case seen =>
    intro telling htelling
    rw [hview _ (horderly.lt_size (horderly.alive telling htelling))]
    exact h.seen telling htelling
  case stored =>
    intro telling htelling
    rw [hspares.stored]
    exact h.stored telling htelling
  case bridged =>
    exact fun telling htelling child hchild =>
      hspares.bridges _ _ (h.bridged telling htelling child hchild)
  case copies =>
    intro scope halive id
    rw [hgiven]
    by_cases hlt : scope < m.scopes.scopes.size
    · rcases h.copies scope (hspares.alive scope hlt halive) id with
        hfresh | ⟨above, child, hdue, hnone, hreach⟩
      · left
        intro hnone kept hkept
        rw [hspares.stored] at hkept
        obtain ⟨parent, hparent, hsaw⟩ := hfresh hnone kept hkept
        have hless := Nat.lt_trans (h.wired.order scope parent hparent) hlt
        exact ⟨parent, hspares.parent _ _ hparent, (hview parent hless id).trans hsaw⟩
      · refine .inr ⟨above, child, hdue, ?_⟩
        rw [hgiven]
        exact ⟨hnone, hlinks hreach⟩
    · left
      intro _ kept hkept
      rw [hspares.stored, stored?, look_of_ge (Nat.le_of_not_lt hlt)] at hkept
      cases hkept
  case heard =>
    intro scope id handler hmem source hsource
    obtain ⟨hlistened, hbefore⟩ := hheard scope id handler hmem source hsource
    rw [hspares.stored]
    exact h.heard scope id handler hlistened source hbefore

theorem Abreast.spare_same (h : Abreast m) (horderly : Orderly m) {scopes : Scopes}
    (hspares : Spares m.scopes scopes)
    (hless : ∀ scope id, ∀ handler ∈ scopes.listeners scope id,
      handler ∈ m.scopes.listeners scope id)
    (hmore : ∀ entry ∈ more, Happening.Mute entry) :
    Abreast { m with scopes, past := m.past ++ more } :=
  h.spare horderly hspares (given_append hmore) fun scope id handler hmem source hsource =>
    ⟨hless scope id handler hmem, by rwa [heard_append hmore] at hsource⟩

theorem Abreast.spare_quiet (h : Abreast m) (horderly : Orderly m) {scopes : Scopes}
    (hspares : Spares m.scopes scopes)
    (hless : ∀ scope id, ∀ handler ∈ scopes.listeners scope id,
      handler ∈ m.scopes.listeners scope id) : Abreast { m with scopes } := by
  have hsame : Abreast { m with scopes, past := m.past ++ [] } :=
    h.spare_same horderly hspares hless fun _ hnone => by cases hnone
  rwa [List.append_nil] at hsame

theorem Abreast.subscribe (h : Abreast m) (horderly : Orderly m) (scope : ScopeId) (id : String)
    (houtside : ∀ child, handler ≠ .bridge child) (onlyHere : Bool) :
    Abreast (m.act (.subscribe scope id handler onlyHere)) := by
  have hspares := (extends_register h.wired h.rising scope id houtside onlyHere).spares
  have hmem : ∀ {other name listener},
      listener ∈ (m.scopes.register scope id handler onlyHere).1.listeners other name → _ :=
    fun hmem => mem_listeners_register hmem
  rw [act]
  dsimp only
  cases hadded : (m.scopes.register scope id handler onlyHere).2 with
  | false =>
      refine h.spare_same horderly hspares (fun other name listener hlistener => ?_)
        fun _ hnone => by cases hnone
      exact (hmem hlistener).resolve_right fun hnew => by rw [hadded] at hnew; cases hnew.1
  | true =>
      refine h.spare horderly hspares (given_concat ..)
        fun other name listener hlistener told htold => ?_
      rw [if_pos rfl, heard_concat] at htold
      simp only [Happening.hear] at htold
      split at htold
      · cases htold
      · next hother =>
          refine ⟨(hmem hlistener).resolve_right ?_, htold⟩
          rintro ⟨-, rfl, rfl, rfl⟩
          exact hother ⟨rfl, rfl, rfl⟩

/-! ## Setting a source -/

theorem due_tell {origin : Option Nat} :
    (m.tell scope source origin).Due other name handler ↔
      scope = other ∧ source.id = name ∧ handler ∈ m.scopes.handlers scope source.id ∨
        m.Due other name handler := by
  simp only [Due, tell, List.mem_cons, exists_eq_or_imp]

/-- What holds when a stored source begins to be told. What is stored and given has changed in one
place. -/
theorem Abreast.tell (h : Abreast m) {kept : Scopes} {origin : Option Nat}
    (hsame : SameWires m.scopes kept)
    (hself : kept.stored? scope source.id = some source)
    (hother : ∀ other name, ¬(scope = other ∧ source.id = name) →
      kept.stored? other name = m.scopes.stored? other name)
    (hstocked : Stocked kept (given (m.past ++ [.began scope source origin])))
    {later : Direct} (hlater : ({ m with scopes := kept }.tell scope source origin).view = later)
    (hhere : later scope source.id = some source)
    (hviews : ∀ telling ∈ m.tellings, later telling.scope telling.source.id = some telling.source)
    (hstored : ∀ telling ∈ m.tellings, scope = telling.scope → source.id = telling.source.id →
      source = telling.source)
    (hcopies : ∀ other, m.scopes.isAlive other = true → ∀ name,
      Fresh kept (given (m.past ++ [.began scope source origin])) later other name ∨
        ({ m with scopes := kept }.tell scope source origin).Awaits other name) :
    Abreast ({ m with scopes := kept }.tell scope source origin) := by
  have halike : Alike kept (kept.takeWaiters scope source.id) :=
    alike_modify_waiters kept scope (·.filter (·.1 != source.id))
  have hwires := hsame.takeWaiters scope source.id
  have hkept : ∀ telling ∈ m.tellings,
      kept.stored? telling.scope telling.source.id = some telling.source := by
    intro telling htelling
    by_cases hplace : scope = telling.scope ∧ source.id = telling.source.id
    · rw [← hstored telling htelling hplace.1 hplace.2, ← hplace.1]
      exact hself
    · rw [hother _ _ hplace]
      exact h.stored telling htelling
  constructor
  case wired => exact h.wired.sameWires hwires
  case rising => exact h.rising.sameWires hwires
  case stocked =>
    exact hstocked.congr halike.stored halike.inherited fun _ _ hbridge =>
      (halike.bridges _ _).trans hbridge
  case seen =>
    rw [hlater]
    exact List.forall_mem_cons.mpr ⟨hhere, hviews⟩
  case stored =>
    refine List.forall_mem_cons.mpr ⟨(halike.stored ..).trans hself, fun telling htelling => ?_⟩
    exact (halike.stored ..).trans (hkept telling htelling)
  case bridged =>
    refine List.forall_mem_cons.mpr ⟨fun child hchild => ?_, fun telling htelling child hchild => ?_⟩
    · have hback := (h.wired.sameWires hsame).back hchild
      exact (halike.bridges ..).trans hback.2
    · exact (hwires.bridges ..).trans (h.bridged telling htelling child hchild)
  case copies =>
    intro other halive name
    have htree : SameTree m.scopes (kept.takeWaiters scope source.id) :=
      ⟨hwires.size, hwires.parent, hwires.held⟩
    refine (hcopies other ((htree.isAlive other).symm.trans halive) name).imp_left ?_
    intro hfresh hnone found hfound
    obtain ⟨parent, hparent, hsaw⟩ := hfresh hnone found ((halike.stored ..).symm.trans hfound)
    exact ⟨parent, (halike.parent _).trans hparent, hlater ▸ hsaw⟩
  case heard =>
    intro other name handler hmem told htold
    have hbefore : Moment.heard m.past other name handler = some told :=
      (heard_concat m.past (.began scope source origin) other name handler).symm.trans htold
    obtain ⟨hhandlers, houtside⟩ := mem_listeners.mp hmem
    rw [due_tell]
    by_cases hplace : scope = other ∧ source.id = name
    · obtain ⟨rfl, rfl⟩ := hplace
      exact .inr (.inl ⟨rfl, rfl, halike.handlers .. ▸ hhandlers⟩)
    · have hlistened := mem_listeners.mpr ⟨hwires.handlers .. ▸ hhandlers, houtside⟩
      refine (h.heard other name handler hlistened told hbefore).imp (fun hsaw => ?_) .inr
      exact (halike.stored ..).trans ((hother other name hplace).trans hsaw)

theorem Orderly.nearest_view_tell (h : Orderly m) {kept : Scopes} (hsame : SameWires m.scopes kept)
    (scope : ScopeId) (source : Source) (origin : Option Nat) :
    Nearest m.scopes (given (m.past ++ [.began scope source origin]))
      ({ m with scopes := kept }.tell scope source origin).view := by
  have hwires := hsame.takeWaiters scope source.id
  have horder : (kept.takeWaiters scope source.id).Ordered := by
    intro other parent hparent
    rw [hwires.parent] at hparent
    exact h.order other parent hparent
  intro other name
  rw [← hwires.parent]
  exact horder.nearest (given (m.past ++ [.began scope source origin])) other name

/-- What is below the scope in which a broadcast begins will be told, as far as bridges lead down. -/
theorem awaits_tell {kept : Scopes} {origin : Option Nat} (hwired : Wired m.scopes)
    (hsame : SameWires m.scopes kept)
    (hreach : TransGen (Link m.scopes (given (m.past ++ [.began scope source origin])) source.id) scope
      other) :
    ({ m with scopes := kept }.tell scope source origin).Awaits other source.id := by
  obtain ⟨child, hlink, hbelow⟩ := TransGen.head'_iff.mp hreach
  refine ⟨scope, child, due_tell.mpr (.inl ⟨rfl, rfl, ?_⟩), hlink.2.2, ?_⟩
  · rw [hsame.handlers]
    exact hwired.there hlink.2.1 hlink.1
  · exact (hsame.takeWaiters scope source.id).links hbelow

/-- When an id is set that is not told where it comes down to, everything that gets out of date is
about to be told. -/
theorem Abreast.store (h : Abreast m) (source : Source) (horderly : Orderly m)
    (halive : m.scopes.isAlive scope = true) (hsilent : m.Silent scope source.id) :
    Abreast ({ m with scopes := (m.scopes.own scope source.id).put scope source }.tell scope source
      none) := by
  have hlt := horderly.lt_size halive
  have hsame := (sameWires_own m.scopes scope source.id).trans (sameWires_put _ scope source)
  have hgiven : given (m.past ++ [.began scope source none]) = (given m.past).give scope source :=
    given_concat ..
  have hseen := horderly.nearest_view
  generalize hlater : ({ m with scopes := (m.scopes.own scope source.id).put scope source }.tell scope
    source none).view = later
  have hnear : Nearest m.scopes ((given m.past).give scope source) later :=
    hlater ▸ hgiven ▸ horderly.nearest_view_tell hsame scope source none
  refine h.tell hsame (stored?_store_self hlt) (fun other name => stored?_store_of_ne)
    (hgiven ▸ h.stocked.store hlt) hlater ?_ ?_ ?_ ?_
  · rw [hnear, Direct.give_self]
    rfl
  · intro telling htelling
    rw [← h.seen telling htelling]
    by_cases hid : source.id = telling.source.id
    · rw [← hid]
      exact hseen.seen_of_not_forwards horderly.order h.stocked hnear (hsilent telling htelling hid.symm)
    · exact hseen.seen_other h.wired hnear hid _
  · intro telling htelling hscope hid
    exact absurd (hscope ▸ .refl) (hsilent telling htelling hid.symm)
  · intro other hother name
    rw [hgiven]
    -- The scope itself has a source of its own from now on.
    by_cases hplace : scope = other ∧ source.id = name
    · obtain ⟨rfl, rfl⟩ := hplace
      exact .inl fun hnone => by rw [Direct.give_self] at hnone; cases hnone
    rcases h.copies other hother name with hfresh | ⟨above, child, hdue, hnone, hreach⟩
    · -- A fresh copy stays fresh unless the new source comes down to it, and then it is told.
      by_cases hbelow : source.id = name ∧
          TransGen (Link m.scopes ((given m.past).give scope source) source.id) scope other
      · obtain ⟨rfl, hreach⟩ := hbelow
        exact .inr (awaits_tell h.wired hsame (hgiven ▸ hreach))
      · left
        intro hnone found hfound
        rw [Direct.give_of_ne hplace] at hnone
        rw [stored?_store_of_ne hplace] at hfound
        obtain ⟨parent, hparent, hsaw⟩ := hfresh hnone found hfound
        refine ⟨parent, (hsame.parent other).trans hparent, Eq.trans ?_ hsaw⟩
        by_cases hid : source.id = name
        · obtain rfl := hid
          have hbridge := (h.stocked.copy hnone hfound).2
          exact (seen_or_reached h.wired h.rising hseen hnear other hparent hbridge
            ((Direct.give_of_ne hplace).trans hnone)).resolve_right fun hreach => hbelow ⟨rfl, hreach⟩
        · exact hseen.seen_other h.wired hnear hid parent
    · -- What was to come down to a copy still does, or the new source has cut its way and comes instead.
      right
      rcases reaches_give scope source hnone hreach with ⟨hstill, hbelow⟩ | ⟨rfl, hbelow⟩
      · refine ⟨above, child, due_tell.mpr (.inr hdue), hgiven ▸ hstill, ?_⟩
        exact hgiven ▸ (hsame.takeWaiters scope source.id).links hbelow
      · rcases hbelow.cases_head with rfl | ⟨lower, hlink, hbelow⟩
        · exact absurd ⟨rfl, rfl⟩ hplace
        · exact awaits_tell h.wired hsame (hgiven ▸ TransGen.head' hlink hbelow)

/-! ## Going on -/

/-- A copy that is handed on is what the parent sees, and goes further down. -/
theorem Abreast.forward (h : Abreast m) (horderly : Orderly m) (htelling : telling ∈ m.tellings)
    {child : ScopeId} (hbridge : .bridge child ∈ telling.handlers)
    (hnone : given m.past child telling.source.id = none) :
    Abreast ({ m with
      scopes := (m.scopes.inherit child telling.source.id).put child telling.source }.tell child
        telling.source (some telling.since)) := by
  have hparent := horderly.below telling htelling child hbridge
  have hlt := lt_size_of_parent? hparent
  have hsame := (sameWires_inherit m.scopes child telling.source.id).trans
    (sameWires_put _ child telling.source)
  have hgiven : given (m.past ++ [.began child telling.source (some telling.since)]) = given m.past :=
    given_concat ..
  have hseen := horderly.nearest_view
  generalize hlater : ({ m with
    scopes := (m.scopes.inherit child telling.source.id).put child telling.source }.tell child
      telling.source (some telling.since)).view = later
  have hview : later = m.view := by
    have hnear := horderly.nearest_view_tell hsame child telling.source (some telling.since)
    rw [hgiven, hlater] at hnear
    exact hnear.unique horderly.order hseen
  have hhere : m.view child telling.source.id = some telling.source := by
    rw [hseen, hnone, hparent]
    exact h.seen telling htelling
  refine h.tell hsame (stored?_forward_self hlt) (fun other name => stored?_forward_of_ne) ?_ hlater
    ?_ ?_ ?_ ?_
  · rw [hgiven]
    exact h.stocked.forward hnone hlt (h.bridged telling htelling child hbridge)
  · rw [hview]
    exact hhere
  · rw [hview]
    exact h.seen
  · rintro other hother rfl hid
    have hsaw := h.seen other hother
    rw [← hid, hhere] at hsaw
    exact Option.some.inj hsaw
  · intro other hother name
    rw [hgiven, hview]
    rcases h.copies other hother name with hfresh | ⟨above, lower, hdue, hstill, hreach⟩
    · left
      intro hopen found hfound
      rw [hsame.parent]
      by_cases hplace : child = other ∧ telling.source.id = name
      · obtain ⟨rfl, rfl⟩ := hplace
        rw [stored?_forward_self hlt] at hfound
        exact ⟨telling.scope, hparent, (h.seen telling htelling).trans hfound⟩
      · rw [stored?_forward_of_ne hplace] at hfound
        exact hfresh hopen found hfound
    · refine .inr ⟨above, lower, due_tell.mpr (.inr hdue), hgiven ▸ hstill, ?_⟩
      exact hgiven ▸ (hsame.takeWaiters child telling.source.id).links hreach

/-- Broadcasts may give up calls that can be done without. -/
theorem Abreast.lessen (h : Abreast m) {tellings : List Telling}
    (hmember : ∀ later ∈ tellings, ∃ earlier ∈ m.tellings, earlier.scope = later.scope ∧
      earlier.source = later.source ∧ ∀ other ∈ later.handlers, other ∈ earlier.handlers)
    (hcopies : ∀ above id child, m.Due above id (.bridge child) →
      { m with tellings }.Due above id (.bridge child) ∨ (given m.past child id = none →
        ∀ other, m.scopes.isAlive other = true →
          ReflTransGen (Link m.scopes (given m.past) id) child other →
            Fresh m.scopes (given m.past) m.view other id ∨ { m with tellings }.Awaits other id))
    (hheard : ∀ scope id, ∀ handler ∈ m.scopes.listeners scope id, m.Due scope id handler →
      { m with tellings }.Due scope id handler ∨ ∀ source,
        Moment.heard m.past scope id handler = some source →
          m.scopes.stored? scope id = some source) : Abreast { m with tellings } := by
  constructor
  case wired => exact h.wired
  case rising => exact h.rising
  case stocked => exact h.stocked
  case seen =>
    intro later hlater
    obtain ⟨earlier, hearlier, hscope, hsource, -⟩ := hmember later hlater
    rw [← hscope, ← hsource]
    exact h.seen earlier hearlier
  case stored =>
    intro later hlater
    obtain ⟨earlier, hearlier, hscope, hsource, -⟩ := hmember later hlater
    rw [← hscope, ← hsource]
    exact h.stored earlier hearlier
  case bridged =>
    intro later hlater child hchild
    obtain ⟨earlier, hearlier, -, hsource, hmem⟩ := hmember later hlater
    rw [← hsource]
    exact h.bridged earlier hearlier child (hmem _ hchild)
  case copies =>
    intro scope halive id
    rcases h.copies scope halive id with hfresh | ⟨above, child, hdue, hnone, hreach⟩
    · exact .inl hfresh
    · rcases hcopies above id child hdue with hstill | hspared
      · exact .inr ⟨above, child, hstill, hnone, hreach⟩
      · exact hspared hnone scope halive hreach
  case heard =>
    intro scope id handler hmem source hsource
    rcases h.heard scope id handler hmem source hsource with hstored | hdue
    · exact .inl hstored
    · rcases hheard scope id handler hmem hdue with hstill | hspared
      · exact .inr hstill
      · exact .inl (hspared source hsource)

/-- A handler is taken off the list when its call was made, or can be done without. -/
theorem Abreast.pop (h : Abreast m) (first : List Telling)
    (htellings : m.tellings = first ++ telling :: others)
    (hhandlers : telling.handlers = handler :: rest) {tellings : List Telling}
    (hless : tellings = first ++ { telling with handlers := rest } :: others)
    (hcopies : ∀ child, handler = .bridge child → given m.past child telling.source.id = none →
      ∀ other, m.scopes.isAlive other = true →
        ReflTransGen (Link m.scopes (given m.past) telling.source.id) child other →
          Fresh m.scopes (given m.past) m.view other telling.source.id ∨
            { m with tellings }.Awaits other telling.source.id)
    (hheard : handler.isOutside = true → ∀ source,
      Moment.heard m.past telling.scope telling.source.id handler = some source →
        m.scopes.stored? telling.scope telling.source.id = some source) :
    Abreast { m with tellings } := by
  have hdue : ∀ {scope id other}, m.Due scope id other → { m with tellings }.Due scope id other ∨
      telling.scope = scope ∧ telling.source.id = id ∧ handler = other := by
    rintro scope id other ⟨later, hlater, rfl, rfl, hmem⟩
    rw [htellings] at hlater
    subst hless
    rcases List.mem_append.mp hlater with hfirst | hlater
    · exact .inl ⟨later, List.mem_append_left _ hfirst, rfl, rfl, hmem⟩
    rcases List.mem_cons.mp hlater with rfl | hothers
    · rw [hhandlers] at hmem
      rcases List.mem_cons.mp hmem with rfl | hrest
      · exact .inr ⟨rfl, rfl, rfl⟩
      · exact .inl ⟨_, List.mem_append_right _ List.mem_cons_self, rfl, rfl, hrest⟩
    · exact .inl ⟨later, List.mem_append_right _ (List.mem_cons_of_mem _ hothers), rfl, rfl, hmem⟩
  refine h.lessen (fun later hlater => ?_) (fun above id child hwaits => ?_)
    fun scope id listener hmem hwaits => ?_
  · rw [htellings]
    subst hless
    rcases List.mem_append.mp hlater with hfirst | hlater
    · exact ⟨later, List.mem_append_left _ hfirst, rfl, rfl, fun _ hmem => hmem⟩
    rcases List.mem_cons.mp hlater with rfl | hothers
    · refine ⟨telling, List.mem_append_right _ List.mem_cons_self, rfl, rfl, fun other hmem => ?_⟩
      exact hhandlers ▸ List.mem_cons_of_mem _ hmem
    · exact ⟨later, List.mem_append_right _ (List.mem_cons_of_mem _ hothers), rfl, rfl,
        fun _ hmem => hmem⟩
  · refine (hdue hwaits).imp_right fun hsame => ?_
    obtain ⟨-, rfl, hbridge⟩ := hsame
    exact hcopies child hbridge
  · refine (hdue hwaits).imp_right fun hsame => ?_
    obtain ⟨rfl, rfl, rfl⟩ := hsame
    exact hheard (mem_listeners.mp hmem).2

/-- A broadcast that has called everybody is over. -/
theorem Abreast.drop (h : Abreast m) (htellings : m.tellings = telling :: others)
    (hhandlers : telling.handlers = []) : Abreast { m with tellings := others } := by
  have hdue : ∀ {scope id handler}, m.Due scope id handler →
      { m with tellings := others }.Due scope id handler := by
    rintro scope id handler ⟨later, hlater, rfl, rfl, hmem⟩
    rw [htellings] at hlater
    rcases List.mem_cons.mp hlater with rfl | hothers
    · rw [hhandlers] at hmem
      cases hmem
    · exact ⟨later, hothers, rfl, rfl, hmem⟩
  refine h.lessen (fun later hlater => ?_) (fun _ _ _ hwaits => .inl (hdue hwaits))
    fun _ _ _ _ hwaits => .inl (hdue hwaits)
  exact ⟨later, htellings ▸ List.mem_cons_of_mem _ hlater, rfl, rfl, fun _ hmem => hmem⟩

/-- A handler is called with what is stored. -/
theorem Abreast.hear (h : Abreast m) (htelling : telling ∈ m.tellings) (handler : Handler) :
    Abreast { m with
      past := m.past ++ [.called telling.since telling.scope handler telling.source] } := by
  have hgiven : given (m.past ++ [.called telling.since telling.scope handler telling.source]) =
      given m.past := given_concat ..
  have hview : ({ m with past := m.past ++
      [.called telling.since telling.scope handler telling.source] } : Moment).view = m.view := by
    funext scope id
    rw [view, view, hgiven]
  constructor
  case wired => exact h.wired
  case rising => exact h.rising
  case stocked => exact hgiven ▸ h.stocked
  case seen => exact hview ▸ h.seen
  case stored => exact h.stored
  case bridged => exact h.bridged
  case copies =>
    intro scope halive id
    rw [hgiven, hview, Awaits, hgiven]
    exact h.copies scope halive id
  case heard =>
    intro scope id listener hmem source hsource
    rw [heard_concat, Happening.hear] at hsource
    split at hsource
    · next hsame =>
        obtain ⟨rfl, rfl, rfl⟩ := hsame
        exact .inl (Option.some.inj hsource ▸ h.stored telling htelling)
    · exact h.heard scope id listener hmem source hsource

theorem Abreast.called (h : Abreast m) (horderly : Orderly m)
    (htellings : m.tellings = telling :: others) (hhandlers : telling.handlers = handler :: rest)
    {scopes : Scopes} (halike : Alike m.scopes scopes) (houtside : handler.isOutside = true) :
    Abreast { m with
      scopes, tellings := { telling with handlers := rest } :: others
      past := m.past ++ [.called telling.since telling.scope handler telling.source] } := by
  have hspared : Abreast { m with scopes } := by
    refine h.spare_quiet horderly (h.wired.spares_of_alike h.rising halike) ?_
    intro scope id handler hmem
    rwa [listeners, halike.handlers] at hmem
  have hheard := hspared.hear (htellings ▸ List.mem_cons_self) handler
  refine hheard.pop [] htellings hhandlers rfl (fun child hsame => ?_) fun _ source hsource => ?_
  · rw [hsame] at houtside
    cases houtside
  · have hmem : telling ∈ m.tellings := htellings ▸ List.mem_cons_self
    rw [heard_concat, Happening.hear, if_pos ⟨rfl, rfl, rfl⟩] at hsource
    exact Option.some.inj hsource ▸ hspared.stored telling hmem

/-- A bridge needs no call if it leads to a scope that lives no more, or has a source of its own. -/
theorem Abreast.skip (h : Abreast m) (horderly : Orderly m) {child : ScopeId}
    (htellings : m.tellings = telling :: others) (hhandlers : telling.handlers = .bridge child :: rest)
    (hshut : m.scopes.isAlive child = true → given m.past child telling.source.id ≠ none) :
    Abreast { m with tellings := { telling with handlers := rest } :: others } := by
  refine h.pop [] htellings hhandlers rfl (fun lower hsame hnone other halive hreach => ?_)
    fun hsame => by cases hsame
  obtain rfl := Handler.bridge.inj hsame
  refine absurd hnone (hshut (horderly.order.isAlive_above halive ?_))
  exact horderly.order.mem_lineage_of_links hreach

theorem Abreast.callBridge (h : Abreast m) (horderly : Orderly m) {child : ScopeId}
    (htellings : m.tellings = telling :: others)
    (hhandlers : telling.handlers = .bridge child :: rest) :
    Abreast (({ m with tellings := { telling with handlers := rest } :: others } : Moment).call
      { telling with handlers := rest } (.bridge child)) := by
  have hmem : telling ∈ m.tellings := htellings ▸ List.mem_cons_self
  have hbridge : .bridge child ∈ telling.handlers := hhandlers ▸ List.mem_cons_self
  have howns : ((m.scopes.local? child telling.source.id).isSome &&
      !m.scopes.isInherited child telling.source.id) =
        (given m.past child telling.source.id).isSome := by
    rw [local?, horderly.small telling hmem]
    exact h.stocked.owns_eq child telling.source.id
  rw [call]
  split
  · next halive =>
      rw [Moment.receive]
      dsimp only at halive ⊢
      rw [howns]
      cases hgiven : given m.past child telling.source.id with
      | some given => exact h.skip horderly htellings hhandlers fun _ => by rw [hgiven]; simp
      | none =>
          have hforward := h.forward horderly hmem hbridge hgiven
          have hparent := horderly.below telling hmem child hbridge
          have hsame := (sameWires_inherit m.scopes child telling.source.id).trans
            (sameWires_put _ child telling.source)
          refine hforward.pop [_] (congrArg _ htellings) hhandlers rfl ?_ fun hsame => by cases hsame
          intro lower hlower hnone other halive hreach
          obtain rfl := Handler.bridge.inj hlower
          rcases hreach.cases_head with rfl | ⟨next, hlink, hbelow⟩
          · left
            intro _ kept hkept
            refine ⟨telling.scope, ?_, ?_⟩
            · exact ((hsame.takeWaiters child telling.source.id).parent child).trans hparent
            · have hstored := hforward.stored _ List.mem_cons_self
              exact (hforward.seen telling (List.mem_cons_of_mem _ hmem)).trans
                (hstored.symm.trans hkept)
          · refine .inr ⟨child, next, ⟨_, List.mem_cons_self, rfl, rfl, ?_⟩, hlink.2.2, hbelow⟩
            have hthere := hforward.wired.there hlink.2.1 hlink.1
            have hhandlers :=
              (hsame.takeWaiters child telling.source.id).handlers child telling.source.id
            change .bridge next ∈ ((m.scopes.inherit child telling.source.id).put child
              telling.source).handlers child telling.source.id
            rw [hsame.handlers, ← hhandlers]
            exact hthere
  · next hdead => exact h.skip horderly htellings hhandlers fun halive => absurd halive hdead

theorem Abreast.proceed (h : Abreast m) (horderly : Orderly m) : Abreast m.proceed := by
  rw [Moment.proceed]
  split
  · exact h
  · next telling others htellings =>
      split
      · next hhandlers =>
          have hdropped := h.drop htellings hhandlers
          refine hdropped.spare_same (horderly.drop htellings) ?_ ?_ ?_
          · rw [resolveAll_eq]
            exact h.wired.spares_of_alike h.rising
              (.of_scopes rfl rfl fun _ host hhost => ⟨host, hhost, rfl⟩)
          · rw [resolveAll_eq]
            exact fun _ _ _ hmem => hmem
          · intro entry hentry
            obtain ⟨promise, -, rfl⟩ := List.mem_map.mp hentry
            trivial
      · next handler rest hhandlers =>
          cases handler with
          | bridge child => exact h.callBridge horderly htellings hhandlers
          | host handler =>
              exact h.called horderly htellings hhandlers
                ((alike_deliver m.scopes _).trans (alike_markCalled _ handler)) rfl
          | trigger component =>
              exact h.called horderly htellings hhandlers (alike_deliver m.scopes _) rfl

theorem Abreast.act (h : Abreast m) (horderly : Orderly m) (hallowed : m.Allows deed)
    (hpatient : Patient m deed) : Abreast (m.act deed) := by
  cases deed with
  | create parent settings =>
      refine h.spare_quiet horderly (h.wired.spares_grow h.rising horderly.held hallowed settings) ?_
      intro scope id handler hmem
      rwa [listeners, handlers_grow] at hmem
  | hold scope =>
      refine h.spare_quiet horderly (h.wired.spares_of_scopes h.rising rfl ?_) fun _ _ _ hmem => hmem
      exact fun other => (horderly.order.isAlive_hold hallowed).mp
  | release scope =>
      refine h.spare_quiet horderly (h.wired.spares_of_scopes h.rising rfl ?_) fun _ _ _ hmem => hmem
      exact fun other => isAlive_of_release
  | subscribe scope id handler onlyHere => exact h.subscribe horderly scope id hallowed.2 onlyHere
  | unsubscribe scope id handler =>
      refine h.spare_quiet horderly
        (extends_removeHandler h.wired h.rising scope id hallowed.2).spares ?_
      intro other name listener hmem
      obtain ⟨hhandlers, houtside⟩ := mem_listeners.mp hmem
      exact mem_listeners.mpr ⟨mem_handlers_of_removeHandler hhandlers, houtside⟩
  | wait scope id =>
      refine h.spare_same horderly (extends_wait h.wired h.rising scope id).spares ?_ ?_
      · exact fun other name listener hmem => (tells_wait m.scopes scope id).listeners other name ▸ hmem
      · intro entry hentry
        obtain ⟨promise, rfl⟩ := eq_of_mem_waited hentry
        trivial
  | set scope source =>
      have hid := id_mergedWith m.scopes scope source
      have hstored := h.store (m.scopes.mergedWith scope source) horderly hallowed.1
        (hid.symm ▸ hpatient)
      rw [hid] at hstored
      exact hstored
  | put scope source =>
      have hstored := h.store source horderly hallowed.1 hpatient.1
      rw [own_of_not_inherited hpatient.2] at hstored
      exact hstored
  | arrange hosts deliveries =>
      have htree : SameTree m.scopes { m.scopes with hosts, deliveries } := ⟨rfl, fun _ => rfl, rfl⟩
      refine h.spare_quiet horderly (h.wired.spares_of_scopes h.rising rfl ?_) fun _ _ _ hmem => hmem
      exact fun other halive => (htree.isAlive other).symm.trans halive
  | receive _ _ | dispose _ | clear _ => exact hpatient.elim

theorem abreast_first (settings : Fields) : Abreast (first settings) := by
  obtain ⟨⟨hwired, hrising, -, hstocked⟩, -⟩ := settled_root settings
  refine ⟨hwired, hrising, hstocked, ?_, ?_, ?_, fun scope _ id => .inl ?_, ?_⟩
  · exact fun _ hnone => by cases hnone
  · exact fun _ hnone => by cases hnone
  · exact fun _ hnone => by cases hnone
  · intro _ kept hkept
    have hblank : (first settings).scopes.stored? scope id = none := stored?_grow none settings scope
    rw [hblank] at hkept
    cases hkept
  · exact fun _ _ _ _ _ hnone => by cases hnone

theorem Later.abreast (h : Later Patient m after) (horderly : Orderly m) (hm : Abreast m) :
    Abreast after := by
  induction h with
  | refl => exact hm
  | act before hallowed hpatient ih => exact ih.act (before.orderly horderly) hallowed hpatient
  | proceed before ih => exact ih.proceed (before.orderly horderly)

/-- Whatever happens as long as nobody sets an id again while it is told, and nobody disposes anything:
when no broadcast of an id is left, every handler that was called since it was registered was last called
with what its scope stores, and every copy that came over a bridge is what the parent of its scope finds. -/
theorem last_told_stored (h : Reached Patient m)
    (hquiet : ∀ telling ∈ m.tellings, telling.source.id ≠ Unicode.lower id) :
    (∀ scope, ∀ handler ∈ m.scopes.listeners scope (Unicode.lower id), ∀ source,
      heard m.past scope (Unicode.lower id) handler = some source →
        m.scopes.local? scope id = some source) ∧
    ∀ scope copy, m.scopes.isAlive scope = true →
      m.scopes.isInherited scope (Unicode.lower id) = true → m.scopes.local? scope id = some copy →
        ∃ parent, m.scopes.parent? scope = some parent ∧ m.scopes.find? parent id = some copy := by
  have horderly := h.orderly
  obtain ⟨settings, hlater⟩ := h
  have habreast := hlater.abreast (orderly_first settings) (abreast_first settings)
  have hnodue : ∀ {scope handler}, ¬m.Due scope (Unicode.lower id) handler := by
    rintro scope handler ⟨telling, htelling, -, hid, -⟩
    exact hquiet telling htelling hid
  have hfresh : ∀ scope, m.scopes.isAlive scope = true →
      Fresh m.scopes (given m.past) m.view scope (Unicode.lower id) := fun scope halive =>
    (habreast.copies scope halive _).resolve_right fun ⟨_, _, hdue, _⟩ => hnodue hdue
  refine ⟨fun scope handler hmem source hsource => ?_, fun scope copy halive hinherited hcopy => ?_⟩
  · exact (habreast.heard scope _ handler hmem source hsource).resolve_right hnodue
  · have hnone : given m.past scope (Unicode.lower id) = none := by
      cases hgiven : given m.past scope (Unicode.lower id) with
      | none => rfl
      | some given =>
          rw [(habreast.stocked.own hgiven).2] at hinherited
          cases hinherited
    obtain ⟨parent, hparent, hsaw⟩ := hfresh scope halive hnone copy hcopy
    refine ⟨parent, hparent, Eq.trans ?_ hsaw⟩
    refine find?_eq_seen horderly.order habreast.stocked horderly.nearest_view fun above habove => ?_
    refine hfresh above (horderly.order.isAlive_above halive ?_)
    exact horderly.order.mem_lineage.mpr (.inr ⟨parent, hparent, habove⟩)

/-- A scope and a child of it, in both of which somebody listens. -/
def attentiveScopes : Moment :=
  (((first []).act (.create 0 [])).act (.subscribe 0 "db.items" (.trigger 0) false)).act
    (.subscribe 1 "DB.Items" (.trigger 1) false)

/-- A source is set in the outer scope. After the first call, before the child is told, the child is
given a source of its own. -/
def hiddenMeanwhile : Moment :=
  ((attentiveScopes.act (.set 0 (itemsOf "a"))).proceed.act (.set 1 (itemsOf "b")))

/-- Both sources are told to the end. -/
def toldToTheEnd : Moment := hiddenMeanwhile.proceed.proceed.proceed.proceed

theorem child_last_told_stored : ∃ source,
    heard toldToTheEnd.past 1 "db.items" (.trigger 1) = some source ∧
      toldToTheEnd.scopes.local? 1 "DB.ITEMS" = some source := by
  have hreached : Reached Patient toldToTheEnd := by
    have hroot : (first []).scopes.isAlive 0 = true := by decide +kernel
    have hcreated : Later Patient (first []) ((first []).act (.create 0 [])) := .act .refl hroot trivial
    have hstill : ((first []).act (.create 0 [])).scopes.isAlive 0 = true := by decide +kernel
    have hlistens : Later Patient (first []) (((first []).act (.create 0 [])).act
        (.subscribe 0 "db.items" (.trigger 0) false)) :=
      .act hcreated ⟨hstill, fun child hsame => by cases hsame⟩ trivial
    have hchild : (((first []).act (.create 0 [])).act
        (.subscribe 0 "db.items" (.trigger 0) false)).scopes.isAlive 1 = true := by decide +kernel
    have hattentive : Later Patient (first []) attentiveScopes :=
      .act hlistens ⟨hchild, fun child hsame => by cases hsame⟩ trivial
    have houter : attentiveScopes.scopes.isAlive 0 = true := by decide +kernel
    have htold : Later Patient (first []) (attentiveScopes.act (.set 0 (itemsOf "a"))) :=
      .act hattentive ⟨houter, lower_id_make ..⟩ fun _ hnone => by cases hnone
    have hinner : (attentiveScopes.act (.set 0 (itemsOf "a"))).proceed.scopes.isAlive 1 = true := by
      decide +kernel
    have htop : (attentiveScopes.act (.set 0 (itemsOf "a"))).proceed.scopes.parent? 0 = none := by
      decide +kernel
    -- The broadcast that is under way is in the outer scope, and nothing comes up to it.
    have hplaces : (attentiveScopes.act (.set 0 (itemsOf "a"))).proceed.tellings.map
        Telling.scope = [0] := by decide +kernel
    have hsilent : (attentiveScopes.act (.set 0 (itemsOf "a"))).proceed.Silent 1 (itemsOf "b").id := by
      intro telling htelling _ hreach
      have hscope := List.mem_map_of_mem (f := Telling.scope) htelling
      rw [hplaces, List.mem_singleton] at hscope
      rw [hscope] at hreach
      rcases hreach.cases_tail with hsame | ⟨above, -, habove, -⟩
      · cases hsame
      · rw [htop] at habove
        cases habove
    have hhidden : Later Patient (first []) hiddenMeanwhile :=
      .act (.proceed htold) ⟨hinner, lower_id_make ..⟩ hsilent
    exact ⟨[], .proceed (.proceed (.proceed (.proceed hhidden)))⟩
  have hid : Unicode.lower "DB.ITEMS" = "db.items" := by decide +kernel
  have hover : toldToTheEnd.tellings.length = 0 := by decide +kernel
  have hlistens : .trigger 1 ∈ toldToTheEnd.scopes.listeners 1 "db.items" := by decide +kernel
  obtain ⟨source, hheard⟩ := Option.isSome_iff_exists.mp
    (by decide +kernel : (heard toldToTheEnd.past 1 "db.items" (.trigger 1)).isSome = true)
  have hquiet : ∀ telling ∈ toldToTheEnd.tellings, telling.source.id ≠ Unicode.lower "DB.ITEMS" := by
    intro telling htelling
    rw [List.length_eq_zero_iff.mp hover] at htelling
    cases htelling
  have hstored := (last_told_stored hreached hquiet).1 1 (.trigger 1)
  rw [hid] at hstored
  exact ⟨source, hheard, hstored hlistens source hheard⟩

end Moment

/-- What somebody was called with. -/
def Delivery.source : Delivery → Source
  | .handled _ source => source
  | .triggered _ source => source

namespace Scopes

/-- A handler of the host that sets the id it is called for once more, and a component in a child scope
that listens behind it. -/
def hastyScopes : Scopes :=
  let tree := ((create {} none).1.hold 0).grow (some 0) []
  let hasty := { name := "h", actions := [.set 0 "db.items" (.object [("v", .string "b")])] }
  let tree := { tree with hosts := Arena.empty.push hasty }
  ((tree.addHandler 0 "db.items" (.host 0)).1.addHandler 1 "db.items" (.trigger 0)).1

/-- When the broadcast is over, the scope stores the source that the handler set, its first overwriting.
The component was called with it and then with the one before, which is what the child scope still
shows as what it inherited. -/
theorem older_source_told_last :
    let after := (hastyScopes.set 0 (itemsOf "a")).1
    (after.find? 0 "db.items").map Source.versions = some [1] ∧
      after.isInherited 1 "db.items" = true ∧
      (after.local? 1 "db.items").map Source.versions = some [0] ∧
      after.deliveries.map (fun delivery => (delivery.handler, delivery.source.versions)) =
        [(.host 0, [0]), (.host 0, [1]), (.trigger 0, [1]), (.trigger 0, [0])] := by
  decide +kernel

end Scopes

end ReactiveMarkup
