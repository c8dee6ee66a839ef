import ReactiveMarkup.Proofs.Scope.Bridges

/-!
# What a broadcast spreads

Scopes store what was set in them and copies that came over bridges. A copy hides whatever is stored
further up, so it must be what its parent sees.

`Told` says what holds also while a broadcast is under way: what was set directly is stored as the
scope's own, and whatever else is stored is marked as inherited and came over a bridge. `Fresh` says
of a copy that it is what the parent sees. Setting a source makes the copies below it stale at one
stroke, and the broadcast makes them fresh again one after another: everything that a chain of bridges
connects to the scope, down to where another scope hides it. A copy is never out of reach, because
bridges go all the way up. Handlers that register waits in the middle of a broadcast make new bridges,
but a scope that had no bridge before has no copy that could be stale.
-/

namespace ReactiveMarkup.Scopes

open Relation

/-- What was last set directly in every scope, by id. -/
abbrev Direct := ScopeId → String → Option Source

variable {scopes before middle after : Scopes} {direct seen : Direct} {scope parent : ScopeId}
  {id name : String} {source : Source}

/-- What is set directly is stored as the scope's own; anything else that is stored came over a
bridge. -/
structure Stocked (scopes : Scopes) (direct : Direct) : Prop where
  own : ∀ {scope : ScopeId} {id : String} {source : Source}, direct scope id = some source →
    scopes.stored? scope id = some source ∧ scopes.isInherited scope id = false
  copy : ∀ {scope : ScopeId} {id : String} {source : Source}, direct scope id = none →
    scopes.stored? scope id = some source →
      scopes.isInherited scope id = true ∧ scopes.hasBridge scope id = true

/-- Every scope is held, and handlers of the host do nothing but wait. -/
structure Calm (scopes : Scopes) : Prop where
  held : ∀ scope < scopes.scopes.size, scope ∈ scopes.held
  quiet : ∀ number host, scopes.hosts.get? number = some host →
    ∀ action ∈ host.actions, ∃ scope id, action = .wait scope id

theorem Calm.congr (h : Calm before) (hsize : after.scopes.size = before.scopes.size)
    (hheld : after.held = before.held) (hhosts : ∀ number host, after.hosts.get? number = some host →
      ∃ earlier, before.hosts.get? number = some earlier ∧ earlier.actions = host.actions) :
    Calm after where
  held scope hlt := by
    rw [hheld]
    exact h.held scope (hsize ▸ hlt)
  quiet number host hhost := by
    obtain ⟨earlier, hearlier, hactions⟩ := hhosts number host hhost
    rw [← hactions]
    exact h.quiet number earlier hearlier

/-- What holds of scopes at any time, also in the middle of a broadcast. -/
structure Told (scopes : Scopes) (direct : Direct) : Prop where
  wired : Wired scopes
  rising : Rising scopes
  calm : Calm scopes
  stocked : Stocked scopes direct

/-- What every scope sees: its own source, or what its parent sees. -/
def Nearest (scopes : Scopes) (direct seen : Direct) : Prop :=
  ∀ scope id, seen scope id =
    (direct scope id).or ((scopes.parent? scope).bind fun parent => seen parent id)

/-- What a scope stores without being given it is what its parent sees. -/
def Fresh (scopes : Scopes) (direct seen : Direct) (scope : ScopeId) (id : String) : Prop :=
  direct scope id = none → ∀ source, scopes.stored? scope id = some source →
    ∃ parent, scopes.parent? scope = some parent ∧ seen parent id = some source

/-- A source that is told in a scope goes on to a child. -/
def Link (scopes : Scopes) (direct : Direct) (id : String) (parent child : ScopeId) : Prop :=
  scopes.parent? child = some parent ∧ scopes.hasBridge child id = true ∧ direct child id = none

/-- What every part of a broadcast does: it makes no copy stale. -/
structure Keeps (direct seen : Direct) (before after : Scopes) : Prop where
  told : Told after direct
  fresh : ∀ scope id, Fresh before direct seen scope id → Fresh after direct seen scope id
  size : after.scopes.size = before.scopes.size
  parent : ∀ scope, after.parent? scope = before.parent? scope
  bridges : ∀ scope id, before.hasBridge scope id = true → after.hasBridge scope id = true

theorem Told.keeps (h : Told scopes direct) (seen : Direct) : Keeps direct seen scopes scopes :=
  ⟨h, fun _ _ h => h, rfl, fun _ => rfl, fun _ _ h => h⟩

theorem Keeps.trans (h : Keeps direct seen before middle) (h' : Keeps direct seen middle after) :
    Keeps direct seen before after where
  told := h'.told
  fresh scope id hfresh := h'.fresh scope id (h.fresh scope id hfresh)
  size := h'.size.trans h.size
  parent scope := (h'.parent scope).trans (h.parent scope)
  bridges scope id hbridge := h'.bridges scope id (h.bridges scope id hbridge)

theorem Nearest.keeps (h : Nearest before direct seen) (hkeeps : Keeps direct seen before after) :
    Nearest after direct seen := by
  intro scope id
  rw [hkeeps.parent]
  exact h scope id

theorem Link.keeps (hkeeps : Keeps direct seen before after) {child : ScopeId}
    (h : Link before direct id parent child) : Link after direct id parent child :=
  ⟨(hkeeps.parent child).trans h.1, hkeeps.bridges child id h.2.1, h.2.2⟩

theorem Keeps.reaches (hkeeps : Keeps direct seen before after) {below : ScopeId}
    (h : ReflTransGen (Link before direct id) scope below) :
    ReflTransGen (Link after direct id) scope below := by
  induction h with
  | refl => exact .refl
  | tail _ hlink ih => exact ih.tail (hlink.keeps hkeeps)

/-- What only registers makes no copy stale. -/
theorem Told.keeps_of_extends (h : Told before direct) (hextends : Extends before after)
    (seen : Direct) : Keeps direct seen before after where
  told := by
    have hgrows := hextends.grows
    refine ⟨hextends.wired, hextends.rising,
      h.calm.congr hgrows.size hgrows.held hgrows.hosts, ?_, ?_⟩
    · intro scope id source hdirect
      rw [hgrows.stored, hgrows.inherited]
      exact h.stocked.own hdirect
    · intro scope id source hdirect hstored
      rw [hgrows.stored] at hstored
      rw [hgrows.inherited]
      exact (h.stocked.copy hdirect hstored).imp_right (hgrows.bridges scope id)
  fresh scope id hfresh hdirect source hstored := by
    rw [hextends.grows.stored] at hstored
    rw [hextends.grows.parent]
    exact hfresh hdirect source hstored
  size := hextends.grows.size
  parent := hextends.grows.parent
  bridges := hextends.grows.bridges

theorem Told.keeps_of_alike (h : Told before direct) (halike : Alike before after)
    (seen : Direct) : Keeps direct seen before after :=
  h.keeps_of_extends
    ⟨h.wired.sameWires halike.toSameWires, h.rising.sameWires halike.toSameWires, halike.grows⟩ seen

theorem Told.isAlive (h : Told scopes direct) (hlt : scope < scopes.scopes.size) :
    scopes.isAlive scope = true := by
  refine List.any_eq_true.mpr ⟨scope, h.calm.held scope hlt, List.contains_iff_mem.mpr ?_⟩
  rw [h.wired.order.lineage_eq]
  exact List.mem_cons_self

theorem Told.foldl_keeps {α : Type} {step : Scopes → α → Scopes} {items : List α}
    (hstep : ∀ item ∈ items, ∀ scopes, Told scopes direct →
      Keeps direct seen scopes (step scopes item)) (h : Told scopes direct) :
    Keeps direct seen scopes (items.foldl step scopes) := by
  induction items generalizing scopes with
  | nil => exact h.keeps seen
  | cons item rest ih =>
      have hfirst := hstep item List.mem_cons_self scopes h
      exact hfirst.trans
        (ih (fun other hother => hstep other (List.mem_cons_of_mem _ hother)) hfirst.told)

/-! ## Broadcasts -/

/-- A handler of the host that only waits makes no copy stale. -/
theorem Told.callHost_keeps (h : Told scopes direct) (cast : Cast) (number : HandlerId)
    (source : Source) (seen : Direct) :
    Keeps direct seen scopes (callHostBy cast scopes number source) := by
  have hdelivered := h.keeps_of_alike (alike_deliver scopes (.handled number source)) seen
  rw [callHostBy]
  split
  · next actions hhost =>
      have hcalled : Alike (scopes.deliver (.handled number source))
          { scopes.deliver (.handled number source) with
            hosts := (scopes.deliver (.handled number source)).hosts.modify number fun host =>
              { host with called := true } } := by
        refine .of_scopes rfl rfl fun other later hlater => ?_
        rw [Arena.get?_modify] at hlater
        split at hlater
        · obtain ⟨earlier, hearlier, rfl⟩ := Option.map_eq_some_iff.mp hlater
          exact ⟨earlier, hearlier, rfl⟩
        · exact ⟨later, hlater, rfl⟩
      have hbegun := hdelivered.trans (hdelivered.told.keeps_of_alike hcalled seen)
      refine hbegun.trans (hbegun.told.foldl_keeps fun action haction scopes htold => ?_)
      obtain ⟨scope, id, rfl⟩ := h.calm.quiet number _ hhost action haction
      rw [actBy]
      split
      · exact htold.keeps_of_extends (extends_wait htold.wired htold.rising scope id) seen
      · exact htold.keeps seen
  · exact hdelivered

/-- Only what a scope itself stores under an id is another when a copy is forwarded to it. -/
theorem stored?_forward_of_ne {other : ScopeId} (h : ¬(scope = other ∧ source.id = name)) :
    ((scopes.inherit scope source.id).put scope source).stored? other name =
      scopes.stored? other name :=
  (stored?_put_of_ne h).trans stored?_inherit

theorem stored?_forward_self (h : scope < scopes.scopes.size) :
    ((scopes.inherit scope source.id).put scope source).stored? scope source.id = some source :=
  stored?_put_self ((sameWires_inherit scopes scope source.id).size ▸ h)

/-- A scope may be handed a copy over a bridge if it was not given a source of its own. -/
theorem Stocked.forward (h : Stocked scopes direct) (hnone : direct scope source.id = none)
    (hlt : scope < scopes.scopes.size) (hbridge : scopes.hasBridge scope source.id = true) :
    Stocked ((scopes.inherit scope source.id).put scope source) direct := by
  have hsame := (sameWires_inherit scopes scope source.id).trans (sameWires_put _ scope source)
  have hinherited : ∀ other name, ¬(scope = other ∧ source.id = name) →
      ((scopes.inherit scope source.id).put scope source).isInherited other name =
        scopes.isInherited other name :=
    fun other name hplace => isInherited_put.trans (isInherited_inherit_of_ne hplace)
  constructor
  · intro other name given hgiven
    have hplace : ¬(scope = other ∧ source.id = name) := by
      rintro ⟨rfl, rfl⟩
      rw [hnone] at hgiven
      cases hgiven
    rw [stored?_forward_of_ne hplace, hinherited other name hplace]
    exact h.own hgiven
  · intro other name given hgiven hkept
    rw [hsame.bridges]
    by_cases hplace : scope = other ∧ source.id = name
    · obtain ⟨rfl, rfl⟩ := hplace
      exact ⟨isInherited_put.trans (isInherited_inherit_self hlt), hbridge⟩
    · rw [hinherited other name hplace]
      rw [stored?_forward_of_ne hplace] at hkept
      exact h.copy hgiven hkept

/-- A copy that is forwarded to a scope of a bridge is what the parent sees. -/
theorem Told.forward_keeps (h : Told scopes direct) (hnone : direct scope source.id = none)
    (hparent : scopes.parent? scope = some parent)
    (hbridge : scopes.hasBridge scope source.id = true)
    (hseen : seen parent source.id = some source) :
    Keeps direct seen scopes ((scopes.inherit scope source.id).put scope source) := by
  have hlt := lt_size_of_parent? hparent
  have hsame := (sameWires_inherit scopes scope source.id).trans (sameWires_put _ scope source)
  refine ⟨⟨h.wired.sameWires hsame, h.rising.sameWires hsame,
    h.calm.congr hsame.size hsame.held hsame.hosts, h.stocked.forward hnone hlt hbridge⟩, ?_,
    hsame.size, hsame.parent, fun other name hother => (hsame.bridges other name).trans hother⟩
  intro other name hfresh hother given hkept
  rw [hsame.parent]
  by_cases hplace : scope = other ∧ source.id = name
  · obtain ⟨rfl, rfl⟩ := hplace
    rw [stored?_forward_self hlt] at hkept
    exact ⟨parent, hparent, hseen.trans hkept⟩
  · rw [stored?_forward_of_ne hplace] at hkept
    exact hfresh hother given hkept

/-- What a broadcast of what a scope sees is to do, if it may nest deep enough: it makes no copy
stale, and every copy fresh that a chain of bridges connects to the scope. -/
def Spreads (direct seen : Direct) (source : Source) (depth : Nat) (cast : Cast) : Prop :=
  ∀ scopes scope, Told scopes direct → Nearest scopes direct seen →
    scopes.scopes.size ≤ depth + scope → scope < scopes.scopes.size →
      seen scope source.id = some source →
        Keeps direct seen scopes (cast scopes scope source) ∧
          ∀ below, TransGen (Link scopes direct source.id) scope below →
            Fresh (cast scopes scope source) direct seen below source.id

section

variable {depth : Nat} {cast : Cast}

/-- What is forwarded to a scope with a source of its own is left alone. -/
theorem Told.receive_hidden (h : Told scopes direct) (hid : Unicode.lower source.id = source.id)
    {given : Source} (hgiven : direct scope source.id = some given) :
    receiveBy cast scopes scope source = scopes := by
  obtain ⟨hstored, hown⟩ := h.stocked.own hgiven
  rw [receiveBy, local?, hid, hstored, hown]
  rfl

theorem Told.receive_open (h : Told scopes direct) (hid : Unicode.lower source.id = source.id)
    (hnone : direct scope source.id = none) :
    receiveBy cast scopes scope source =
      cast ((scopes.inherit scope source.id).put scope source) scope source := by
  rw [receiveBy, local?, hid, if_neg]
  cases hstored : scopes.stored? scope source.id with
  | none => simp
  | some kept => simp [(h.stocked.copy hnone hstored).1]

/-- Forwarding a source to the end of a bridge makes fresh what is there and what is reached from
there, if nothing was set there. -/
theorem Told.receive_keeps (hcast : Spreads direct seen source depth cast)
    (hid : Unicode.lower source.id = source.id) (h : Told scopes direct)
    (hnearest : Nearest scopes direct seen) (hdepth : scopes.scopes.size ≤ depth + scope)
    (hparent : scopes.parent? scope = some parent)
    (hbridge : scopes.hasBridge scope source.id = true)
    (hseen : seen parent source.id = some source) :
    Keeps direct seen scopes (receiveBy cast scopes scope source) ∧
      (direct scope source.id = none →
        ∀ below, ReflTransGen (Link scopes direct source.id) scope below →
          Fresh (receiveBy cast scopes scope source) direct seen below source.id) := by
  cases hdirect : direct scope source.id with
  | some given =>
      rw [h.receive_hidden hid hdirect]
      exact ⟨h.keeps seen, fun hnone => by cases hnone⟩
  | none =>
      rw [h.receive_open hid hdirect]
      have hforward := h.forward_keeps hdirect hparent hbridge hseen
      have hhere : seen scope source.id = some source := by
        rw [hnearest, hdirect, hparent]
        exact hseen
      obtain ⟨hkeeps, hfresh⟩ := hcast _ scope hforward.told (hnearest.keeps hforward)
        (hforward.size ▸ hdepth) (hforward.size ▸ lt_size_of_parent? hparent) hhere
      refine ⟨hforward.trans hkeeps, fun _ below hbelow => ?_⟩
      rcases hbelow.cases_head with rfl | ⟨child, hchild, hbelow⟩
      · refine hkeeps.fresh _ _ fun _ kept hkept => ?_
        rw [stored?_put_self (by rw [(sameWires_inherit _ _ _).size]; exact lt_size_of_parent? hparent)]
          at hkept
        exact ⟨parent, (hforward.parent scope).trans hparent, hseen.trans hkept⟩
      · exact hfresh below (.head' (hchild.keeps hforward) (hforward.reaches hbelow))

theorem Told.call_keeps (hcast : Spreads direct seen source depth cast)
    (hid : Unicode.lower source.id = source.id) (h : Told scopes direct)
    (hnearest : Nearest scopes direct seen) (hdepth : scopes.scopes.size ≤ depth + 1 + parent)
    (hseen : seen parent source.id = some source) {handler : Handler}
    (hhandler : ∀ child, handler = .bridge child →
      scopes.parent? child = some parent ∧ scopes.hasBridge child source.id = true) :
    Keeps direct seen scopes (callBy cast source scopes handler) ∧
      ∀ child, handler = .bridge child → direct child source.id = none →
        ∀ below, ReflTransGen (Link scopes direct source.id) child below →
          Fresh (callBy cast source scopes handler) direct seen below source.id := by
  cases handler with
  | host number => exact ⟨h.callHost_keeps cast number source seen, fun _ hsame => by cases hsame⟩
  | trigger component =>
      exact ⟨h.keeps_of_alike (alike_deliver scopes (.triggered component source)) seen,
        fun _ hsame => by cases hsame⟩
  | bridge child =>
      obtain ⟨hparent, hbridge⟩ := hhandler child rfl
      have hlt := h.wired.order child parent hparent
      have hcloser : depth + 1 + parent ≤ depth + child := by
        rw [Nat.add_assoc, Nat.add_comm 1]
        exact Nat.add_le_add_left hlt depth
      rw [callBy, if_pos (h.isAlive (lt_size_of_parent? hparent))]
      obtain ⟨hkeeps, hfresh⟩ := h.receive_keeps hcast hid hnearest
        (Nat.le_trans hdepth hcloser) hparent hbridge hseen
      refine ⟨hkeeps, fun other hsame hnone below hbelow => ?_⟩
      obtain rfl := Handler.bridge.inj hsame
      exact hfresh hnone below hbelow

theorem Told.calls_keep (hcast : Spreads direct seen source depth cast)
    (hid : Unicode.lower source.id = source.id) {handlers : List Handler} (h : Told scopes direct)
    (hnearest : Nearest scopes direct seen) (hdepth : scopes.scopes.size ≤ depth + 1 + parent)
    (hseen : seen parent source.id = some source)
    (hhandlers : ∀ child, .bridge child ∈ handlers →
      scopes.parent? child = some parent ∧ scopes.hasBridge child source.id = true) :
    Keeps direct seen scopes (handlers.foldl (callBy cast source) scopes) ∧
      ∀ child, .bridge child ∈ handlers → direct child source.id = none →
        ∀ below, ReflTransGen (Link scopes direct source.id) child below →
          Fresh (handlers.foldl (callBy cast source) scopes) direct seen below source.id := by
  induction handlers generalizing scopes with
  | nil => exact ⟨h.keeps seen, fun _ hnone => by cases hnone⟩
  | cons handler rest ih =>
      obtain ⟨hfirst, hfirstFresh⟩ := h.call_keeps hcast hid hnearest hdepth hseen
        fun child hsame => hhandlers child (hsame ▸ List.mem_cons_self)
      obtain ⟨hrest, hrestFresh⟩ := ih hfirst.told (hnearest.keeps hfirst) (hfirst.size ▸ hdepth)
        fun child hchild => (hhandlers child (List.mem_cons_of_mem _ hchild)).imp
          (hfirst.parent child).trans (hfirst.bridges child source.id)
      refine ⟨hfirst.trans hrest, fun child hchild hnone below hbelow => ?_⟩
      rcases List.mem_cons.mp hchild with hsame | hin
      · exact hrest.fresh _ _ (hfirstFresh child hsame.symm hnone below hbelow)
      · exact hrestFresh child hin hnone below (hfirst.reaches hbelow)

end

/-- A broadcast of what a scope sees does what it is to do. -/
theorem spreads_broadcast (hid : Unicode.lower source.id = source.id) (depth : Nat) :
    Spreads direct seen source depth (broadcast depth) := by
  induction depth with
  | zero =>
      intro scopes scope _ _ hdepth hlt
      exact absurd hdepth (Nat.not_le_of_lt (by rwa [Nat.zero_add]))
  | succ depth ih =>
      intro scopes scope h hnearest hdepth hlt hseen
      rw [broadcast]
      have htaken := h.keeps_of_alike (alike_modify_waiters scopes scope
        fun waiters => waiters.filter (·.1 != source.id)) seen
      obtain ⟨hcalled, hfresh⟩ := htaken.told.calls_keep ih hid (hnearest.keeps htaken)
        (htaken.size ▸ hdepth) hseen fun child hchild => (h.wired.back hchild).imp
          (htaken.parent child).trans (htaken.bridges child source.id)
      have hserved : ∀ promise ∈ scopes.waiters scope source.id, ∀ current, Told current direct →
          Keeps direct seen current (current.resolve (.fulfilled source) promise) :=
        fun promise _ current hcurrent =>
          hcurrent.keeps_of_alike (alike_resolve current (.fulfilled source) promise) seen
      have hended := hcalled.told.foldl_keeps hserved
      refine ⟨(htaken.trans hcalled).trans hended, fun below hbelow => ?_⟩
      obtain ⟨child, ⟨hparent, hbridge, hnone⟩, hbelow⟩ := TransGen.head'_iff.mp hbelow
      exact hended.fresh _ _ (hfresh child (h.wired.there hbridge hparent) hnone below
        (htaken.reaches hbelow))

end ReactiveMarkup.Scopes
