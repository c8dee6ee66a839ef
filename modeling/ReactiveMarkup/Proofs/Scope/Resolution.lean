import ReactiveMarkup.Proofs.Scope.Spread

/-!
# What a scope sees

A scope sees the source that was set last in the nearest scope at or above it in which the id was
ever set. That is what looking up along the lineage would give if every scope stored nothing but what
was set in it directly. In fact there are copies in between, and a copy could show what is old or what
another scope hides. It never does: between two things that happen, every copy is what its parent
sees.
-/

namespace ReactiveMarkup.Scopes

open Relation

variable {scopes before after : Scopes} {direct seen : Direct} {scope : ScopeId} {id name : String}
  {source : Source}

/-! ## Setting a source -/

/-- The record of what was set directly, with one source more. -/
def Direct.give (direct : Direct) (scope : ScopeId) (source : Source) : Direct :=
  fun other id => if scope = other ∧ source.id = id then some source else direct other id

theorem Direct.give_self : direct.give scope source scope source.id = some source :=
  if_pos ⟨rfl, rfl⟩

theorem Direct.give_of_ne {other : ScopeId} (h : ¬(scope = other ∧ source.id = name)) :
    direct.give scope source other name = direct other name := if_neg h

theorem stored?_store_of_ne {other : ScopeId} (h : ¬(scope = other ∧ source.id = name)) :
    ((scopes.own scope source.id).put scope source).stored? other name =
      scopes.stored? other name :=
  (stored?_put_of_ne h).trans stored?_own

theorem stored?_store_self (h : scope < scopes.scopes.size) :
    ((scopes.own scope source.id).put scope source).stored? scope source.id = some source :=
  stored?_put_self ((sameWires_own scopes scope source.id).size ▸ h)

theorem Stocked.store (h : Stocked scopes direct) (hlt : scope < scopes.scopes.size) :
    Stocked ((scopes.own scope source.id).put scope source) (direct.give scope source) := by
  have hsame := (sameWires_own scopes scope source.id).trans (sameWires_put _ scope source)
  have hinherited : ∀ other name, ¬(scope = other ∧ source.id = name) →
      ((scopes.own scope source.id).put scope source).isInherited other name =
        scopes.isInherited other name :=
    fun other name hplace => isInherited_put.trans (isInherited_own_of_ne hplace)
  constructor
  · intro other name given hgiven
    by_cases hplace : scope = other ∧ source.id = name
    · obtain ⟨rfl, rfl⟩ := hplace
      rw [Direct.give_self] at hgiven
      rw [← hgiven]
      exact ⟨stored?_store_self hlt, isInherited_put.trans isInherited_own_self⟩
    · rw [Direct.give_of_ne hplace] at hgiven
      rw [stored?_store_of_ne hplace, hinherited other name hplace]
      exact h.own hgiven
  · intro other name given hgiven hkept
    have hplace : ¬(scope = other ∧ source.id = name) := by
      rintro ⟨rfl, rfl⟩
      rw [Direct.give_self] at hgiven
      cases hgiven
    rw [Direct.give_of_ne hplace] at hgiven
    rw [stored?_store_of_ne hplace] at hkept
    rw [hinherited other name hplace, hsame.bridges]
    exact h.copy hgiven hkept

/-- What a scope stores as its own from now on. -/
theorem Told.store_told (h : Told scopes direct) (hlt : scope < scopes.scopes.size) :
    Told ((scopes.own scope source.id).put scope source) (direct.give scope source) := by
  have hsame := (sameWires_own scopes scope source.id).trans (sameWires_put _ scope source)
  exact ⟨h.wired.sameWires hsame, h.rising.sameWires hsame,
    h.calm.congr hsame.size hsame.held hsame.hosts, h.stocked.store hlt⟩

section

variable {later : Direct}

/-- Another id is seen as before. -/
theorem Nearest.seen_other (hwired : Wired scopes) (hnearest : Nearest scopes direct seen)
    (hlater : Nearest scopes (direct.give scope source) later) (hname : source.id ≠ name)
    (other : ScopeId) : later other name = seen other name := by
  induction other using Nat.strongRecOn with
  | ind other ih =>
      rw [hlater, hnearest, Direct.give_of_ne fun hplace => hname hplace.2]
      cases hparent : scopes.parent? other with
      | none => rfl
      | some parent => rw [Option.bind_some, Option.bind_some, ih parent (hwired.order _ _ hparent)]

/-- A scope with a bridge to a parent that sees something else than before is reached from where a
source was set. -/
theorem seen_or_reached (hwired : Wired scopes) (hrising : Rising scopes)
    (hnearest : Nearest scopes direct seen)
    (hlater : Nearest scopes (direct.give scope source) later) (other : ScopeId)
    {parent : ScopeId} (hparent : scopes.parent? other = some parent)
    (hbridge : scopes.hasBridge other source.id = true)
    (hnone : direct.give scope source other source.id = none) :
    later parent source.id = seen parent source.id ∨
      TransGen (Link scopes (direct.give scope source) source.id) scope other := by
  induction other using Nat.strongRecOn generalizing parent with
  | ind other ih =>
      have hlink : Link scopes (direct.give scope source) source.id parent other :=
        ⟨hparent, hbridge, hnone⟩
      by_cases hscope : scope = parent
      · obtain rfl := hscope
        exact .inr (.single hlink)
      · have hsame : direct.give scope source parent source.id = direct parent source.id :=
          Direct.give_of_ne fun hplace => hscope hplace.1
        rw [hlater parent, hnearest parent, hsame]
        cases hdirect : direct parent source.id with
        | some given => exact .inl rfl
        | none =>
            cases habove : scopes.parent? parent with
            | none => exact .inl rfl
            | some above =>
                have hrises := hrising other parent above source.id hbridge hparent habove
                rcases ih parent (hwired.order _ _ hparent) habove hrises (hsame.trans hdirect)
                  with hseen | hreached
                · exact .inl hseen
                · exact .inr (hreached.tail hlink)

/-- Broadcasts can nest deep enough to get to every scope. -/
theorem size_le_castDepth (scopes : Scopes) (scope : ScopeId) :
    scopes.scopes.size ≤ scopes.castDepth + scope :=
  Nat.le_trans (Nat.le_succ _) (Nat.le_trans
    (Nat.le_mul_of_pos_left _ (Nat.succ_pos _)) (Nat.le_add_right _ _))

/-- When a source is stored as a scope's own and told, every scope comes to see what it should. -/
theorem Told.give_fresh (h : Told scopes direct)
    (hfresh : ∀ other name, Fresh scopes direct seen other name)
    (hnearest : Nearest scopes direct seen) (hid : Unicode.lower source.id = source.id)
    (hlt : scope < scopes.scopes.size)
    (hlater : Nearest scopes (direct.give scope source) later) :
    Keeps (direct.give scope source) later ((scopes.own scope source.id).put scope source)
        (announce ((scopes.own scope source.id).put scope source) scope source) ∧
      ∀ other name, Fresh (announce ((scopes.own scope source.id).put scope source) scope source)
        (direct.give scope source) later other name := by
  have hstored : Told ((scopes.own scope source.id).put scope source) (direct.give scope source) :=
    h.store_told hlt
  have hsame := (sameWires_own scopes scope source.id).trans (sameWires_put _ scope source)
  generalize hkept : (scopes.own scope source.id).put scope source = kept at hstored hsame ⊢
  have hnear : Nearest kept (direct.give scope source) later := by
    intro other name
    rw [hsame.parent]
    exact hlater other name
  have hseen : later scope source.id = some source := by
    rw [hnear, Direct.give_self]
    rfl
  obtain ⟨hkeeps, hreached⟩ := spreads_broadcast hid kept.castDepth kept scope hstored hnear
    (size_le_castDepth kept scope) (hsame.size ▸ hlt) hseen
  refine ⟨hkeeps, fun other name => ?_⟩
  -- A copy is either reached by the broadcast, or it was fresh all the time.
  by_cases hbelow : name = source.id ∧
      TransGen (Link kept (direct.give scope source) source.id) scope other
  · obtain ⟨rfl, hbelow⟩ := hbelow
    exact hreached other hbelow
  · refine hkeeps.fresh other name fun hnone given hgiven => ?_
    have hplace : ¬(scope = other ∧ source.id = name) := by
      rintro ⟨rfl, rfl⟩
      rw [Direct.give_self] at hnone
      cases hnone
    have hnoneBefore := hnone
    rw [Direct.give_of_ne hplace] at hnoneBefore
    have hgivenBefore : scopes.stored? other name = some given := by
      rw [← hkept, stored?_put_of_ne hplace, stored?_own] at hgiven
      exact hgiven
    obtain ⟨parent, hparent, hsaw⟩ := hfresh other name hnoneBefore given hgivenBefore
    refine ⟨parent, (hsame.parent other).trans hparent, ?_⟩
    by_cases hname : source.id = name
    · obtain rfl := hname
      have hbridge := (h.stocked.copy hnoneBefore hgivenBefore).2
      rcases seen_or_reached h.wired h.rising hnearest hlater other hparent hbridge hnone with hsee | hreach
      · exact hsee.trans hsaw
      · have hlinks : Link kept (direct.give scope source) source.id =
            Link scopes (direct.give scope source) source.id := by
          funext above child
          rw [Link, Link, hsame.parent, hsame.bridges]
        exact absurd ⟨rfl, hlinks ▸ hreach⟩ hbelow
    · rw [Nearest.seen_other h.wired hnearest hlater hname]
      exact hsaw

end

theorem set_eq (scopes : Scopes) (scope : ScopeId) (source : Source) :
    (scopes.set scope source).2.id = source.id ∧
      (scopes.set scope source).1 =
        announce ((scopes.own scope (scopes.set scope source).2.id).put scope
          (scopes.set scope source).2) scope (scopes.set scope source).2 := by
  have hid : (scopes.set scope source).2.id = source.id := by
    rw [set, setBy]
    dsimp only
    cases hstored : scopes.stored? scope source.id with
    | none => rfl
    | some stored =>
        change stored.id = source.id
        exact stored?_id hstored
  exact ⟨hid, by rw [hid]; rfl⟩

/-! ## Every history -/

/-- However a source is made, its id is in lower case. -/
theorem lower_id_make (id : String) (rows : List Row) (options : SourceOptions) :
    Unicode.lower (Source.make id rows options).id = (Source.make id rows options).id :=
  Unicode.lower_lower id

/-- What may happen to scopes that nobody disposes of: scopes are made below others, sources are set
anywhere, and handlers and waits come and go. Handlers of the host do nothing but wait. Next to it
stands what was last set directly in every scope. -/
inductive History : Scopes → Direct → Prop
  | root (settings : Fields) : History ((create {} none settings).1.hold 0) fun _ _ => none
  | child {scopes : Scopes} {direct : Direct} (before : History scopes direct) {parent : ScopeId}
      (there : parent < scopes.scopes.size) (settings : Fields) :
      History ((scopes.create (some parent) settings).1.hold scopes.scopes.size) direct
  | set {scopes : Scopes} {direct : Direct} (before : History scopes direct) {scope : ScopeId}
      (there : scope < scopes.scopes.size) {source : Source}
      (small : Unicode.lower source.id = source.id) :
      History (scopes.set scope source).1 (direct.give scope (scopes.set scope source).2)
  | host {scopes : Scopes} {direct : Direct} (before : History scopes direct) (name : String)
      {actions : List HandlerAction} (quiet : ∀ action ∈ actions, ∃ scope id, action = .wait scope id) :
      History { scopes with hosts := scopes.hosts.push { name, actions } } direct
  | subscribe {scopes : Scopes} {direct : Direct} (before : History scopes direct) (scope : ScopeId)
      (id : String) {handler : Handler} (outside : ∀ child, handler ≠ .bridge child) :
      History (scopes.addHandler scope id handler).1 direct
  | unsubscribe {scopes : Scopes} {direct : Direct} (before : History scopes direct)
      (scope : ScopeId) (id : String) {handler : Handler} (outside : ∀ child, handler ≠ .bridge child) :
      History (scopes.removeHandler scope id handler).1 direct
  | wait {scopes : Scopes} {direct : Direct} (before : History scopes direct) (scope : ScopeId)
      (id : String) : History (scopes.wait scope id).1 direct
  | attend {scopes : Scopes} {direct : Direct} (before : History scopes direct) :
      History { scopes with deliveries := [] } direct

/-- What holds between two things that happen. -/
def Settled (scopes : Scopes) (direct : Direct) : Prop :=
  Told scopes direct ∧ ∃ seen, Nearest scopes direct seen ∧
    ∀ scope id, Fresh scopes direct seen scope id

/-- The nearest source along the lineage is what a scope is to see. -/
theorem Ordered.nearest (h : scopes.Ordered) (direct : Direct) :
    Nearest scopes direct fun scope id =>
      (scopes.lineage scope).findSome? fun above => direct above id := by
  intro scope id
  dsimp only
  rw [h.lineage_eq, List.findSome?_cons]
  cases direct scope id with
  | some given => rfl
  | none => cases scopes.parent? scope <;> rfl

theorem Nearest.unique {later : Direct} (h : Nearest scopes direct seen) (horder : scopes.Ordered)
    (hlater : Nearest scopes direct later) : seen = later := by
  funext scope id
  induction scope using Nat.strongRecOn with
  | ind scope ih =>
      rw [h, hlater]
      cases hparent : scopes.parent? scope with
      | none => rfl
      | some parent => rw [Option.bind_some, Option.bind_some, ih parent (horder _ _ hparent)]

theorem Settled.keeps (h : Settled before direct)
    (hkeeps : ∀ seen, Keeps direct seen before after) : Settled after direct := by
  obtain ⟨-, seen, hnearest, hfresh⟩ := h
  exact ⟨(hkeeps seen).told, seen, hnearest.keeps (hkeeps seen),
    fun scope id => (hkeeps seen).fresh scope id (hfresh scope id)⟩

theorem Settled.set (h : Settled scopes direct) (hlt : scope < scopes.scopes.size)
    (hid : Unicode.lower source.id = source.id) :
    Settled (scopes.set scope source).1 (direct.give scope (scopes.set scope source).2) := by
  obtain ⟨htold, seen, hnearest, hfresh⟩ := h
  obtain ⟨hsame, hset⟩ := set_eq scopes scope source
  have hlater := htold.wired.order.nearest (direct.give scope (scopes.set scope source).2)
  obtain ⟨hkeeps, hfreshAfter⟩ := htold.give_fresh hfresh hnearest (hsame ▸ hid) hlt hlater
  have hwires := (sameWires_own scopes scope (scopes.set scope source).2.id).trans
    (sameWires_put _ scope (scopes.set scope source).2)
  rw [hset]
  refine ⟨hkeeps.told, _, ?_, hfreshAfter⟩
  intro other name
  rw [hkeeps.parent, hwires.parent]
  exact hlater other name

/-! ### New scopes -/

/-- The scopes with one more below another one. -/
def grow (scopes : Scopes) (parent : Option ScopeId) (settings : Fields) : Scopes :=
  (scopes.create parent settings).1.hold scopes.scopes.size

theorem look_grow {α : Type} {default : α} {f : Scope → α} (scopes : Scopes)
    (above : Option ScopeId) (settings : Fields) (other : ScopeId) :
    (scopes.grow above settings).look other default f =
      if other = scopes.scopes.size then f { parent := above, settings }
      else scopes.look other default f := by
  rw [look, grow, hold, create]
  dsimp only
  rw [Arena.get?_push]
  by_cases hnew : other = scopes.scopes.size
  · rw [if_pos hnew, if_pos hnew]
  · rw [if_neg hnew, if_neg hnew, look]

theorem look_grow_of_blank {α : Type} {default : α} {f : Scope → α} {above : Option ScopeId}
    {settings : Fields} (hblank : f { parent := above, settings } = default) (other : ScopeId) :
    (scopes.grow above settings).look other default f = scopes.look other default f := by
  rw [look_grow]
  split
  · next hsame => rw [hblank, hsame, look_of_ge (Nat.le_refl _)]
  · rfl

theorem parent?_grow (above : Option ScopeId) (settings : Fields) (other : ScopeId) :
    (scopes.grow above settings).parent? other =
      if other = scopes.scopes.size then above else scopes.parent? other := look_grow ..

theorem stored?_grow (above : Option ScopeId) (settings : Fields) (other : ScopeId) :
    (scopes.grow above settings).stored? other id = scopes.stored? other id := by
  rw [stored?, look_grow_of_blank (f := Scope.sources) rfl, stored?]

theorem isInherited_grow (above : Option ScopeId) (settings : Fields) (other : ScopeId) :
    (scopes.grow above settings).isInherited other id = scopes.isInherited other id := by
  rw [isInherited, look_grow_of_blank (f := Scope.inherited) rfl, isInherited]

theorem hasBridge_grow (above : Option ScopeId) (settings : Fields) (other : ScopeId) :
    (scopes.grow above settings).hasBridge other id = scopes.hasBridge other id := by
  rw [hasBridge, look_grow_of_blank (f := Scope.bridges) rfl, hasBridge]

theorem handlers_grow (above : Option ScopeId) (settings : Fields) (other : ScopeId) :
    (scopes.grow above settings).handlers other id = scopes.handlers other id := by
  rw [handlers, look_grow_of_blank (f := Scope.handlers) rfl, handlers]

theorem lt_size_of_hasBridge (h : scopes.hasBridge scope id = true) :
    scope < scopes.scopes.size := by
  refine Nat.lt_of_not_le fun hge => ?_
  rw [hasBridge, look_of_ge hge] at h
  cases h

/-- What has a bridge, and what it leads to, is older than a new scope. -/
theorem parent?_grow_of_hasBridge {above : Option ScopeId} {settings : Fields} {other : ScopeId}
    (hbridge : scopes.hasBridge other name = true) :
    (scopes.grow above settings).parent? other = scopes.parent? other := by
  rw [parent?_grow, if_neg (Nat.ne_of_lt (lt_size_of_hasBridge hbridge))]

theorem Wired.grow (h : Wired scopes) {above : Option ScopeId}
    (habove : ∀ parent ∈ above, parent < scopes.scopes.size) (settings : Fields) :
    Wired (scopes.grow above settings) := by
  refine ⟨?_, ?_, ?_⟩
  · intro other parent hparent
    rw [parent?_grow] at hparent
    split at hparent
    · next hnew => exact hnew ▸ habove parent hparent
    · exact h.order other parent hparent
  · intro other parent name hbridge hparent
    rw [hasBridge_grow] at hbridge
    rw [parent?_grow_of_hasBridge hbridge] at hparent
    rw [handlers_grow]
    exact h.there hbridge hparent
  · intro other parent name hmem
    rw [handlers_grow] at hmem
    have hback := h.back hmem
    rw [hasBridge_grow, parent?_grow_of_hasBridge hback.2]
    exact hback

theorem Rising.grow (h : Rising scopes) (horder : scopes.Ordered) (above : Option ScopeId)
    (settings : Fields) : Rising (scopes.grow above settings) := by
  intro other parent higher name hbridge hparent hhigher
  rw [hasBridge_grow] at hbridge ⊢
  rw [parent?_grow_of_hasBridge hbridge] at hparent
  have hlt := Nat.lt_trans (horder other parent hparent) (lt_size_of_parent? hparent)
  rw [parent?_grow, if_neg (Nat.ne_of_lt hlt)] at hhigher
  exact h other parent higher name hbridge hparent hhigher

theorem Stocked.grow (h : Stocked scopes direct) (above : Option ScopeId) (settings : Fields) :
    Stocked (scopes.grow above settings) direct := by
  constructor
  · intro other name given hgiven
    rw [stored?_grow, isInherited_grow]
    exact h.own hgiven
  · intro other name given hgiven hkept
    rw [stored?_grow] at hkept
    rw [isInherited_grow, hasBridge_grow]
    exact h.copy hgiven hkept

theorem Told.grow (h : Told scopes direct) {above : Option ScopeId}
    (habove : ∀ parent ∈ above, parent < scopes.scopes.size) (settings : Fields) :
    Told (scopes.grow above settings) direct := by
  refine ⟨h.wired.grow habove settings, h.rising.grow h.wired.order above settings,
    ⟨?_, h.calm.quiet⟩, h.stocked.grow above settings⟩
  intro other hlt
  rcases Nat.lt_succ_iff_lt_or_eq.mp (Arena.size_push scopes.scopes _ ▸ hlt) with hlt | rfl
  · exact List.mem_cons_of_mem _ (h.calm.held other hlt)
  · exact List.mem_cons_self

theorem Settled.grow (h : Settled scopes direct) {above : Option ScopeId}
    (habove : ∀ parent ∈ above, parent < scopes.scopes.size) (settings : Fields) :
    Settled (scopes.grow above settings) direct := by
  obtain ⟨htold, seen, hnearest, hfresh⟩ := h
  have hgrown := htold.grow habove settings
  have hlater := hgrown.wired.order.nearest direct
  refine ⟨hgrown, _, hlater, ?_⟩
  generalize hview : (fun scope id => ((scopes.grow above settings).lineage scope).findSome?
    fun above => direct above id) = later at hlater
  have hsame : ∀ other < scopes.scopes.size, ∀ name, later other name = seen other name := by
    intro other
    induction other using Nat.strongRecOn with
    | ind other ih =>
        intro hlt name
        rw [hlater, hnearest, parent?_grow, if_neg (Nat.ne_of_lt hlt)]
        cases hparent : scopes.parent? other with
        | none => rfl
        | some parent =>
            have hless := htold.wired.order other parent hparent
            rw [Option.bind_some, Option.bind_some, ih parent hless (Nat.lt_trans hless hlt)]
  intro other name hnone given hkept
  rw [stored?_grow] at hkept
  obtain ⟨parent, hparent, hsaw⟩ := hfresh other name hnone given hkept
  have hlt := lt_size_of_parent? hparent
  refine ⟨parent, ?_, ?_⟩
  · rw [parent?_grow, if_neg (Nat.ne_of_lt hlt)]
    exact hparent
  · rw [hsame parent (Nat.lt_trans (htold.wired.order other parent hparent) hlt)]
    exact hsaw

/-! ### Looking up -/

theorem Settled.keeps_alike (h : Settled before direct) (halike : Alike before after) :
    Settled after direct := h.keeps fun seen => h.1.keeps_of_alike halike seen

theorem settled_root (settings : Fields) :
    Settled ((create {} none settings).1.hold 0) fun _ _ => none := by
  have hblank : Told {} fun _ _ => none :=
    ⟨⟨fun _ _ hparent => (by cases hparent), fun hbridge => (by cases hbridge),
        fun hmem => (by cases hmem)⟩, fun _ _ _ _ hbridge => (by cases hbridge),
      ⟨fun _ hlt => absurd hlt (Nat.not_lt_zero _), fun _ _ hhost => (by cases hhost)⟩,
      ⟨fun hgiven => (by cases hgiven), fun _ hkept => (by cases hkept)⟩⟩
  have hnone : Settled {} fun _ _ => none :=
    ⟨hblank, _, hblank.wired.order.nearest _, fun _ _ _ _ hkept => (by cases hkept)⟩
  exact hnone.grow (fun _ hparent => by cases hparent) settings

/-- A new handler of the host that only waits. -/
theorem Settled.host (h : Settled scopes direct) (host : HostHandler)
    (hquiet : ∀ action ∈ host.actions, ∃ scope id, action = .wait scope id) :
    Settled { scopes with hosts := scopes.hosts.push host } direct := by
  obtain ⟨htold, hseen⟩ := h
  refine ⟨⟨htold.wired.congr (fun _ => rfl) (fun _ _ => rfl) fun _ _ _ => .rfl,
    htold.rising.congr (fun _ => rfl) fun _ _ => rfl, ⟨htold.calm.held, ?_⟩,
    ⟨htold.stocked.own, htold.stocked.copy⟩⟩, hseen⟩
  intro number other hother
  rw [Arena.get?_push] at hother
  split at hother
  · cases hother
    exact hquiet
  · exact htold.calm.quiet number other hother

theorem History.settled (h : History scopes direct) : Settled scopes direct := by
  induction h with
  | root settings => exact settled_root settings
  | child _ there settings ih =>
      exact ih.grow (fun _ hparent => Option.some.inj hparent ▸ there) settings
  | set _ there small ih => exact ih.set there small
  | host _ name quiet ih => exact ih.host ⟨name, _, false⟩ quiet
  | subscribe _ scope id outside ih =>
      exact ih.keeps fun seen =>
        ih.1.keeps_of_extends (extends_addHandler ih.1.wired ih.1.rising scope id outside) seen
  | unsubscribe _ scope id outside ih =>
      exact ih.keeps fun seen =>
        ih.1.keeps_of_extends (extends_removeHandler ih.1.wired ih.1.rising scope id outside) seen
  | wait _ scope id ih =>
      exact ih.keeps fun seen =>
        ih.1.keeps_of_extends (extends_wait ih.1.wired ih.1.rising scope id) seen
  | attend _ ih => exact ih.keeps_alike (.of_scopes rfl rfl fun _ host h => ⟨host, h, rfl⟩)

/-- Looking up finds what a scope is to see, if no copy on the way up is stale. -/
theorem find?_eq_seen (horder : scopes.Ordered) (hstocked : Stocked scopes direct)
    (hnearest : Nearest scopes direct seen)
    (hfresh : ∀ above ∈ scopes.lineage scope, Fresh scopes direct seen above (Unicode.lower id)) :
    scopes.find? scope id = seen scope (Unicode.lower id) := by
  rw [find?]
  induction scope using Nat.strongRecOn with
  | ind scope ih =>
      rw [horder.lineage_eq] at hfresh
      rw [horder.lineage_eq, List.findSome?_cons, local?, hnearest]
      cases hdirect : direct scope (Unicode.lower id) with
      | some given => rw [(hstocked.own hdirect).1]; rfl
      | none =>
          cases hstored : scopes.stored? scope (Unicode.lower id) with
          | some kept =>
              obtain ⟨parent, hparent, hsaw⟩ := hfresh scope List.mem_cons_self hdirect kept hstored
              rw [hparent, Option.none_or, Option.bind_some, hsaw]
          | none =>
              cases hparent : scopes.parent? scope with
              | none => rfl
              | some parent =>
                  rw [hparent] at hfresh
                  exact ih parent (horder scope parent hparent) fun above habove =>
                    hfresh above (List.mem_cons_of_mem _ habove)

theorem Settled.find?_eq {seen : Direct} (h : Told scopes direct)
    (hnearest : Nearest scopes direct seen)
    (hfresh : ∀ scope id, Fresh scopes direct seen scope id) (scope : ScopeId) (id : String) :
    scopes.find? scope id = seen scope (Unicode.lower id) :=
  find?_eq_seen h.wired.order h.stocked hnearest fun above _ => hfresh above _

/-- Whatever happened to scopes that nobody disposed of: looking an id up gives what was last set
directly in the nearest scope in which it was ever set, and nothing if there is none. -/
theorem find?_eq_nearest (h : History scopes direct) (scope : ScopeId) (id : String) :
    scopes.find? scope id =
      (scopes.lineage scope).findSome? fun above => direct above (Unicode.lower id) := by
  obtain ⟨htold, seen, hnearest, hfresh⟩ := h.settled
  rw [Settled.find?_eq htold hnearest hfresh,
    hnearest.unique htold.wired.order (htold.wired.order.nearest direct)]

/-- A source of one row. -/
def itemsOf (v : String) : Source := .make "db.items" [[("v", .string v)]]

/-- Three scopes below each other; the innermost one listens. -/
def listeningScopes : Scopes :=
  ((((create {} none).1.hold 0).grow (some 0) []).grow (some 1) []).addHandler 2 "DB.Items"
    (.trigger 0) |>.1

/-- A source is set in the outermost scope, hidden by the one in the middle, and set again. -/
def shadowedScopes : Scopes :=
  (((listeningScopes.set 0 (itemsOf "a")).1.set 1 (itemsOf "b")).1.set 0 (itemsOf "c")).1

theorem shadowed_find? : ∃ direct, History shadowedScopes direct ∧
    shadowedScopes.find? 2 "DB.ITEMS" =
      (shadowedScopes.lineage 2).findSome? fun above => direct above (Unicode.lower "DB.ITEMS") := by
  have hscopes : History (((((create {} none).1.hold 0).grow (some 0) []).grow (some 1) [])) _ :=
    .child (.child (.root []) (by decide) []) (by decide) []
  have hlistening : History listeningScopes _ :=
    hscopes.subscribe 2 "DB.Items" fun _ hsame => by cases hsame
  have hset : History shadowedScopes _ :=
    ((hlistening.set (by decide +kernel) (lower_id_make ..)).set (by decide +kernel)
      (lower_id_make ..)).set (by decide +kernel) (lower_id_make ..)
  exact ⟨_, hset, find?_eq_nearest hset 2 "DB.ITEMS"⟩

end ReactiveMarkup.Scopes
