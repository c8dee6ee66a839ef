import Mathlib.Data.List.Nodup
import ReactiveMarkup.Proofs.Scope.Effects
import ReactiveMarkup.Proofs.Scope.Moments

/-!
# What is true at every moment

Whatever the host does, and however broadcasts nest: a broadcast that is under way goes on in a scope
that lives, the bridges it is still to call lead to children of this scope, and the record knows when
it began. So an entry that a broadcast left in the record leads back to the scope and the source it
was about.

Scopes that live no more never come back, since nobody can take a hold on them, and a new scope lives
below one that does.
-/

namespace ReactiveMarkup

namespace Scopes

variable {scopes : Scopes} {scope other lower : ScopeId}

/-! ## Who lives -/

theorem isAlive_iff :
    scopes.isAlive scope = true ↔ ∃ held ∈ scopes.held, scope ∈ scopes.lineage held := by
  simp only [isAlive, List.any_eq_true, List.contains_iff_mem]

theorem mem_lineage_self (scopes : Scopes) (scope : ScopeId) : scope ∈ scopes.lineage scope := by
  rw [lineage, lineageTo]
  exact List.mem_cons_self

theorem Ordered.mem_lineage (h : scopes.Ordered) :
    other ∈ scopes.lineage scope ↔ other = scope ∨
      ∃ parent, scopes.parent? scope = some parent ∧ other ∈ scopes.lineage parent := by
  rw [h.lineage_eq, List.mem_cons]
  cases scopes.parent? scope <;> simp

theorem Ordered.le_of_mem_lineage (h : scopes.Ordered) (hmem : other ∈ scopes.lineage scope) :
    other ≤ scope := by
  induction scope using Nat.strongRecOn with
  | ind scope ih =>
      rcases h.mem_lineage.mp hmem with rfl | ⟨parent, hparent, hup⟩
      · exact Nat.le_refl other
      · have hlt := h scope parent hparent
        exact Nat.le_trans (ih parent hlt hup) (Nat.le_of_lt hlt)

theorem Ordered.mem_lineage_trans (h : scopes.Ordered) (hother : other ∈ scopes.lineage scope)
    (hscope : scope ∈ scopes.lineage lower) : other ∈ scopes.lineage lower := by
  induction lower using Nat.strongRecOn with
  | ind lower ih =>
      rcases h.mem_lineage.mp hscope with rfl | ⟨parent, hparent, hup⟩
      · exact hother
      · exact h.mem_lineage.mpr (.inr ⟨parent, hparent, ih parent (h lower parent hparent) hup⟩)

/-- Whatever is above a scope that lives, lives. -/
theorem Ordered.isAlive_above (h : scopes.Ordered) (halive : scopes.isAlive scope = true)
    (hother : other ∈ scopes.lineage scope) : scopes.isAlive other = true := by
  obtain ⟨held, hheld, hscope⟩ := isAlive_iff.mp halive
  exact isAlive_iff.mpr ⟨held, hheld, h.mem_lineage_trans hother hscope⟩

theorem Ordered.lt_size_of_isAlive (h : scopes.Ordered)
    (hheld : ∀ held ∈ scopes.held, held < scopes.scopes.size)
    (halive : scopes.isAlive scope = true) : scope < scopes.scopes.size := by
  obtain ⟨held, hmem, hscope⟩ := isAlive_iff.mp halive
  exact Nat.lt_of_le_of_lt (h.le_of_mem_lineage hscope) (hheld held hmem)

variable {parent : ScopeId} {settings : Fields}

theorem size_grow (scopes : Scopes) (above : Option ScopeId) (settings : Fields) :
    (scopes.grow above settings).scopes.size = scopes.scopes.size + 1 :=
  Arena.size_push scopes.scopes _

theorem Ordered.grow (h : scopes.Ordered) (hlt : parent < scopes.scopes.size) :
    (scopes.grow (some parent) settings).Ordered := by
  intro below above habove
  rw [parent?_grow] at habove
  split at habove
  · next hnew =>
      obtain rfl := Option.some.inj habove
      rwa [hnew]
  · exact h below above habove

theorem Ordered.lineage_grow (h : scopes.Ordered) (hparent : parent < scopes.scopes.size)
    (hlt : scope < scopes.scopes.size) :
    (scopes.grow (some parent) settings).lineage scope = scopes.lineage scope := by
  induction scope using Nat.strongRecOn with
  | ind scope ih =>
      rw [(h.grow hparent).lineage_eq, h.lineage_eq, parent?_grow, if_neg (Nat.ne_of_lt hlt)]
      cases habove : scopes.parent? scope with
      | none => rfl
      | some above =>
          have hless := h scope above habove
          exact congrArg _ (ih above hless (Nat.lt_trans hless hlt))

/-- A new scope lives, and below a scope that lives it wakes nobody up. -/
theorem Ordered.isAlive_grow (h : scopes.Ordered)
    (hheld : ∀ held ∈ scopes.held, held < scopes.scopes.size)
    (halive : scopes.isAlive parent = true) :
    (scopes.grow (some parent) settings).isAlive other = true ↔
      other = scopes.scopes.size ∨ scopes.isAlive other = true := by
  have hparent := h.lt_size_of_isAlive hheld halive
  have hnew : other ∈ (scopes.grow (some parent) settings).lineage scopes.scopes.size ↔
      other = scopes.scopes.size ∨ other ∈ scopes.lineage parent := by
    rw [(h.grow hparent).mem_lineage, parent?_grow, if_pos rfl]
    simp only [Option.some.injEq, exists_eq_left', h.lineage_grow hparent hparent]
  have hold : ∀ held ∈ scopes.held,
      (scopes.grow (some parent) settings).lineage held = scopes.lineage held :=
    fun held hmem => h.lineage_grow hparent (hheld held hmem)
  rw [isAlive_iff]
  constructor
  · rintro ⟨held, hmem, hother⟩
    rcases List.mem_cons.mp hmem with rfl | hmem
    · exact (hnew.mp hother).imp_right (h.isAlive_above halive)
    · rw [hold held hmem] at hother
      exact .inr (isAlive_iff.mpr ⟨held, hmem, hother⟩)
  · rintro (rfl | hother)
    · exact ⟨_, List.mem_cons_self, hnew.mpr (.inl rfl)⟩
    · obtain ⟨held, hmem, hin⟩ := isAlive_iff.mp hother
      exact ⟨held, List.mem_cons_of_mem _ hmem, hold held hmem ▸ hin⟩

theorem lineage_of_held (scopes : Scopes) (held : List ScopeId) (scope : ScopeId) :
    { scopes with held }.lineage scope = scopes.lineage scope := by
  have hparent : ∀ other, { scopes with held }.parent? other = scopes.parent? other := fun _ => rfl
  exact lineageTo_congr hparent _ _

theorem Ordered.isAlive_hold (h : scopes.Ordered) (halive : scopes.isAlive scope = true) :
    (scopes.hold scope).isAlive other = true ↔ scopes.isAlive other = true := by
  simp only [isAlive_iff, hold, lineage_of_held, List.mem_cons]
  constructor
  · rintro ⟨held, rfl | hmem, hother⟩
    · exact isAlive_iff.mp (h.isAlive_above halive hother)
    · exact ⟨held, hmem, hother⟩
  · rintro ⟨held, hmem, hother⟩
    exact ⟨held, .inr hmem, hother⟩

theorem isAlive_of_release (h : (scopes.release scope).isAlive other = true) :
    scopes.isAlive other = true := by
  obtain ⟨held, hmem, hother⟩ := isAlive_iff.mp h
  rw [release, lineage_of_held] at hother
  exact isAlive_iff.mpr ⟨held, List.mem_of_mem_erase hmem, hother⟩

theorem Backed.grow (h : scopes.Backed) (above : Option ScopeId) (settings : Fields) :
    (scopes.grow above settings).Backed where
  back parent id child hmem := by
    rw [handlers_grow] at hmem
    obtain ⟨hparent, hbridge⟩ := h.back parent id child hmem
    rw [hasBridge_grow, parent?_grow, if_neg (Nat.ne_of_lt (lt_size_of_parent? hparent))]
    exact ⟨hparent, hbridge⟩
  once scope id := by
    rw [handlers_grow]
    exact h.once scope id
  small scope id hbridge := by
    rw [hasBridge_grow] at hbridge
    exact h.small scope id hbridge

/-! ## Registering, with bridges or without -/

variable {id : String} {handler : Handler} {onlyHere : Bool}

theorem leaves_register (scopes : Scopes) (scope : ScopeId) (id : String) (handler : Handler)
    (onlyHere : Bool) : Leaves scopes (scopes.register scope id handler onlyHere).1 := by
  rw [register]
  split
  · exact leaves_addLocalHandler scopes scope id handler
  · exact leaves_addHandler scopes scope id handler

theorem Backed.register (h : scopes.Backed) (houtside : ∀ child, handler ≠ .bridge child) :
    (scopes.register scope id handler onlyHere).1.Backed := by
  rw [Scopes.register]
  split
  · exact h.addLocalHandler fun child hsame => absurd hsame (houtside child)
  · exact h.addHandler houtside

end Scopes

/-! ## Entries of the record -/

/-- The broadcast that an entry is a part of, and the scope this broadcast is in. -/
def Happening.partOf : Happening → Option (Nat × ScopeId)
  | .called since scope _ _ => some (since, scope)
  | .served since scope _ => some (since, scope)
  | _ => none

/-- What was recorded stays recorded. -/
theorem getElem?_of_extension {α : Type} {past later : List α} {index : Nat} {entry : α}
    (h : past <+: later) (hentry : past[index]? = some entry) : later[index]? = some entry := by
  obtain ⟨more, rfl⟩ := h
  obtain ⟨hlt, -⟩ := List.getElem?_eq_some_iff.mp hentry
  rwa [List.getElem?_append_left hlt]

theorem getElem?_of_extension_of_lt {α : Type} {past later : List α} {index : Nat} {entry : α}
    (h : past <+: later) (hlt : index < past.length) (hentry : later[index]? = some entry) :
    past[index]? = some entry := by
  obtain ⟨more, rfl⟩ := h
  rwa [List.getElem?_append_left hlt] at hentry

theorem getElem?_concat_eq_some {α : Type} {past : List α} {index : Nat} {last entry : α} :
    (past ++ [last])[index]? = some entry ↔
      past[index]? = some entry ∨ index = past.length ∧ last = entry := by
  rcases Nat.lt_trichotomy index past.length with hlt | rfl | hgt
  · rw [List.getElem?_append_left hlt]
    simp [Nat.ne_of_lt hlt]
  · simp
  · have hlong : (past ++ [last]).length ≤ index := List.length_append ▸ hgt
    rw [List.getElem?_eq_none hlong, List.getElem?_eq_none (Nat.le_of_lt hgt)]
    simp [Nat.ne_of_gt hgt]

namespace Moment

open Scopes

variable {m after : Moment} {may : Moment → Deed → Prop} {scope : ScopeId} {source : Source}
  {telling : Telling} {deed : Deed}

/-- What is true at every moment. -/
structure Orderly (m : Moment) : Prop where
  order : m.scopes.Ordered
  held : ∀ held ∈ m.scopes.held, held < m.scopes.scopes.size
  backed : m.scopes.Backed
  alive : ∀ telling ∈ m.tellings, m.scopes.isAlive telling.scope = true
  below : ∀ telling ∈ m.tellings, ∀ child, .bridge child ∈ telling.handlers →
    m.scopes.parent? child = some telling.scope
  small : ∀ telling ∈ m.tellings, Unicode.lower telling.source.id = telling.source.id
  began : ∀ telling ∈ m.tellings, ∃ origin,
    m.past[telling.since]? = some (.began telling.scope telling.source origin)
  once : (m.tellings.map Telling.since).Nodup
  parts : ∀ happening ∈ m.past, ∀ since scope, happening.partOf = some (since, scope) →
    ∃ source origin, m.past[since]? = some (.began scope source origin)

theorem Orderly.lt_size (h : Orderly m) (halive : m.scopes.isAlive scope = true) :
    scope < m.scopes.scopes.size := h.order.lt_size_of_isAlive h.held halive

theorem Orderly.since_lt (h : Orderly m) (htelling : telling ∈ m.tellings) :
    telling.since < m.past.length := by
  obtain ⟨_, hbegan⟩ := h.began telling htelling
  exact (List.getElem?_eq_some_iff.mp hbegan).1

/-- Broadcasts that go on stay in order if those who live and their parents do. New entries are not
parts of broadcasts, or of those that are known. -/
theorem Orderly.keep (h : Orderly m) (horder : after.scopes.Ordered)
    (hheld : ∀ held ∈ after.scopes.held, held < after.scopes.scopes.size)
    (hbacked : after.scopes.Backed) (htellings : after.tellings = m.tellings)
    (halive : ∀ telling ∈ m.tellings, after.scopes.isAlive telling.scope = true)
    (hparent : ∀ scope parent, m.scopes.parent? scope = some parent →
      after.scopes.parent? scope = some parent)
    {more : List Happening} (hpast : after.past = m.past ++ more)
    (hparts : ∀ happening ∈ more, happening.partOf = none) : Orderly after := by
  have hextends : m.past <+: after.past := ⟨more, hpast.symm⟩
  constructor
  case order => exact horder
  case held => exact hheld
  case backed => exact hbacked
  case alive => exact htellings ▸ halive
  case below =>
    intro telling htelling child hchild
    exact hparent _ _ (h.below telling (htellings ▸ htelling) child hchild)
  case small => exact htellings ▸ h.small
  case began =>
    intro telling htelling
    obtain ⟨origin, hbegan⟩ := h.began telling (htellings ▸ htelling)
    exact ⟨origin, getElem?_of_extension hextends hbegan⟩
  case once => exact htellings ▸ h.once
  case parts =>
    intro happening hmem since scope hpart
    rcases List.mem_append.mp (hpast ▸ hmem) with hmem | hmem
    · obtain ⟨source, origin, hbegan⟩ := h.parts happening hmem since scope hpart
      exact ⟨source, origin, getElem?_of_extension hextends hbegan⟩
    · rw [hparts happening hmem] at hpart
      cases hpart

/-- Whatever leaves the tree alone keeps broadcasts in order. -/
theorem Orderly.sameTree (h : Orderly m) (htree : SameTree m.scopes after.scopes)
    (hbacked : after.scopes.Backed) (htellings : after.tellings = m.tellings)
    {more : List Happening} (hpast : after.past = m.past ++ more)
    (hparts : ∀ happening ∈ more, happening.partOf = none) : Orderly after := by
  refine h.keep ?_ ?_ hbacked htellings ?_ ?_ hpast hparts
  · intro scope parent hparent
    rw [htree.parent] at hparent
    exact h.order scope parent hparent
  · rw [htree.held, htree.size]
    exact h.held
  · intro telling htelling
    rw [htree.isAlive]
    exact h.alive telling htelling
  · intro scope parent hparent
    rwa [htree.parent]

theorem Orderly.rescope (h : Orderly m) {scopes : Scopes} (htree : SameTree m.scopes scopes)
    (hbacked : scopes.Backed) : Orderly { m with scopes } :=
  h.sameTree htree hbacked rfl (List.append_nil _).symm fun _ hnone => by cases hnone

theorem sameTree_takeWaiters (scopes : Scopes) (scope : ScopeId) (id : String) :
    SameTree scopes (scopes.takeWaiters scope id) := sameTree_modify scopes fun _ => rfl

theorem Orderly.tell (h : Orderly m) (halive : m.scopes.isAlive scope = true)
    (hid : Unicode.lower source.id = source.id) (origin : Option Nat) :
    Orderly (m.tell scope source origin) := by
  have htree := sameTree_takeWaiters m.scopes scope source.id
  have hbacked : (m.scopes.takeWaiters scope source.id).Backed := by
    refine h.backed.congr htree.parent ?_ ?_
    · exact fun _ _ => hasBridge_modify fun _ => rfl
    · exact fun _ _ => handlers_modify fun _ => rfl
  -- Until the new broadcast is counted, this is a moment of the old ones.
  have hrecorded : Orderly
      { scopes := m.scopes.takeWaiters scope source.id, tellings := m.tellings,
        past := m.past ++ [.began scope source origin] } :=
    h.sameTree htree hbacked rfl rfl fun happening hmem => by
      rw [List.mem_singleton.mp hmem]
      rfl
  refine ⟨hrecorded.order, hrecorded.held, hbacked, ?_, ?_, ?_, ?_, ?_, hrecorded.parts⟩
  · exact List.forall_mem_cons.mpr ⟨(htree.isAlive scope).trans halive, hrecorded.alive⟩
  · refine List.forall_mem_cons.mpr ⟨fun child hchild => ?_, hrecorded.below⟩
    exact (htree.parent child).trans (h.backed.back _ _ child hchild).1
  · exact List.forall_mem_cons.mpr ⟨hid, hrecorded.small⟩
  · exact List.forall_mem_cons.mpr ⟨⟨origin, List.getElem?_concat_length⟩, hrecorded.began⟩
  · refine List.nodup_cons.mpr ⟨fun hmem => ?_, h.once⟩
    obtain ⟨telling, htelling, hsince⟩ := List.mem_map.mp hmem
    exact absurd (h.since_lt htelling) (Nat.not_lt_of_le (Nat.le_of_eq hsince.symm))

/-- What is stored in a scope and what is known of it does not matter. -/
theorem Orderly.leave (h : Orderly m) {scopes : Scopes} (hleaves : Leaves m.scopes scopes)
    (hwires : SameWires m.scopes scopes) : Orderly { m with scopes } :=
  h.rescope hleaves.toSameTree (h.backed.congr hwires.parent hwires.bridges hwires.handlers)

theorem Orderly.receive (h : Orderly m) (halive : m.scopes.isAlive scope = true)
    (hid : Unicode.lower source.id = source.id) (origin : Option Nat) :
    Orderly (m.receive scope source origin) := by
  rw [Moment.receive]
  split
  · exact h
  · have hleaves := (leaves_inherit m.scopes scope source.id).trans (leaves_put _ scope source)
    have hwires := (sameWires_inherit m.scopes scope source.id).trans (sameWires_put _ scope source)
    exact (h.leave hleaves hwires).tell ((hleaves.isAlive scope).trans halive) hid origin

/-- Broadcasts without some of the calls they still have to make. -/
theorem Orderly.shift (h : Orderly m) {others : List Telling} {handler : Handler}
    {rest : List Handler} (htellings : m.tellings = telling :: others)
    (hhandlers : telling.handlers = handler :: rest) :
    Orderly { m with tellings := { telling with handlers := rest } :: others } := by
  have hmem : telling ∈ m.tellings := htellings ▸ List.mem_cons_self
  have hothers : ∀ {other}, other ∈ others → other ∈ m.tellings :=
    fun hother => htellings ▸ List.mem_cons_of_mem _ hother
  constructor
  case order => exact h.order
  case held => exact h.held
  case backed => exact h.backed
  case alive =>
    exact List.forall_mem_cons.mpr ⟨h.alive telling hmem, fun other hother =>
      h.alive other (hothers hother)⟩
  case below =>
    refine List.forall_mem_cons.mpr ⟨fun child hchild => ?_, fun other hother =>
      h.below other (hothers hother)⟩
    exact h.below telling hmem child (hhandlers ▸ List.mem_cons_of_mem _ hchild)
  case small =>
    exact List.forall_mem_cons.mpr ⟨h.small telling hmem, fun other hother =>
      h.small other (hothers hother)⟩
  case began =>
    exact List.forall_mem_cons.mpr ⟨h.began telling hmem, fun other hother =>
      h.began other (hothers hother)⟩
  case once =>
    have honce := h.once
    rw [htellings] at honce
    exact honce
  case parts => exact h.parts

/-- Entries of a broadcast that began. -/
theorem Orderly.record (h : Orderly m) {scopes : Scopes} (htree : SameTree m.scopes scopes)
    (hbacked : scopes.Backed) {more : List Happening} {since : Nat} {origin : Option Nat}
    (hbegan : m.past[since]? = some (.began scope source origin))
    (hmore : ∀ happening ∈ more, happening.partOf = some (since, scope)) :
    Orderly { m with scopes, past := m.past ++ more } := by
  have hrescoped := h.rescope htree hbacked
  have hextends := List.prefix_append m.past more
  refine ⟨hrescoped.order, hrescoped.held, hbacked, hrescoped.alive, hrescoped.below, h.small, ?_,
    h.once, ?_⟩
  · intro telling htelling
    obtain ⟨origin, hthen⟩ := h.began telling htelling
    exact ⟨origin, getElem?_of_extension hextends hthen⟩
  · intro happening hmem since scope hpart
    rcases List.mem_append.mp hmem with hmem | hmem
    · obtain ⟨source, origin, hthen⟩ := h.parts happening hmem since scope hpart
      exact ⟨source, origin, getElem?_of_extension hextends hthen⟩
    · rw [hmore happening hmem] at hpart
      cases hpart
      exact ⟨source, origin, getElem?_of_extension hextends hbegan⟩

/-- Holds may come and go as long as those live in whom broadcasts are under way. -/
theorem Orderly.reheld (h : Orderly m) {held : List ScopeId}
    (hheld : ∀ scope ∈ held, scope < m.scopes.scopes.size)
    (halive : ∀ telling ∈ m.tellings, { m.scopes with held }.isAlive telling.scope = true) :
    Orderly { m with scopes := { m.scopes with held } } :=
  h.keep h.order hheld (h.backed.congr (fun _ => rfl) (fun _ _ => rfl) fun _ _ => rfl) rfl halive
    (fun _ _ hparent => hparent) (List.append_nil _).symm fun _ hnone => by cases hnone

theorem alike_markCalled (scopes : Scopes) (handler : HandlerId) :
    Alike scopes (scopes.markCalled handler) := by
  refine .of_scopes rfl rfl fun other later hlater => ?_
  rw [markCalled, Arena.get?_modify] at hlater
  split at hlater
  · obtain ⟨earlier, hearlier, rfl⟩ := Option.map_eq_some_iff.mp hlater
    exact ⟨earlier, hearlier, rfl⟩
  · exact ⟨later, hlater, rfl⟩

theorem id_mergedWith (scopes : Scopes) (scope : ScopeId) (source : Source) :
    (scopes.mergedWith scope source).id = source.id := by
  rw [mergedWith]
  split
  · next stored hstored =>
      change stored.id = source.id
      exact stored?_id hstored
  · rfl

/-! What a deed puts on record that begins no broadcast. -/

theorem eq_of_mem_registered {entry : Happening} {id : String} {handler : Handler} {added : Bool}
    (h : entry ∈ if added then [Happening.registered scope id handler] else []) :
    entry = .registered scope id handler := by
  cases added with
  | true => exact List.mem_singleton.mp h
  | false => cases h

theorem eq_of_mem_waited {entry : Happening} {id : String} {promise? : Option PromiseId}
    (h : entry ∈ (promise?.map (Happening.waited scope id)).toList) :
    ∃ promise, entry = .waited scope id promise := by
  obtain ⟨promise, -, rfl⟩ := Option.map_eq_some_iff.mp (Option.mem_toList.mp h)
  exact ⟨promise, rfl⟩

theorem eq_of_mem_disposed {entry : Happening} {gone : Bool}
    (h : entry ∈ if gone then [] else [Happening.disposed scope]) : entry = .disposed scope := by
  cases gone with
  | true => cases h
  | false => exact List.mem_singleton.mp h

theorem Orderly.act (h : Orderly m) (hallowed : m.Allows deed) : Orderly (m.act deed) := by
  cases deed with
  | create parent settings =>
      have hlt := h.lt_size hallowed
      refine h.keep (h.order.grow hlt) ?_ (h.backed.grow (some parent) settings) rfl ?_ ?_
        (List.append_nil _).symm fun _ hnone => by cases hnone
      · intro held hmem
        rw [Moment.act, size_grow]
        rcases List.mem_cons.mp hmem with rfl | hmem
        · exact Nat.lt_succ_self _
        · exact Nat.lt_succ_of_lt (h.held held hmem)
      · intro telling htelling
        exact (h.order.isAlive_grow h.held hallowed).mpr (.inr (h.alive telling htelling))
      · intro scope above habove
        have hold := lt_size_of_parent? habove
        exact (parent?_grow _ _ scope).trans ((if_neg (Nat.ne_of_lt hold)).trans habove)
  | hold scope =>
      refine h.reheld ?_ fun telling htelling =>
        (h.order.isAlive_hold hallowed).mpr (h.alive telling htelling)
      exact List.forall_mem_cons.mpr ⟨h.lt_size hallowed, h.held⟩
  | release scope =>
      exact h.reheld (fun held hmem => h.held held (List.mem_of_mem_erase hmem)) hallowed
  | subscribe scope id handler onlyHere =>
      refine h.sameTree (leaves_register m.scopes scope id handler onlyHere).toSameTree
        (h.backed.register hallowed.2) rfl rfl fun happening hmem => ?_
      obtain rfl := eq_of_mem_registered hmem
      rfl
  | unsubscribe scope id handler =>
      exact h.rescope (leaves_removeHandler m.scopes scope id handler).toSameTree
        (h.backed.removeHandler scope id handler)
  | wait scope id =>
      refine h.sameTree (sameTree_wait m.scopes scope id) (h.backed.wait scope id) rfl rfl
        fun happening hmem => ?_
      obtain ⟨promise, rfl⟩ := eq_of_mem_waited hmem
      rfl
  | set scope source =>
      have hstored := id_mergedWith m.scopes scope source
      have hleaves := (leaves_own m.scopes scope source.id).trans
        (leaves_put _ scope (m.scopes.mergedWith scope source))
      have hwires := (sameWires_own m.scopes scope source.id).trans
        (sameWires_put _ scope (m.scopes.mergedWith scope source))
      refine (h.leave hleaves hwires).tell ((hleaves.isAlive scope).trans hallowed.1) ?_ none
      rw [hstored]
      exact hallowed.2
  | put scope source =>
      exact (h.leave (leaves_put m.scopes scope source) (sameWires_put m.scopes scope source)).tell
        (((leaves_put m.scopes scope source).isAlive scope).trans hallowed.1) hallowed.2 none
  | receive scope source => exact h.receive hallowed.1 hallowed.2 none
  | dispose scope =>
      obtain ⟨htree, hbacked, -⟩ := h.backed.dispose (h.lt_size hallowed)
      refine h.sameTree htree hbacked rfl rfl fun happening hmem => ?_
      obtain rfl := eq_of_mem_disposed hmem
      rfl
  | clear scope => exact h.rescope (sameTree_clear m.scopes scope) (h.backed.clear scope)
  | arrange hosts deliveries =>
      exact h.rescope ⟨rfl, fun _ => rfl, rfl⟩
        (h.backed.congr (fun _ => rfl) (fun _ _ => rfl) fun _ _ => rfl)

theorem Orderly.called (h : Orderly m) (htelling : telling ∈ m.tellings) {scopes : Scopes}
    (halike : Alike m.scopes scopes) (handler : Handler) :
    Orderly { m with
      scopes
      past := m.past ++ [.called telling.since telling.scope handler telling.source] } := by
  obtain ⟨origin, hbegan⟩ := h.began telling htelling
  refine h.record ⟨halike.size, halike.parent, halike.held⟩
    (h.backed.congr halike.parent halike.bridges halike.handlers) hbegan fun happening hmem => ?_
  rw [List.mem_singleton.mp hmem]
  rfl

theorem Orderly.call (h : Orderly m) (htelling : telling ∈ m.tellings) (handler : Handler) :
    Orderly (m.call telling handler) := by
  cases handler with
  | bridge child =>
      rw [Moment.call]
      split
      · next halive => exact h.receive halive (h.small telling htelling) _
      · exact h
  | host handler =>
      exact h.called htelling ((alike_deliver m.scopes _).trans (alike_markCalled _ handler)) _
  | trigger component => exact h.called htelling (alike_deliver m.scopes _) _

/-- A broadcast that is over. -/
theorem Orderly.drop (h : Orderly m) {others : List Telling}
    (htellings : m.tellings = telling :: others) : Orderly { m with tellings := others } := by
  have hothers : ∀ {other}, other ∈ others → other ∈ m.tellings :=
    fun hother => htellings ▸ List.mem_cons_of_mem _ hother
  have honce := h.once
  rw [htellings] at honce
  exact ⟨h.order, h.held, h.backed, fun other hother => h.alive other (hothers hother),
    fun other hother => h.below other (hothers hother),
    fun other hother => h.small other (hothers hother),
    fun other hother => h.began other (hothers hother), (List.nodup_cons.mp honce).2, h.parts⟩

theorem Orderly.serve (h : Orderly m) {origin : Option Nat}
    (hbegan : m.past[telling.since]? = some (.began telling.scope telling.source origin)) :
    Orderly (m.serve telling) := by
  refine h.record ?_ ?_ hbegan fun happening hmem => ?_
  · rw [resolveAll_eq]
    exact ⟨rfl, fun _ => rfl, rfl⟩
  · rw [resolveAll_eq]
    exact h.backed.congr (fun _ => rfl) (fun _ _ => rfl) fun _ _ => rfl
  · obtain ⟨promise, -, rfl⟩ := List.mem_map.mp hmem
    rfl

theorem Orderly.proceed (h : Orderly m) : Orderly m.proceed := by
  rw [Moment.proceed]
  split
  · exact h
  · next telling others htellings =>
      split
      · obtain ⟨origin, hbegan⟩ := h.began telling (htellings ▸ List.mem_cons_self)
        exact (h.drop htellings).serve hbegan
      · next handler rest hhandlers =>
          exact (h.shift htellings hhandlers).call List.mem_cons_self handler

theorem backed_empty : Scopes.Backed {} where
  back _ _ _ hmem := by cases hmem
  once _ _ := List.nodup_nil
  small _ _ hbridge := by cases hbridge

theorem orderly_first (settings : Fields) : Orderly (first settings) := by
  have hparent : ∀ scope, (first settings).scopes.parent? scope = none :=
    fun scope => (look_grow_of_blank rfl scope).trans (look_of_ge (Nat.zero_le scope))
  constructor
  case order =>
    intro scope parent habove
    rw [hparent] at habove
    cases habove
  case held =>
    intro held hmem
    rw [List.mem_singleton.mp hmem]
    exact Nat.zero_lt_one
  case backed => exact backed_empty.grow none settings
  case alive => exact fun _ hnone => by cases hnone
  case below => exact fun _ hnone => by cases hnone
  case small => exact fun _ hnone => by cases hnone
  case began => exact fun _ hnone => by cases hnone
  case once => exact List.nodup_nil
  case parts => exact fun _ hnone => by cases hnone

theorem Later.orderly (h : Later may m after) (hm : Orderly m) : Orderly after := by
  induction h with
  | refl => exact hm
  | act _ hallowed _ ih => exact ih.act hallowed
  | proceed _ ih => exact ih.proceed

theorem Reached.orderly (h : Reached may m) : Orderly m := by
  obtain ⟨settings, hlater⟩ := h
  exact hlater.orderly (orderly_first settings)

end Moment

end ReactiveMarkup
