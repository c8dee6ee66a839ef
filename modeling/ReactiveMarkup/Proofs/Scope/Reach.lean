import Mathlib.Data.List.Perm.Basic
import ReactiveMarkup.Proofs.Scope.Listeners
import ReactiveMarkup.Proofs.Scope.Resolution

/-!
# How far a source reaches

A source that is set in a scope is told there and in the scopes below, except where another one was
set under its id: such a scope is left out, and so is everything below it. That is decided by the
tree and by what was set directly, whereas the broadcast follows bridges. It may not come to a scope
where nobody listens, but it comes to all the others, and to none of them twice, since a scope has
one parent.

The proof goes along the broadcast. What one handler does, what the handlers of a scope do and what
a whole broadcast does are all put in the same way: there are scopes that were reached, they are
below one of those the source was handed to, anyone below them who listens is in them, and the new
deliveries are the calls of the handlers in them.
-/

namespace ReactiveMarkup.Scopes

open Relation

variable {scopes before middle after : Scopes} {direct seen : Direct} {scope parent : ScopeId}
  {id name : String} {source : Source}

/-- A source of an id that is set in a scope or above it, but not in the child, is seen in the child
as well. -/
def Passes (scopes : Scopes) (direct : Direct) (id : String) (parent child : ScopeId) : Prop :=
  scopes.parent? child = some parent ∧ direct child id = none

theorem Ordered.le_of_passes (h : scopes.Ordered) {below : ScopeId}
    (hbelow : ReflTransGen (Passes scopes direct id) scope below) : scope ≤ below := by
  induction hbelow with
  | refl => exact Nat.le_refl scope
  | tail _ hpasses ih => exact Nat.le_trans ih (Nat.le_of_lt (h _ _ hpasses.1))

/-- What is below two children of one scope is below one child. -/
theorem Ordered.same_child (h : scopes.Ordered) {child other below : ScopeId}
    (hchild : scopes.parent? child = some parent) (hother : scopes.parent? other = some parent)
    (hbelow : ReflTransGen (Passes scopes direct id) child below)
    (hbelowOther : ReflTransGen (Passes scopes direct id) other below) : child = other := by
  have hlevel : ∀ {upper lower : ScopeId}, scopes.parent? upper = some parent →
      scopes.parent? lower = some parent →
        ReflTransGen (Passes scopes direct id) upper lower → upper = lower := by
    intro upper lower hupper hlower hreach
    rcases hreach.cases_tail with hsame | ⟨above, habove, hpasses⟩
    · exact hsame.symm
    · obtain rfl := Option.some.inj (hlower.symm.trans hpasses.1)
      exact absurd (h upper parent hupper) (Nat.not_lt_of_le (h.le_of_passes habove))
  -- Two ways up from one scope never part, so one of the children is above the other.
  have hunique : Relator.RightUnique (Function.swap (Passes scopes direct id)) :=
    fun lower upper another hupper hanother =>
      Option.some.inj (hupper.1.symm.trans hanother.1)
  rcases ReflTransGen.total_of_right_unique hunique (reflTransGen_swap.mpr hbelow)
    (reflTransGen_swap.mpr hbelowOther) with hreach | hreach
  · exact (hlevel hother hchild (reflTransGen_swap.mp hreach)).symm
  · exact hlevel hchild hother (reflTransGen_swap.mp hreach)

/-- Whoever listens below a child listens through the bridge of the child. -/
theorem Attuned.hasBridge_above (h : Attuned scopes) (hrising : Rising scopes)
    {child below : ScopeId} (hparent : scopes.parent? child = some parent)
    (hbelow : ReflTransGen (Passes scopes direct id) child below)
    (hcalls : scopes.calls below id source ≠ []) : scopes.hasBridge child id = true := by
  -- A bridge comes with those above it, which is where `Rising` enters.
  have hup : ∀ {below : ScopeId}, ReflTransGen (Passes scopes direct id) child below →
      scopes.hasBridge below id = true → scopes.hasBridge child id = true := by
    intro below hreach hbridge
    induction hreach with
    | refl => exact hbridge
    | tail hreach hpasses ih =>
        refine ih ?_
        rcases hreach.cases_tail with rfl | ⟨above, -, hfirst⟩
        · exact hrising _ _ _ _ hbridge hpasses.1 hparent
        · exact hrising _ _ _ _ hbridge hpasses.1 hfirst.1
  refine hup hbelow ?_
  rcases hbelow.cases_tail with rfl | ⟨above, -, hpasses⟩
  · exact h.heard hparent hcalls
  · exact h.heard hpasses.1 hcalls

/-! ## Scopes that are reached -/

/-- The given scopes are some of those below the starts, and all in which anybody listens. -/
structure Covers (scopes : Scopes) (direct : Direct) (source : Source) (starts : ScopeId → Prop)
    (reached : List ScopeId) : Prop where
  once : reached.Nodup
  sound : ∀ below ∈ reached,
    ∃ start, starts start ∧ ReflTransGen (Passes scopes direct source.id) start below
  complete : ∀ {start below : ScopeId}, starts start →
    ReflTransGen (Passes scopes direct source.id) start below →
      scopes.calls below source.id source ≠ [] → below ∈ reached

/-- The calls of all handlers of a source in some scopes. -/
def callsIn (scopes : Scopes) (source : Source) (reached : List ScopeId) : List Delivery :=
  reached.flatMap fun scope => scopes.calls scope source.id source

/-- A part of a broadcast: it tells the source to the given handlers, and to all that are below the
scopes it was handed to. -/
def Reports (direct : Direct) (source : Source) (starts : ScopeId → Prop) (called : List Delivery)
    (before after : Scopes) : Prop :=
  ∃ new reached, Tells before after new ∧ Covers before direct source starts reached ∧
    new.Perm (called ++ before.callsIn source reached)

variable {starts others : ScopeId → Prop} {reached more : List ScopeId}
  {called rest new : List Delivery}

theorem Covers.nil (h : ∀ start, ¬starts start) : Covers scopes direct source starts [] :=
  ⟨List.nodup_nil, fun _ hnone => (by cases hnone), fun hstart => absurd hstart (h _)⟩

theorem Tells.passes_eq (h : Tells before after new) :
    Passes after direct id = Passes before direct id := by
  funext above child
  rw [Passes, Passes, h.parent]

theorem Covers.tells (htells : Tells before middle new)
    (h : Covers middle direct source starts reached) :
    Covers before direct source starts reached := by
  refine ⟨h.once, fun below hbelow => ?_, fun hstart hbelow hcalls => ?_⟩
  · obtain ⟨start, hstart, hreach⟩ := h.sound below hbelow
    exact ⟨start, hstart, htells.passes_eq ▸ hreach⟩
  · exact h.complete hstart (htells.passes_eq ▸ hbelow) (htells.calls .. ▸ hcalls)

theorem Tells.callsIn_eq (h : Tells before after new) (reached : List ScopeId) :
    after.callsIn source reached = before.callsIn source reached := by
  simp only [callsIn, h.calls]

theorem Covers.append (h : Covers scopes direct source starts reached)
    (h' : Covers scopes direct source others more)
    (hapart : ∀ {start other below : ScopeId}, starts start → others other →
      ReflTransGen (Passes scopes direct source.id) start below →
        ¬ReflTransGen (Passes scopes direct source.id) other below) :
    Covers scopes direct source (fun start => starts start ∨ others start) (reached ++ more) where
  once := by
    refine h.once.append h'.once fun below hbelow hmore => ?_
    obtain ⟨start, hstart, hreach⟩ := h.sound below hbelow
    obtain ⟨other, hother, hreachOther⟩ := h'.sound below hmore
    exact hapart hstart hother hreach hreachOther
  sound below hbelow := by
    rcases List.mem_append.mp hbelow with hin | hin
    · obtain ⟨start, hstart, hreach⟩ := h.sound below hin
      exact ⟨start, .inl hstart, hreach⟩
    · obtain ⟨start, hstart, hreach⟩ := h'.sound below hin
      exact ⟨start, .inr hstart, hreach⟩
  complete hstart hreach hcalls := by
    rcases hstart with hstart | hstart
    · exact List.mem_append_left _ (h.complete hstart hreach hcalls)
    · exact List.mem_append_right _ (h'.complete hstart hreach hcalls)

/-- Telling some and then the others tells all of them. -/
theorem Reports.trans (h : Reports direct source starts called before middle)
    (h' : Reports direct source others rest middle after)
    (hapart : ∀ {start other below : ScopeId}, starts start → others other →
      ReflTransGen (Passes before direct source.id) start below →
        ¬ReflTransGen (Passes before direct source.id) other below) :
    Reports direct source (fun start => starts start ∨ others start) (called ++ rest)
      before after := by
  obtain ⟨new, reached, htells, hcovers, hnew⟩ := h
  obtain ⟨newer, more, htellsMore, hcoversMore, hnewer⟩ := h'
  refine ⟨new ++ newer, reached ++ more, htells.trans htellsMore,
    hcovers.append (hcoversMore.tells htells) hapart, ?_⟩
  rw [htells.callsIn_eq] at hnewer
  have hsplit : before.callsIn source (reached ++ more) =
      before.callsIn source reached ++ before.callsIn source more := List.flatMap_append
  rw [hsplit]
  refine (hnew.append hnewer).trans ?_
  rw [List.append_assoc, List.append_assoc]
  refine List.Perm.append_left called ?_
  rw [← List.append_assoc, ← List.append_assoc]
  exact List.Perm.append_right _ List.perm_append_comm

theorem Reports.of_tells (h : Tells before after called) (hnone : ∀ start, ¬starts start) :
    Reports direct source starts called before after :=
  ⟨called, [], h, .nil hnone, by rw [callsIn, List.flatMap_nil, List.append_nil]⟩

theorem Reports.congr (h : Reports direct source starts called before after)
    (hstarts : ∀ start, others start ↔ starts start) :
    Reports direct source others called before after := by
  have hsame : others = starts := funext fun start => propext (hstarts start)
  exact hsame ▸ h

/-- What is below the bridges of a scope, together with the scope itself. -/
theorem Covers.cons (hwired : Wired scopes) (hrising : Rising scopes) (hattuned : Attuned scopes)
    (h : Covers scopes direct source (fun child =>
      .bridge child ∈ scopes.handlers scope source.id ∧ direct child source.id = none) reached) :
    Covers scopes direct source (· = scope) (scope :: reached) where
  once := by
    refine List.nodup_cons.mpr ⟨fun hin => ?_, h.once⟩
    obtain ⟨child, ⟨hbridge, -⟩, hreach⟩ := h.sound scope hin
    exact absurd (hwired.order child scope (hwired.back hbridge).1)
      (Nat.not_lt_of_le (hwired.order.le_of_passes hreach))
  sound below hin := by
    refine ⟨scope, rfl, ?_⟩
    rcases List.mem_cons.mp hin with rfl | hin
    · exact .refl
    · obtain ⟨child, ⟨hbridge, hnone⟩, hreach⟩ := h.sound below hin
      exact .head ⟨(hwired.back hbridge).1, hnone⟩ hreach
  complete := by
    rintro start below rfl hreach hcalls
    rcases hreach.cases_head with rfl | ⟨child, ⟨hparent, hnone⟩, hreach⟩
    · exact List.mem_cons_self
    · have hbridge := hattuned.hasBridge_above hrising hparent hreach hcalls
      exact List.mem_cons_of_mem _
        (h.complete ⟨hwired.there hbridge hparent, hnone⟩ hreach hcalls)

/-! ## Broadcasts -/

/-- What a broadcast of what a scope sees is to do, if it may nest deep enough: it tells those who
listen in the scope or below. -/
def Informs (direct seen : Direct) (source : Source) (depth : Nat) (cast : Cast) : Prop :=
  ∀ scopes scope, Told scopes direct → Nearest scopes direct seen → Attuned scopes →
    scopes.scopes.size ≤ depth + scope → scope < scopes.scopes.size →
      seen scope source.id = some source →
        Reports direct source (· = scope) [] scopes (cast scopes scope source)

section

variable {depth : Nat} {cast : Cast}

/-- A bridge tells whoever listens at its end or below, unless another source was set there. -/
theorem Informs.receive (hcast : Informs direct seen source depth cast)
    (hid : Unicode.lower source.id = source.id) (h : Told scopes direct)
    (hnearest : Nearest scopes direct seen) (hattuned : Attuned scopes)
    (hdepth : scopes.scopes.size ≤ depth + scope) (hparent : scopes.parent? scope = some parent)
    (hbridge : scopes.hasBridge scope source.id = true)
    (hseen : seen parent source.id = some source) :
    Reports direct source (fun child => child = scope ∧ direct child source.id = none) [] scopes
      (receiveBy cast scopes scope source) := by
  cases hdirect : direct scope source.id with
  | some given =>
      rw [h.receive_hidden hid hdirect]
      refine .of_tells (.refl scopes) fun child hchild => ?_
      rw [hchild.1, hdirect] at hchild
      cases hchild.2
  | none =>
      rw [h.receive_open hid hdirect]
      have hforward := h.forward_keeps hdirect hparent hbridge hseen
      have hquiet : Tells scopes ((scopes.inherit scope source.id).put scope source) [] :=
        ((sameWires_inherit scopes scope source.id).trans (sameWires_put _ scope source)).quiet
          (by rw [inherit]; split <;> rfl)
      have hhere : seen scope source.id = some source := by
        rw [hnearest, hdirect, hparent]
        exact hseen
      obtain ⟨new, reached, htells, hcovers, hnew⟩ := hcast _ scope hforward.told
        (hnearest.keeps hforward) (hattuned.tells hquiet) (hforward.size ▸ hdepth)
        (hforward.size ▸ lt_size_of_parent? hparent) hhere
      rw [hquiet.callsIn_eq] at hnew
      -- The copy is stored before the broadcast; who listens is the same before and after.
      have hall : Reports direct source (· = scope) [] scopes
          (cast ((scopes.inherit scope source.id).put scope source) scope source) :=
        ⟨new, reached, hquiet.quiet_trans htells, hcovers.tells hquiet, hnew⟩
      refine hall.congr fun child => ⟨And.left, fun hchild => ⟨hchild, ?_⟩⟩
      rw [hchild, hdirect]

theorem Informs.call (hcast : Informs direct seen source depth cast)
    (hid : Unicode.lower source.id = source.id) (h : Told scopes direct)
    (hnearest : Nearest scopes direct seen) (hattuned : Attuned scopes)
    (hdepth : scopes.scopes.size ≤ depth + 1 + parent)
    (hseen : seen parent source.id = some source) {handler : Handler}
    (hhandler : ∀ child, handler = .bridge child →
      scopes.parent? child = some parent ∧ scopes.hasBridge child source.id = true) :
    Reports direct source (fun child => handler = .bridge child ∧ direct child source.id = none)
      (handler.delivery? source).toList scopes (callBy cast source scopes handler) := by
  cases handler with
  | host number =>
      exact .of_tells (h.calm.tells_callHost cast number source) fun child hchild => by
        cases hchild.1
  | trigger component =>
      exact .of_tells (tells_deliver scopes (.triggered component source)) fun child hchild => by
        cases hchild.1
  | bridge child =>
      obtain ⟨hparent, hbridge⟩ := hhandler child rfl
      have hcloser : depth + 1 + parent ≤ depth + child := by
        rw [Nat.add_assoc, Nat.add_comm 1]
        exact Nat.add_le_add_left (h.wired.order child parent hparent) depth
      rw [callBy, if_pos (h.isAlive (lt_size_of_parent? hparent))]
      refine (hcast.receive hid h hnearest hattuned (Nat.le_trans hdepth hcloser) hparent hbridge
        hseen).congr fun start => and_congr_left fun _ => ?_
      exact ⟨fun hsame => (Handler.bridge.inj hsame).symm, fun hsame => congrArg _ hsame.symm⟩

theorem Informs.foldl (hcast : Informs direct seen source depth cast)
    (hspreads : Spreads direct seen source depth cast)
    (hid : Unicode.lower source.id = source.id) {handlers : List Handler} (h : Told scopes direct)
    (hnearest : Nearest scopes direct seen) (hattuned : Attuned scopes)
    (hdepth : scopes.scopes.size ≤ depth + 1 + parent)
    (hseen : seen parent source.id = some source) (honce : handlers.Nodup)
    (hhandlers : ∀ child, .bridge child ∈ handlers →
      scopes.parent? child = some parent ∧ scopes.hasBridge child source.id = true) :
    Reports direct source
      (fun child => .bridge child ∈ handlers ∧ direct child source.id = none)
      (handlers.filterMap (Handler.delivery? source)) scopes
      (handlers.foldl (callBy cast source) scopes) := by
  induction handlers generalizing scopes with
  | nil => exact .of_tells (.refl scopes) fun child hchild => by cases hchild.1
  | cons handler rest ih =>
      obtain ⟨hnew, honceRest⟩ := List.nodup_cons.mp honce
      have hhandler : ∀ child, handler = .bridge child →
          scopes.parent? child = some parent ∧ scopes.hasBridge child source.id = true :=
        fun child hsame => hhandlers child (hsame ▸ List.mem_cons_self)
      obtain ⟨hkeeps, -⟩ := h.call_keeps hspreads hid hnearest hdepth hseen hhandler
      have hfirst := hcast.call hid h hnearest hattuned hdepth hseen hhandler
      have hattunedAfter : Attuned (callBy cast source scopes handler) := by
        obtain ⟨_, _, htells, -⟩ := hfirst
        exact hattuned.tells htells
      have hrest := ih hkeeps.told (hnearest.keeps hkeeps) hattunedAfter (hkeeps.size ▸ hdepth)
        honceRest fun child hchild => (hhandlers child (List.mem_cons_of_mem _ hchild)).imp
          (hkeeps.parent child).trans (hkeeps.bridges child source.id)
      -- The bridges of one scope lead to different children, so nothing is below two of them.
      have hboth := hfirst.trans hrest fun {child other below} hchild hother hbelow hagain => by
        obtain rfl := h.wired.order.same_child (hhandler child hchild.1).1
          (hhandlers other (List.mem_cons_of_mem _ hother.1)).1 hbelow hagain
        exact hnew (hchild.1 ▸ hother.1)
      have hcalled : (handler :: rest).filterMap (Handler.delivery? source) =
          (handler.delivery? source).toList ++ rest.filterMap (Handler.delivery? source) := by
        rw [List.filterMap_cons]
        cases handler.delivery? source <;> rfl
      rw [hcalled]
      refine hboth.congr fun child => ?_
      rw [List.mem_cons, ← or_and_right, eq_comm]

end

/-- A broadcast of what a scope sees does what it is to do. -/
theorem informs_broadcast (hid : Unicode.lower source.id = source.id) (depth : Nat) :
    Informs direct seen source depth (broadcast depth) := by
  induction depth with
  | zero =>
      intro scopes scope _ _ _ hdepth hlt
      exact absurd hdepth (Nat.not_le_of_lt (by rwa [Nat.zero_add]))
  | succ depth ih =>
      intro scopes scope h hnearest hattuned hdepth hlt hseen
      rw [broadcast]
      -- Waits are taken out before the calls and served after them, and nobody hears of either.
      have halike := alike_modify_waiters scopes scope
        fun waiters => waiters.filter (·.1 != source.id)
      have htaken := h.keeps_of_alike halike seen
      have hquiet : Tells scopes (scopes.takeWaiters scope source.id) [] :=
        halike.toSameWires.quiet rfl
      obtain ⟨new, reached, htells, hcovers, hnew⟩ := ih.foldl (spreads_broadcast hid depth) hid
        htaken.told (hnearest.keeps htaken) (hattuned.tells hquiet) (htaken.size ▸ hdepth) hseen
        (hattuned.once scope source.id) fun child hchild => (h.wired.back hchild).imp
          (htaken.parent child).trans (htaken.bridges child source.id)
      have hserved : Tells _ ((scopes.waiters scope source.id).foldl
          (fun scopes promise => scopes.resolve (.fulfilled source) promise) _) [] :=
        .foldl (fun promise _ current =>
          (alike_resolve current (.fulfilled source) promise).toSameWires.quiet rfl)
          ((scopes.handlers scope source.id).foldl (callBy (broadcast depth) source)
            (scopes.takeWaiters scope source.id))
      refine ⟨new, scope :: reached, hquiet.quiet_trans (htells.trans_quiet hserved),
        (hcovers.tells hquiet).cons h.wired h.rising hattuned, ?_⟩
      have hsame : (scopes.takeWaiters scope source.id).callsIn source reached =
          scopes.callsIn source reached := hquiet.callsIn_eq reached
      change new.Perm (scopes.calls scope source.id source ++ scopes.callsIn source reached)
      rw [← hsame]
      exact hnew

/-! ## Every history -/

/-- Setting a source tells it to all who listen in its scope or below. -/
theorem Settled.set_reports (h : Settled scopes direct) (hattuned : Attuned scopes)
    (hlt : scope < scopes.scopes.size) (hid : Unicode.lower source.id = source.id) :
    Reports (direct.give scope (scopes.set scope source).2) (scopes.set scope source).2 (· = scope)
      [] scopes (scopes.set scope source).1 := by
  obtain ⟨hsame, hset⟩ := set_eq scopes scope source
  rw [hset]
  generalize (scopes.set scope source).2 = merged at hsame
  obtain ⟨htold, -⟩ := h
  have hstored : Told ((scopes.own scope merged.id).put scope merged) (direct.give scope merged) :=
    htold.store_told hlt
  have hwires := (sameWires_own scopes scope merged.id).trans (sameWires_put _ scope merged)
  have hquiet : Tells scopes ((scopes.own scope merged.id).put scope merged) [] := hwires.quiet rfl
  have hnear := hstored.wired.order.nearest (direct.give scope merged)
  generalize (scopes.own scope merged.id).put scope merged = kept at *
  have hseen : (kept.lineage scope).findSome? (direct.give scope merged · merged.id) =
      some merged := by
    rw [hstored.wired.order.lineage_eq, List.findSome?_cons, Direct.give_self]
  obtain ⟨new, reached, htells, hcovers, hnew⟩ := informs_broadcast (hsame ▸ hid) kept.castDepth
    kept scope hstored hnear (hattuned.tells hquiet) (size_le_castDepth kept scope)
    (hwires.size ▸ hlt) hseen
  rw [hquiet.callsIn_eq] at hnew
  exact ⟨new, reached, hquiet.quiet_trans htells, hcovers.tells hquiet, hnew⟩

theorem Attuned.grow (h : Attuned scopes) (above : Option ScopeId) (settings : Fields) :
    Attuned (scopes.grow above settings) := by
  constructor
  · intro other name
    rw [handlers_grow]
    exact h.once other name
  · intro other parent name source hparent hcalls
    rw [hasBridge_grow]
    rw [calls, handlers_grow] at hcalls
    rw [parent?_grow] at hparent
    split at hparent
    · next hnew => exact absurd (calls_of_ge (Nat.le_of_eq hnew.symm)) hcalls
    · exact h.heard hparent hcalls

theorem History.attuned (h : History scopes direct) : Attuned scopes := by
  induction h with
  | root settings =>
      have hnone : Attuned {} := ⟨fun _ _ => List.nodup_nil, fun hparent => by cases hparent⟩
      exact hnone.grow none settings
  | child _ _ settings ih => exact ih.grow _ settings
  | set before there small ih =>
      obtain ⟨_, _, htells, -⟩ := before.settled.set_reports ih there small
      exact ih.tells htells
  | host _ name quiet ih => exact ⟨ih.once, ih.heard⟩
  | subscribe before scope id outside ih =>
      exact ih.addHandler before.settled.1.wired.order scope id _
  | unsubscribe _ scope id outside ih => exact ih.removeHandler scope id _
  | wait _ scope id ih => exact ih.tells (tells_wait _ scope id)
  | attend _ ih => exact ⟨ih.once, ih.heard⟩

/-! ### Where a source goes -/

/-- What is set in a scope does not matter to what is below it. -/
theorem Ordered.passes_give (h : scopes.Ordered) {below : ScopeId} :
    ReflTransGen (Passes scopes (direct.give scope source) id) scope below ↔
      ReflTransGen (Passes scopes direct id) scope below := by
  have hsame : ∀ {above child : ScopeId}, scope ≤ above → scopes.parent? child = some above →
      direct.give scope source child id = direct child id := by
    intro above child hle hparent
    refine Direct.give_of_ne fun hplace => ?_
    exact absurd (h child above hparent) (Nat.not_lt_of_le (hplace.1 ▸ hle))
  constructor <;> intro hreach
  · induction hreach with
    | refl => exact .refl
    | tail hbefore hpasses ih =>
        have hle := h.le_of_passes hbefore
        exact ih.tail ⟨hpasses.1, hsame hle hpasses.1 ▸ hpasses.2⟩
  · induction hreach with
    | refl => exact .refl
    | tail hbefore hpasses ih =>
        have hle := h.le_of_passes hbefore
        exact ih.tail ⟨hpasses.1, (hsame hle hpasses.1).trans hpasses.2⟩

/-- All scopes where a source of an id that is set in a scope is seen. -/
theorem exists_passed (scopes : Scopes) (direct : Direct) (id : String)
    (hlt : scope < scopes.scopes.size) : ∃ passed : List ScopeId, passed.Nodup ∧
      ∀ below, below ∈ passed ↔ ReflTransGen (Passes scopes direct id) scope below := by
  classical
  refine ⟨(List.range scopes.scopes.size).filter fun below =>
    ReflTransGen (Passes scopes direct id) scope below, List.nodup_range.filter _, fun below => ?_⟩
  rw [List.mem_filter, decide_eq_true_iff, List.mem_range, and_iff_right_iff_imp]
  intro hreach
  rcases hreach.cases_tail with rfl | ⟨above, -, hpasses⟩
  · exact hlt
  · exact lt_size_of_parent? hpasses.1

theorem callsIn_filter (scopes : Scopes) (source : Source) (reached : List ScopeId) :
    scopes.callsIn source (reached.filter fun below =>
      !(scopes.calls below source.id source).isEmpty) = scopes.callsIn source reached := by
  induction reached with
  | nil => rfl
  | cons below rest ih =>
      rw [callsIn, callsIn] at ih
      rw [callsIn, callsIn, List.filter_cons, List.flatMap_cons, ← ih]
      cases hcalls : scopes.calls below source.id source with
      | nil => rfl
      | cons call more => simp [hcalls]

/-- Where nobody listens, nobody is called. -/
theorem Covers.perm_callsIn (h : Covers scopes direct source (· = scope) reached)
    {passed : List ScopeId} (honce : passed.Nodup)
    (hpassed : ∀ below, below ∈ passed ↔
      ReflTransGen (Passes scopes direct source.id) scope below) :
    (scopes.callsIn source reached).Perm (scopes.callsIn source passed) := by
  rw [← callsIn_filter scopes source reached, ← callsIn_filter scopes source passed]
  refine List.Perm.flatMap_right _ ((List.perm_ext_iff_of_nodup (h.once.filter _)
    (honce.filter _)).mpr fun below => ?_)
  rw [List.mem_filter, List.mem_filter, and_congr_left_iff, hpassed]
  intro hcalls
  constructor
  · intro hin
    obtain ⟨start, rfl, hreach⟩ := h.sound below hin
    exact hreach
  · intro hreach
    refine h.complete rfl hreach fun hnone => ?_
    rw [hnone] at hcalls
    cases hcalls

/-- Four scopes, of which the last is below the first and the others are below each other. Somebody
listens in the first, in the third and in the last. -/
def attentiveTree : Scopes :=
  let scopes := ((((create {} none).1.hold 0).grow (some 0) []).grow (some 1) []).grow (some 0) []
  let scopes := (scopes.addHandler 0 "db.items" (.trigger 0)).1
  let scopes := (scopes.addHandler 2 "DB.Items" (.trigger 1)).1
  (scopes.addHandler 3 "db.items" (.trigger 2)).1

/-- The last scope has a source of its own. -/
def divertedTree : Scopes := (attentiveTree.set 3 (itemsOf "a")).1

end ReactiveMarkup.Scopes
