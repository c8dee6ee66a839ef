import ReactiveMarkup.Proofs.Scope.Courses

/-!
# Operations as courses of moments

An operation of scopes tells a source to everybody at one go. Here it is replayed: there are moments
that follow each other, the last of them has the scopes the operation gives, and no more broadcasts are
under way in it than in the first. So what holds of all later moments holds after the operation, and
while it is at work.

A broadcast has a bound on how deep broadcasts nest below it, which is never met. Every nested broadcast
is either in a scope with a greater number, or a handler of the host began it, which will not act again.
`Suffices` says that the bound covers what is left of both.
-/

namespace ReactiveMarkup

/-- What a handler of the host may do. -/
def Deed.OfHandler : Deed → Prop
  | .set _ source => ∃ id value, source = Source.ofValue id value
  | .wait _ _ => True
  | .dispose _ => True
  | _ => False

namespace Scopes

/-- What a deed leads to when its broadcast is over. -/
def perform (scopes : Scopes) : Deed → Scopes
  | .create parent settings => scopes.grow (some parent) settings
  | .hold scope => scopes.hold scope
  | .release scope => scopes.release scope
  | .subscribe scope id handler onlyHere => (scopes.register scope id handler onlyHere).1
  | .unsubscribe scope id handler => (scopes.removeHandler scope id handler).1
  | .wait scope id => (scopes.wait scope id).1
  | .set scope source => (scopes.set scope source).1
  | .put scope source => scopes.putAndAnnounce scope source
  | .receive scope source => scopes.receive scope source
  | .dispose scope => scopes.dispose scope
  | .clear scope => scopes.clear scope
  | .arrange hosts deliveries => { scopes with hosts, deliveries }

variable {scopes before after : Scopes} {scope : ScopeId} {id : String}

/-! ## Handlers of the host -/

/-- How many handlers of the host have not been called yet. -/
def fresh (scopes : Scopes) : Nat := scopes.hosts.cells.toList.countP fun host => !host.called

theorem fresh_le (scopes : Scopes) : scopes.fresh ≤ scopes.hosts.size := List.countP_le_length

theorem hosts_addLocalHandler (scopes : Scopes) (scope : ScopeId) (id : String) (handler : Handler) :
    (scopes.addLocalHandler scope id handler).1.hosts = scopes.hosts := by
  rw [addLocalHandler]
  split <;> rfl

theorem hosts_bridge (scopes : Scopes) (scope : ScopeId) (id : String) :
    (scopes.bridge scope id).hosts = scopes.hosts := by
  have hsteps := bridge_connects scopes scope id
  generalize scopes.bridge scope id = after at hsteps ⊢
  induction hsteps with
  | refl => rfl
  | tail _ hstep ih =>
      obtain ⟨below, -, parent, -, rfl⟩ := hstep
      rw [connect, hosts_addLocalHandler]
      exact ih

theorem hosts_wait (scopes : Scopes) (scope : ScopeId) (id : String) :
    (scopes.wait scope id).1.hosts = scopes.hosts := by
  rw [wait]
  split
  · rfl
  · exact hosts_bridge _ scope _

theorem hosts_removeHandlers (ids : List String) (parent : ScopeId) (handler : Handler)
    (scopes : Scopes) :
    (ids.foldl (fun scopes id => (scopes.removeHandler parent id handler).1) scopes).hosts =
      scopes.hosts := by
  induction ids generalizing scopes with
  | nil => rfl
  | cons first rest ih =>
      rw [List.foldl_cons, ih, removeHandler]
      split <;> rfl

theorem hosts_dispose (scopes : Scopes) (scope : ScopeId) :
    (scopes.dispose scope).hosts = scopes.hosts := by
  rw [dispose]
  split
  · rfl
  · rw [clear, resolveAll_eq]
    change Scopes.hosts (removeBridges _ scope) = scopes.hosts
    rw [removeBridges]
    split
    · exact hosts_removeHandlers ..
    · rfl

theorem countP_modify_called (hosts : List HostHandler) (handler : HandlerId) {host : HostHandler}
    (hhost : hosts[handler]? = some host) (hcalled : host.called = false) :
    (hosts.modify handler fun host => { host with called := true }).countP
        (fun host => !host.called) + 1 =
      hosts.countP fun host => !host.called := by
  induction hosts generalizing handler with
  | nil => cases hhost
  | cons first rest ih =>
      cases handler with
      | zero =>
          obtain rfl := Option.some.inj hhost
          simp [hcalled]
      | succ handler =>
          have hrest := ih handler hhost
          rw [List.modify_succ_cons, List.countP_cons, List.countP_cons]
          omega

variable {handler : HandlerId}

theorem fresh_markCalled {host : HostHandler} (hhost : scopes.hosts.get? handler = some host)
    (hcalled : host.called = false) : (scopes.markCalled handler).fresh + 1 = scopes.fresh := by
  rw [fresh, markCalled, Arena.modify, Array.toList_modify]
  exact countP_modify_called _ handler (Array.getElem?_toList.trans hhost) hcalled

/-- A handler that was called before is called like one that never acts. -/
theorem markCalled_eq_self (h : ∀ host, scopes.hosts.get? handler = some host → host.called = true) :
    scopes.markCalled handler = scopes := by
  have hhosts : (scopes.hosts.modify handler fun host => { host with called := true }) =
      scopes.hosts := by
    refine modify_eq_self fun host hhost => ?_
    rw [← h host hhost]
  rw [markCalled, hhosts]

theorem fresh_markCalled_le (scopes : Scopes) (handler : HandlerId) :
    (scopes.markCalled handler).fresh ≤ scopes.fresh := by
  by_cases h : ∀ host, scopes.hosts.get? handler = some host → host.called = true
  · rw [markCalled_eq_self h]
  · push Not at h
    obtain ⟨host, hhost, hcalled⟩ := h
    have hless := fresh_markCalled hhost (Bool.not_eq_true _ ▸ hcalled)
    omega

/-! ## How deep broadcasts nest -/

/-- A bound covers the nesting of a broadcast in a scope, whatever handlers of the host do. -/
def Suffices (scopes : Scopes) (scope : ScopeId) (depth : Nat) : Prop :=
  scopes.fresh * (scopes.scopes.size + 1) + (scopes.scopes.size - scope) < depth

theorem Suffices.mono {lower : ScopeId} {depth : Nat} (h : scopes.Suffices scope depth)
    (hle : scope ≤ lower) : scopes.Suffices lower depth := by
  have hless := Nat.sub_le_sub_left hle scopes.scopes.size
  rw [Suffices] at h ⊢
  omega

/-- A scope below takes one less. -/
theorem Suffices.below {child : ScopeId} {depth : Nat} (h : scopes.Suffices scope (depth + 1))
    (hchild : scope < child) (hlt : child < scopes.scopes.size) : scopes.Suffices child depth := by
  have hless := Nat.sub_lt_sub_left (Nat.lt_trans hchild hlt) hchild
  rw [Suffices] at h ⊢
  omega

/-- When a handler of the host has begun to act, one less will do in any scope. -/
theorem Suffices.called {depth : Nat} (h : before.Suffices scope (depth + 1))
    (hsize : after.scopes.size = before.scopes.size) (hfresh : after.fresh + 1 = before.fresh) :
    after.Suffices 0 depth := by
  rw [Suffices] at h ⊢
  rw [← hfresh, Nat.succ_mul] at h
  rw [hsize]
  omega

theorem suffices_castDepth (scopes : Scopes) (scope : ScopeId) :
    scopes.Suffices scope scopes.castDepth := by
  have hfresh := Nat.mul_le_mul_right (scopes.scopes.size + 1) scopes.fresh_le
  rw [Suffices, castDepth, Nat.succ_mul]
  omega

end Scopes

namespace Moment

open Scopes

variable {m middle after : Moment} {scope : ScopeId} {source : Source} {telling : Telling}
  {handler : Handler} {deed : Deed} {depth : Nat}

/-- What happens while nobody but handlers of the host does anything. -/
abbrev ByHandlers : Moment → Deed → Prop := fun _ deed => deed.OfHandler

/-- There are as many scopes as before, and not more handlers that will act. -/
structure Spends (before after : Scopes) : Prop where
  size : after.scopes.size = before.scopes.size
  fresh : after.fresh ≤ before.fresh

theorem Spends.refl (scopes : Scopes) : Spends scopes scopes := ⟨rfl, Nat.le_refl _⟩

theorem Spends.trans {before middle after : Scopes} (h : Spends before middle)
    (h' : Spends middle after) : Spends before after :=
  ⟨h'.size.trans h.size, Nat.le_trans h'.fresh h.fresh⟩

theorem Spends.of_hosts {before after : Scopes} (hsize : after.scopes.size = before.scopes.size)
    (hhosts : after.hosts = before.hosts) : Spends before after :=
  ⟨hsize, Nat.le_of_eq (by rw [Scopes.fresh, hhosts, Scopes.fresh])⟩

theorem Spends.suffices {before after : Scopes} (h : Spends before after)
    (hsuffices : before.Suffices scope depth) : after.Suffices scope depth := by
  have hfresh := Nat.mul_le_mul_right (before.scopes.size + 1) h.fresh
  rw [Suffices] at hsuffices ⊢
  rw [h.size]
  omega

theorem spends_tell (m : Moment) (scope : ScopeId) (source : Source) (origin : Option Nat) :
    Spends m.scopes (m.tell scope source origin).scopes :=
  .of_hosts (sameTree_takeWaiters m.scopes scope source.id).size rfl

theorem spends_receive (m : Moment) (scope : ScopeId) (source : Source) (origin : Option Nat) :
    Spends m.scopes (m.receive scope source origin).scopes := by
  rw [receive]
  split
  · exact .refl _
  · refine Spends.trans (.of_hosts ?_ ?_) (spends_tell _ scope source origin)
    · exact ((leaves_inherit m.scopes scope source.id).trans (leaves_put _ scope source)).size
    · rw [put, inherit]
      split <;> rfl

theorem Orderly.spends_act (h : Orderly m) (hallowed : m.Allows deed) (hdeed : deed.OfHandler) :
    Spends m.scopes (m.act deed).scopes := by
  cases deed with
  | set scope source =>
      have hleaves := (leaves_own m.scopes scope source.id).trans
        (leaves_put _ scope (m.scopes.mergedWith scope source))
      have hstored : Spends m.scopes
          ((m.scopes.own scope source.id).put scope (m.scopes.mergedWith scope source)) :=
        .of_hosts hleaves.size rfl
      exact hstored.trans (.of_hosts (sameTree_takeWaiters _ scope _).size rfl)
  | wait scope id => exact .of_hosts (sameTree_wait m.scopes scope id).size (hosts_wait ..)
  | dispose scope =>
      exact .of_hosts (h.backed.dispose (h.lt_size hallowed)).1.size (hosts_dispose ..)
  | create _ _ | hold _ | release _ | subscribe _ _ _ _ | unsubscribe _ _ _ | put _ _ | receive _ _
    | clear _ | arrange _ _ => exact hdeed.elim

theorem spends_call (m : Moment) (telling : Telling) (handler : Handler) :
    Spends m.scopes (m.call telling handler).scopes := by
  cases handler with
  | bridge child =>
      rw [call]
      split
      · exact spends_receive ..
      · exact .refl _
  | host handler => exact ⟨rfl, fresh_markCalled_le (m.scopes.deliver _) handler⟩
  | trigger component => exact .of_hosts rfl rfl

theorem spends_proceed (m : Moment) : Spends m.scopes m.proceed.scopes := by
  rw [proceed]
  split
  · exact .refl _
  · next telling others _ =>
      split
      · rw [serve, resolveAll_eq]
        exact .of_hosts rfl rfl
      · next handler rest _ =>
          exact spends_call { m with tellings := { telling with handlers := rest } :: others } _ handler

theorem Later.spends (h : Later ByHandlers m after) (hm : Orderly m) :
    Spends m.scopes after.scopes := by
  induction h with
  | refl => exact .refl _
  | act before hallowed hpermitted ih =>
      exact ih.trans ((before.orderly hm).spends_act hallowed hpermitted)
  | proceed _ ih => exact ih.trans (spends_proceed _)

/-! ## Replaying -/

/-- There are moments that lead to the given scopes, with the given broadcasts under way. -/
def Leads (m : Moment) (scopes : Scopes) (tellings : List Telling) : Prop :=
  ∃ after, Later ByHandlers m after ∧ after.scopes = scopes ∧ after.tellings = tellings

theorem Later.leads {scopes : Scopes} {tellings : List Telling} (h : Later ByHandlers m middle)
    (hleads : Leads middle scopes tellings) : Leads m scopes tellings := by
  obtain ⟨after, hlater, hscopes, htellings⟩ := hleads
  exact ⟨after, h.trans hlater, hscopes, htellings⟩

/-- A bound on the nesting under which broadcasts can be replayed. -/
def Replays (depth : Nat) : Prop :=
  ∀ m scope source origin, Orderly m → m.scopes.isAlive scope = true →
    Unicode.lower source.id = source.id → m.scopes.Suffices scope depth →
      Leads (m.tell scope source origin) (broadcast depth m.scopes scope source) m.tellings

theorem Replays.receive (hreplays : Replays depth) (h : Orderly m)
    (halive : m.scopes.isAlive scope = true) (hid : Unicode.lower source.id = source.id)
    (hsuffices : m.scopes.Suffices scope depth) (origin : Option Nat) :
    Leads (m.receive scope source origin) (receiveBy (broadcast depth) m.scopes scope source)
      m.tellings := by
  rw [Moment.receive, receiveBy]
  split
  · exact ⟨m, .refl, rfl, rfl⟩
  · have hleaves := (leaves_inherit m.scopes scope source.id).trans (leaves_put _ scope source)
    have hwires := (sameWires_inherit m.scopes scope source.id).trans (sameWires_put _ scope source)
    refine hreplays _ scope source origin (h.leave hleaves hwires)
      ((hleaves.isAlive scope).trans halive) hid ?_
    refine Spends.suffices (.of_hosts hleaves.size ?_) hsuffices
    rw [put, inherit]
    split <;> rfl

theorem Replays.set (hreplays : Replays depth) (h : Orderly m)
    (halive : m.scopes.isAlive scope = true) (hid : Unicode.lower source.id = source.id)
    (hsuffices : m.scopes.Suffices scope depth) :
    Leads (m.act (.set scope source)) (setBy (broadcast depth) m.scopes scope source).1
      m.tellings := by
  have hleaves := (leaves_own m.scopes scope source.id).trans
    (leaves_put _ scope (m.scopes.mergedWith scope source))
  have hwires := (sameWires_own m.scopes scope source.id).trans
    (sameWires_put _ scope (m.scopes.mergedWith scope source))
  refine hreplays _ scope (m.scopes.mergedWith scope source) none (h.leave hleaves hwires)
    ((hleaves.isAlive scope).trans halive) ?_ (Spends.suffices (.of_hosts hleaves.size rfl) hsuffices)
  rw [id_mergedWith]
  exact hid

/-- A handler of the host acts in deeds of its own. -/
theorem Replays.action (hreplays : Replays depth) (h : Orderly m) (action : HandlerAction)
    (hsuffices : m.scopes.Suffices 0 depth) :
    Leads m (actBy (broadcast depth) m.scopes action) m.tellings := by
  cases action with
  | set scope id value =>
      rw [actBy]
      split
      · next halive =>
          have hid : Unicode.lower (Source.ofValue id value).id = (Source.ofValue id value).id :=
            lower_id_make ..
          have hbegun : Later ByHandlers m (m.act (.set scope (Source.ofValue id value))) :=
            .act .refl ⟨halive, hid⟩ ⟨id, value, rfl⟩
          exact hbegun.leads (hreplays.set h halive hid (hsuffices.mono (Nat.zero_le scope)))
      · exact ⟨m, .refl, rfl, rfl⟩
  | wait scope id =>
      rw [actBy]
      split
      · next halive => exact ⟨m.act (.wait scope id), .act .refl halive trivial, rfl, rfl⟩
      · exact ⟨m, .refl, rfl, rfl⟩
  | dispose scope =>
      rw [actBy]
      split
      · next halive => exact ⟨m.act (.dispose scope), .act .refl halive trivial, rfl, rfl⟩
      · exact ⟨m, .refl, rfl, rfl⟩

theorem Replays.actions (hreplays : Replays depth) (actions : List HandlerAction) (h : Orderly m)
    (hsuffices : m.scopes.Suffices 0 depth) :
    Leads m (actions.foldl (actBy (broadcast depth)) m.scopes) m.tellings := by
  induction actions generalizing m with
  | nil => exact ⟨m, .refl, rfl, rfl⟩
  | cons action rest ih =>
      obtain ⟨middle, hlater, hscopes, htellings⟩ := hreplays.action h action hsuffices
      rw [List.foldl_cons, ← hscopes, ← htellings]
      exact hlater.leads (ih (hlater.orderly h) ((hlater.spends h).suffices hsuffices))

theorem Replays.call (hreplays : Replays depth) (h : Orderly m) (htelling : telling ∈ m.tellings)
    (hbelow : ∀ child, handler = .bridge child → m.scopes.parent? child = some telling.scope)
    (hsuffices : m.scopes.Suffices telling.scope (depth + 1)) :
    Leads (m.call telling handler) (callBy (broadcast depth) telling.source m.scopes handler)
      m.tellings := by
  cases handler with
  | bridge child =>
      rw [Moment.call, callBy]
      split
      · next halive =>
          refine hreplays.receive h halive (h.small telling htelling) ?_ _
          exact hsuffices.below (h.order _ _ (hbelow child rfl)) (h.lt_size halive)
      · exact ⟨m, .refl, rfl, rfl⟩
  | trigger component => exact ⟨_, .refl, rfl, rfl⟩
  | host handler =>
      have horderly := h.call htelling (.host handler)
      rw [callBy, callHostBy]
      split
      · next actions hhost =>
          exact hreplays.actions actions horderly (hsuffices.called rfl (fresh_markCalled hhost rfl))
      · next hother =>
          refine ⟨_, .refl, markCalled_eq_self fun host hhost => ?_, rfl⟩
          rcases host with ⟨name, actions, _ | _⟩
          · exact absurd hhost (hother name actions)
          · rfl

theorem Replays.calls (hreplays : Replays depth) (handlers : List Handler) {others : List Telling}
    (h : Orderly m) (htellings : m.tellings = telling :: others)
    (hhandlers : telling.handlers = handlers)
    (hsuffices : m.scopes.Suffices telling.scope (depth + 1)) :
    Leads m (handlers.foldl (callBy (broadcast depth) telling.source) m.scopes)
      ({ telling with handlers := [] } :: others) := by
  induction handlers generalizing m telling with
  | nil =>
      refine ⟨m, .refl, rfl, ?_⟩
      rw [htellings, ← hhandlers]
  | cons handler rest ih =>
      have hon := h.shift htellings hhandlers
      have hproceed : m.proceed =
          { m with tellings := { telling with handlers := rest } :: others }.call
            { telling with handlers := rest } handler := by
        rw [proceed, htellings]
        dsimp only
        rw [hhandlers]
      have hbelow : ∀ child, handler = .bridge child →
          m.scopes.parent? child = some telling.scope := by
        rintro child rfl
        exact h.below telling (htellings ▸ List.mem_cons_self) child (hhandlers ▸ List.mem_cons_self)
      obtain ⟨middle, hlater, hscopes, hgoing⟩ :=
        hreplays.call hon List.mem_cons_self hbelow hsuffices
      have hfirst : Later ByHandlers m middle := (Later.proceed .refl).trans (hproceed ▸ hlater)
      have hrest := ih (hfirst.orderly h) hgoing rfl ((hfirst.spends h).suffices hsuffices)
      rw [List.foldl_cons, ← hscopes]
      exact hfirst.leads hrest

theorem replays (depth : Nat) : Replays depth := by
  induction depth with
  | zero => exact fun m scope source origin _ _ _ hsuffices => absurd hsuffices (Nat.not_lt_zero _)
  | succ depth ih =>
      intro m scope source origin h halive hid hsuffices
      have htold := h.tell halive hid origin
      obtain ⟨middle, hlater, hscopes, htellings⟩ := ih.calls (m.scopes.handlers scope source.id)
        htold rfl rfl ((spends_tell m scope source origin).suffices hsuffices)
      refine ⟨middle.proceed, .proceed hlater, ?_, ?_⟩
      · rw [proceed, htellings]
        dsimp only
        rw [serve, hscopes]
        rfl
      · rw [proceed, htellings]
        rfl

/-! ## What a deed leads to in the end -/

theorem castDepth_of_spends {before after : Scopes} (hsize : after.scopes.size = before.scopes.size)
    (hhosts : after.hosts = before.hosts) (scope : ScopeId) : before.Suffices scope after.castDepth := by
  rw [castDepth, hsize, hhosts]
  exact suffices_castDepth before scope

/-- The broadcast of a deed can be told to the end. -/
theorem Orderly.replay (h : Orderly m) (hallowed : m.Allows deed) :
    Leads (m.act deed) (m.scopes.perform deed) m.tellings := by
  cases deed with
  | set scope source =>
      have hleaves := (leaves_own m.scopes scope source.id).trans
        (leaves_put _ scope (m.scopes.mergedWith scope source))
      exact (replays _).set h hallowed.1 hallowed.2 (castDepth_of_spends hleaves.size rfl scope)
  | put scope source =>
      have hleaves := leaves_put m.scopes scope source
      exact replays _ _ scope source none (h.leave hleaves (sameWires_put _ scope source))
        ((hleaves.isAlive scope).trans hallowed.1) hallowed.2 (suffices_castDepth _ scope)
  | receive scope source =>
      have hleaves := (leaves_inherit m.scopes scope source.id).trans (leaves_put _ scope source)
      refine (replays _).receive h hallowed.1 hallowed.2 (castDepth_of_spends hleaves.size ?_ scope)
        none
      rw [Scopes.put, inherit]
      split <;> rfl
  | create _ _ | hold _ | release _ | subscribe _ _ _ _ | unsubscribe _ _ _ | wait _ _ | dispose _
    | clear _ | arrange _ _ => exact ⟨_, .refl, rfl, rfl⟩

/-- Whatever may happen at all includes what handlers of the host do. -/
theorem Later.widen {may more : Moment → Deed → Prop} (h : Later may m after)
    (hmore : ∀ m deed, may m deed → more m deed) : Later more m after := by
  induction h with
  | refl => exact .refl
  | act _ hallowed hpermitted ih => exact ih.act hallowed (hmore _ _ hpermitted)
  | proceed _ ih => exact ih.proceed

/-- What scopes may come to if every deed is done with before the next one, except for those of
handlers. -/
inductive Performed (permitted : Deed → Prop) : Scopes → Prop
  | first (settings : Fields) : Performed permitted (first settings).scopes
  | perform {scopes : Scopes} (before : Performed permitted scopes) {deed : Deed}
      (allowed : Moment.Allows { scopes } deed) (may : permitted deed) :
      Performed permitted (scopes.perform deed)

theorem allows_of_quiet (hallowed : Moment.Allows { scopes := m.scopes } deed)
    (hquiet : m.tellings = []) : m.Allows deed := by
  cases deed with
  | release scope => exact fun telling htelling => by simp [hquiet] at htelling
  | _ => exact hallowed

/-- The operations of scopes lead to moments in which no broadcast is under way. -/
theorem Performed.reached {permitted : Deed → Prop} {scopes : Scopes}
    (h : Performed permitted scopes) (hhandlers : ∀ deed, deed.OfHandler → permitted deed) :
    ∃ m, Reached (fun _ => permitted) m ∧ m.scopes = scopes ∧ m.tellings = [] := by
  induction h with
  | first settings => exact ⟨Moment.first settings, ⟨settings, .refl⟩, rfl, rfl⟩
  | perform _ hallowed hmay ih =>
      obtain ⟨m, ⟨settings, hlater⟩, rfl, hquiet⟩ := ih
      have horderly := hlater.orderly (orderly_first settings)
      have hsame := allows_of_quiet hallowed hquiet
      obtain ⟨after, hreplayed, hscopes, htellings⟩ := horderly.replay hsame
      refine ⟨after, ⟨settings, ?_⟩, hscopes, htellings.trans hquiet⟩
      exact (Later.act hlater hsame hmay).trans (hreplayed.widen fun _ deed => hhandlers deed)

end Moment

end ReactiveMarkup
