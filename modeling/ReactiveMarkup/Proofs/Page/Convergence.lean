import ReactiveMarkup.Page.Activity
import ReactiveMarkup.Page.Host
import ReactiveMarkup.Proofs.Page.Mounts

/-!
# Bindings converge

A host opens a page and does one thing after another: it mounts fragments, sets sources, has data
loaded, changes markup that is not bound, and settles. Each of these leaves a sound page behind, in
which a binding that does not show its text is in the queue. A settle leaves nothing in the queue, so
when it returns every binding shows what its token evaluates to without waiting.
-/

namespace ReactiveMarkup

/-! ## Registering commands -/

theorem Registries.mem_commandsTo_succ {registries : Registries} {registry : RegistryId}
    {cell : Registry} {entry : String × Command} {height : Nat}
    (hcell : registries.get? registry = some cell) :
    entry ∈ registries.commandsTo (height + 1) registry ↔
      entry ∈ cell.commands ∨
        ∃ parent, cell.parent = some parent ∧ entry ∈ registries.commandsTo height parent := by
  rw [commandsTo, hcell]
  refine List.mem_append.trans (or_congr_right ?_)
  cases cell.parent with
  | none => simp
  | some parent => simp

theorem Registries.mem_commandsTo_register {registries : Registries} {registry other : RegistryId}
    {keyword : String} {command : Command} {entry : String × Command} (height : Nat)
    (h : entry ∈ (registries.register registry keyword command).commandsTo height other) :
    entry ∈ registries.commandsTo height other ∨ entry.2 = command := by
  induction height generalizing other with
  | zero => cases h
  | succ height ih =>
      cases hcell : registries.get? other with
      | none =>
          rw [commandsTo, register, Arena.get?_modify, hcell, Option.map_none, ite_self] at h
          cases h
      | some cell =>
          have hmore : (registries.register registry keyword command).get? other =
              if registry = other then
                some { cell with commands := (Unicode.lower keyword, command) :: cell.commands }
              else some cell := by
            rw [register, Arena.get?_modify, hcell]
            rfl
          rw [mem_commandsTo_succ hcell]
          by_cases hsame : registry = other
          · rw [if_pos hsame] at hmore
            rcases (mem_commandsTo_succ hmore).mp h with hin | ⟨parent, hparent, hin⟩
            · exact (List.mem_cons.mp hin).symm.imp .inl (congrArg Prod.snd)
            · exact (ih hin).imp (fun hin => .inr ⟨parent, hparent, hin⟩) id
          · rw [if_neg hsame] at hmore
            rcases (mem_commandsTo_succ hmore).mp h with hin | ⟨parent, hparent, hin⟩
            · exact .inl (.inl hin)
            · exact (ih hin).imp (fun hin => .inr ⟨parent, hparent, hin⟩) id

namespace Page

variable {page before after : Page} {ledger : Ledger} {drained : Prop}

/-! ## What a host does at once -/

theorem ofOptions_ok {options : Options} (h : ofOptions options = .ok page) :
    ∃ patterns, options.patterns = .ok patterns ∧ page =
      { options, patterns, scopes := (Scopes.create {} none options.settings).1.hold rootScope
        registries := Arena.empty.push { commands := Registries.standard } } := by
  rw [ofOptions] at h
  cases hpatterns : options.patterns with
  | error error =>
      rw [hpatterns] at h
      cases h
  | ok patterns =>
      rw [hpatterns] at h
      exact ⟨patterns, rfl, (Except.ok.inj h).symm⟩

/-- A page that was just opened. -/
theorem sound_ofOptions {options : Options} (h : ofOptions options = .ok page) : page.Sound {} := by
  obtain ⟨patterns, -, rfl⟩ := ofOptions_ok h
  constructor
  case running => rfl
  case plain =>
    intro entry hentry make
    have hstandard : entry ∈ Registries.standard ++ [] := hentry
    have hnone : ∀ entry ∈ Registries.standard, entry.2 ≠ .host make := by
      simp [Registries.standard]
    rw [List.append_nil] at hstandard
    exact hnone entry hstandard
  case named => exact fun id => NodeKind.wellnamed_of_none rfl
  case rooted => exact ⟨Nat.one_pos, rfl, fun _ _ hhandler => absurd hhandler List.not_mem_nil⟩
  case quiet => rfl
  case held => exact Nat.le_refl 1
  case jobs => exact fun _ hjob => absurd hjob List.not_mem_nil
  case told => exact fun _ _ htold => absurd htold List.not_mem_nil
  case pending => exact nofun
  case cells => rintro component ⟨_, _, hcell, -⟩; cases hcell
  case alive => rintro component ⟨_, _, hcell, -⟩; cases hcell
  case spots => rintro component spot ⟨_, _, hcell, -⟩; cases hcell
  case agree => rintro component other spot more ⟨_, _, hcell, -⟩; cases hcell
  case registered => rintro component spot ⟨_, _, hcell, -⟩; cases hcell
  case shown => rintro component spot ⟨_, _, hcell, -⟩; cases hcell

/-- Commands that are not a host's may be registered anywhere. -/
theorem Sound.register (h : page.Sound ledger) (registry : RegistryId) (keyword : String)
    {command : Command} (hplain : ∀ make, command ≠ .host make) :
    (page.register registry keyword command).Sound ledger :=
  { h with
    plain := fun entry hentry make => by
      rcases Registries.mem_commandsTo_register _ hentry with hold | hnew
      · exact h.plain entry hold make
      · rw [hnew]
        exact hplain make }

/-- What a host may do to a node. -/
inductive NodeEdit where
  | setAttribute (name value : String)
  | removeAttribute (name : String)
  | setContent (content : String)

/-- What a node is after it was edited. -/
def NodeEdit.apply : NodeEdit → NodeKind → NodeKind
  | .setAttribute name value => NodeKind.setAttribute name value
  | .removeAttribute name => NodeKind.removeAttribute name
  | .setContent content => NodeKind.setContent content

theorem NodeEdit.wellnamed_apply (edit : NodeEdit) {kind : NodeKind} (h : kind.Wellnamed) :
    (edit.apply kind).Wellnamed := by
  cases edit with
  | setAttribute name value => exact h.setAttribute name value
  | removeAttribute name => exact h.removeAttribute name
  | setContent content => exact h.setContent content

/-- What a host may do to markup: make nodes, copy them, put them elsewhere, and edit those that no
binding writes to. -/
inductive Edits (page : Page) : Markup → Prop
  | create {kind : NodeKind} (bare : kind.attributes = []) : Edits page (page.markup.create kind).1
  | copy (id : NodeId) : Edits page (page.markup.copy id).1
  | arrange {markup : Markup} (size : markup.size = page.markup.size)
    (kind : ∀ id, markup.kind id = page.markup.kind id) : Edits page markup
  | node {id : NodeId} (edit : NodeEdit)
    (unbound : ∀ component spot, page.Collected component → page.spot? component = some spot →
      spot.node ≠ id) : Edits page (page.markup.setKind id edit.apply)

theorem Sound.edit (h : page.Sound ledger) {markup : Markup} (hedits : page.Edits markup) :
    Sound { page with markup } ledger := by
  have hkeeps : ∀ {changed}, Markup.Keeps page.markup changed →
      Sound { page with markup := changed } ledger := fun hkeeps =>
    (h.putMarkup hkeeps.size (hkeeps.named h.named) fun component spot hin hspot =>
      hkeeps.kind _ (h.spots component spot hin hspot).1).sound
  cases hedits with
  | create bare => exact hkeeps (Markup.keeps_create _ fun _ => NodeKind.wellnamed_of_none bare)
  | copy id => exact hkeeps (Markup.copyTo_new _ _ id).2.1
  | arrange size kind => exact hkeeps (.of_kind size kind)
  | node edit unbound =>
      exact (h.putMarkup (Nat.le_of_eq (Markup.size_setKind _ _).symm)
        (h.named.setKind (fun _ => edit.wellnamed_apply) _) fun component spot hin hspot =>
          Markup.kind_setKind_of_ne (unbound component spot hin hspot)).sound

/-! ## What goes on for a while -/

theorem openGate_beside (page : Page) (gate : String) : Beside page (page.openGate gate) :=
  ⟨rfl, rfl, rfl, rfl, rfl, ⟨rfl, rfl⟩, rfl, rfl, Nat.le_refl _⟩

theorem Draining.beside {drain : Drain} (h : before.Draining ledger drain)
    (hbeside : Beside before after) : after.Draining ledger drain :=
  ⟨h.fleet.beside hbeside rfl, fun hnone => hbeside.queue.1.trans (h.empty hnone)⟩

theorem Phasing.beside {prepared : Bool} {phase : Phase} (h : before.Phasing prepared ledger phase)
    (hbeside : Beside before after) : after.Phasing prepared ledger phase := by
  cases phase with
  | few slots => exact Underway.beside h hbeside
  | many ids fleet results => exact Afloat.beside h hbeside rfl

/-- What is true of a page while an activity is under way and when it is over. Some are over only when
nothing is in the queue. -/
def Onward (drained : Prop) : Page × Stage → Prop
  | (page, .finished _) => page.Sound {} ∧ (drained → page.queue.jobs = [])
  | (page, .waiting _ (.drain drain)) => page.Draining {} drain
  | (page, .waiting _ (.task task)) => ¬drained ∧ page.Sound (Ledger.lend {} task) ∧ page.Errand task
  | (page, .waiting _ (.mount mount)) => ¬drained ∧ Mounts (page, .suspended .turn mount)
  | _ => False

theorem Drains.onward {reached : Page × Progress Drain} (h : Drains before {} reached) :
    Onward drained (stageOf .drain reached) := by
  obtain ⟨after, progress⟩ := reached
  cases progress with
  | suspended on drain => exact h.1
  | finished result => cases result <;> exact ⟨h.1.sound, fun _ => h.2⟩

theorem Ends.onward {reached : Page × Progress Task} (h : Ends before {} reached)
    (hnot : ¬drained) : Onward drained (stageOf .task reached) := by
  obtain ⟨after, progress⟩ := reached
  cases progress with
  | suspended on task => exact ⟨hnot, h.1.sound, h.2⟩
  | finished result => cases result <;> exact ⟨h.sound, fun hdrained => absurd hdrained hnot⟩

theorem Mounts.onward {progress : Progress Mount} (h : Mounts (after, progress)) (hnot : ¬drained)
    (size : Nat) : Onward drained (after, .ofProgress (.number size) .mount progress) := by
  cases progress with
  | suspended on mount => exact ⟨hnot, h⟩
  | finished result => cases result <;> exact ⟨h, fun hdrained => absurd hdrained hnot⟩

/-- An activity that is polled goes on. -/
theorem Onward.poll {awake : Bool} {activity : Activity}
    (h : Onward drained (page, .waiting awake activity)) (fuel : Nat) :
    Onward drained (page.poll fuel activity) := by
  cases activity with
  | drain drain => exact (Draining.resumeDrain h fuel).onward
  | task task => exact (Sound.resume h.2.1 h.2.2).onward h.1
  | mount mount => exact (Mounts.resumeMount h.2).onward h.1 mount.size
  | wait promise => exact h.elim
  | evaluate scope promise next => exact h.elim
  | load scope task => exact h.elim
  | run run => exact h.elim
  | serve service => exact h.elim

/-- A gate may be opened at any time. -/
theorem Onward.openGate {awake : Bool} {activity : Activity}
    (h : Onward drained (page, .waiting awake activity)) (gate : String) :
    Onward drained (page.openGate gate, .waiting awake activity) := by
  have hbeside := openGate_beside page gate
  cases activity with
  | drain drain => exact Draining.beside h hbeside
  | task task => exact ⟨h.1, hbeside.sound h.2.1, h.2.2.stays hbeside.stays⟩
  | mount mount =>
      obtain ⟨hnot, prepared, due, hphasing, hrunning⟩ := h
      exact ⟨hnot, prepared, due, hphasing.beside hbeside, hrunning.stays hbeside.stays⟩
  | wait promise => exact h.elim
  | evaluate scope promise next => exact h.elim
  | load scope task => exact h.elim
  | run run => exact h.elim
  | serve service => exact h.elim

/-- An activity that is run to completion: it is polled until it is finished, and in between gates may
be opened, so that what waits at them can go on. -/
inductive Completes : Page × Stage → Page → Except Error Answer → Prop
  | finished {page : Page} {result : Except Error Answer} :
    Completes (page, .finished result) page result
  | poll {page after : Page} {awake : Bool} {activity : Activity} {result : Except Error Answer}
    (fuel : Nat) (rest : Completes (page.poll fuel activity) after result) :
    Completes (page, .waiting awake activity) after result
  | openGate {page after : Page} {awake : Bool} {activity : Activity} {result : Except Error Answer}
    (gate : String) (rest : Completes (page.openGate gate, .waiting awake activity) after result) :
    Completes (page, .waiting awake activity) after result

/-- What is true of a page when an activity is over. -/
theorem Completes.onward {reached : Page × Stage} {result : Except Error Answer}
    (h : Completes reached after result) (honward : Onward drained reached) :
    after.Sound {} ∧ (drained → after.queue.jobs = []) := by
  induction h with
  | finished => exact honward
  | poll fuel _ ih => exact ih (honward.poll fuel)
  | openGate gate _ ih => exact ih (honward.openGate gate)

/-! ## Sessions -/

/-- The pages of a host that does one thing after another, each run to completion. Fragments are
mounted that were not mounted before, and nodes of bindings are left alone. -/
inductive Session : Page → Prop
  | opened {options : Options} {page : Page} (opened : ofOptions options = .ok page) : Session page
  | registerProvider {page : Page} (before : Session page) (name : String) (provider : Provider) :
    Session (page.registerProvider name provider)
  | register {page : Page} (before : Session page) (registry : RegistryId) (keyword : String)
    {command : Command} (plain : ∀ make, command ≠ .host make) :
    Session (page.register registry keyword command)
  | openGate {page : Page} (before : Session page) (gate : String) : Session (page.openGate gate)
  | edit {page : Page} (before : Session page) {markup : Markup} (edits : page.Edits markup) :
    Session { page with markup }
  | setSource {page : Page} (before : Session page) (source : Source) :
    Session (page.setSource rootScope source).1
  | mount {page after : Page} (before : Session page) {roots : List NodeId}
    {result : Except Error Answer} (mountable : page.Mountable roots)
    (completes : Completes (page.startMount roots) after result) : Session after
  | load {page after : Page} (before : Session page) {component : ComponentId}
    {result : Except Error Answer} (collected : page.Collected component)
    (completes : Completes (page.startRender component none) after result) : Session after
  | settle {page after : Page} (before : Session page) (fuel : Nat) {result : Except Error Answer}
    (completes : Completes (page.startDrain fuel) after result) : Session after

theorem Sound.settled (h : page.Sound {}) {fuel : Nat} {result : Except Error Answer}
    (hcompletes : Completes (page.startDrain fuel) after result) :
    after.Sound {} ∧ after.queue.jobs = [] :=
  (@Completes.onward _ True _ _ hcompletes (h.beginDrain rfl fuel).onward).imp id
    fun hjobs => hjobs trivial

/-- Whatever a host does, no binding is left behind. -/
theorem Session.sound (h : Session page) : page.Sound {} := by
  induction h with
  | opened opened => exact sound_ofOptions opened
  | registerProvider _ name provider ih => exact { ih with }
  | register _ registry keyword plain ih => exact ih.register registry keyword plain
  | openGate _ gate ih => exact (openGate_beside _ gate).sound ih
  | edit _ edits ih => exact ih.edit edits
  | setSource _ source ih => exact (ih.setSource source).sound
  | mount _ mountable completes ih =>
      exact (@Completes.onward _ False _ _ completes ((ih.beginMount mountable).onward not_false _)).1
  | load _ collected completes ih =>
      exact (@Completes.onward _ False _ _ completes
        ((ih.render collected List.not_mem_nil none).onward not_false)).1
  | settle _ fuel completes ih => exact (ih.settled completes).1

/-! ## Convergence -/

/-- An evaluation that does not wait is over at once and gives what a query gives. -/
theorem evaluateQuery_once (page : Page) (scope : ScopeId) (query : Query Value) :
    page.evaluateQuery scope false query =
      (page.releaseScope scope, .finished (.ok (.value (query.run (page.scopes.find? scope))))) := by
  induction query with
  | done value => rfl
  | lookup id mayWait next ih =>
      rw [evaluateQuery, Query.run]
      cases page.scopes.find? scope id with
      | some source => exact ih (some source)
      | none => exact ih none

theorem startEvaluation_once (page : Page) (scope : ScopeId) (token : Token) :
    page.startEvaluation scope false token =
      (page, .finished (.ok (.value (token.value (page.scopes.find? scope))))) := by
  have hheld : (page.holdScope scope).releaseScope scope = page := by
    rw [holdScope, releaseScope, Scopes.hold, Scopes.release, List.erase_cons_head]
  have hfind : (page.holdScope scope).scopes.find? scope = page.scopes.find? scope := by
    funext id
    refine Scopes.find?_of_scopes ?_ scope id
    rfl
  rw [startEvaluation, evaluateQuery_once, hheld, hfind]
  rfl

/-- When a settle returns, what stands at the place of every binding of every mounted fragment is the
text of the value that its token evaluates to without waiting. -/
theorem Session.settled_bindings_shown {fuel : Nat} {result : Except Error Answer}
    (h : Session page) (hsettles : Completes (page.startDrain fuel) after result)
    {collection : CollectionId} {cell : Collection} {component : ComponentId} {binding : Component}
    {place : Place} {token : Token}
    (hcollection : after.collections.get? collection = some cell)
    (hmember : component ∈ cell.components)
    (hbinding : after.components.get? component = some binding)
    (hbound : Component.bound? binding.behaviour = some (place, token)) :
    ∃ value, after.startEvaluation rootScope false token = (after, .finished (.ok (.value value))) ∧
      place.read? (after.markup.kind binding.node) = some value.display := by
  obtain ⟨hsound, hjobs⟩ := h.sound.settled hsettles
  have hspot : after.spot? component = some ⟨binding.node, place, token, binding.priority⟩ := by
    rw [spot?, hbinding, Option.bind_some, Component.spot?, hbound]
    rfl
  have hqueued : component ∉ after.queued := by
    rw [queued, hjobs]
    exact List.not_mem_nil
  exact ⟨_, startEvaluation_once after rootScope token,
    (hsound.shown component _ ⟨collection, cell, hcollection, hmember⟩ hspot
      List.not_mem_nil).resolve_right hqueued⟩

/-- A page with a text that shows a title. -/
def titled (page : Page) : Page :=
  { page with markup := (page.markup.create (.text "[##db.page.title##]")).1 }

/-- The page when the text was mounted and a title set. -/
def entitled (page : Page) : Page :=
  (page.titled.startMount [0]).1.setSource rootScope
    (Source.ofValue "db.page" (.object [("title", .string "Hello")])) |>.1

/-- Whether there is nothing to be waited for. -/
def isOver : Stage → Bool
  | .finished _ => true
  | .waiting .. => false

theorem completes_of_isOver {reached : Page × Stage} (h : isOver reached.2 = true) :
    ∃ result, Completes reached reached.1 result := by
  obtain ⟨after, stage⟩ := reached
  cases stage with
  | finished result => exact ⟨result, .finished⟩
  | waiting awake activity => cases h

theorem titled_mountable {options : Options} (h : ofOptions options = .ok page) :
    page.titled.Mountable [0] := by
  obtain ⟨patterns, -, rfl⟩ := ofOptions_ok h
  refine ⟨?_, ?_⟩
  · rintro node ⟨root, hroot, hbelow⟩
    obtain rfl := List.mem_singleton.mp hroot
    rcases Relation.ReflTransGen.cases_head hbelow with rfl | ⟨child, hchild, -⟩
    · exact Nat.one_pos
    · cases hchild
  · rintro component spot ⟨_, _, hcell, -⟩
    cases hcell

/-- The first settle after a title was set shows it. -/
theorem settled_title_shown : ∃ page result token value, ofOptions {} = .ok page ∧
    Session page.entitled ∧
    Completes (page.entitled.startDrain 9) (page.entitled.startDrain 9).1 result ∧
    (page.entitled.startDrain 9).1.startEvaluation rootScope false token =
      ((page.entitled.startDrain 9).1, .finished (.ok (.value value))) ∧
    value.display = "Hello" ∧
    (page.entitled.startDrain 9).1.markup.kind 0 = .text "Hello" := by
  have hruns : ((ofOptions {}).toOption.any fun page =>
      isOver (page.titled.startMount [0]).2 && isOver (page.entitled.startDrain 9).2 &&
        ((page.entitled.startDrain 9).1.collections.get? 0).any (·.components == [0]) &&
        ((page.entitled.startDrain 9).1.components.get? 0).any
          (fun cell => cell.node == 0 && (Component.bound? cell.behaviour).any (·.1 == .whole)) &&
        (page.entitled.startDrain 9).1.markup.kind 0 == .text "Hello") = true := by
    decide +kernel
  cases hpage : ofOptions {} with
  | error error =>
      rw [hpage] at hruns
      cases hruns
  | ok page =>
      rw [hpage] at hruns
      simp only [Except.toOption, Option.any_some, Bool.and_eq_true] at hruns
      obtain ⟨⟨⟨⟨hmounts, hsettles⟩, hcollection⟩, hbinding⟩, hshown⟩ := hruns
      obtain ⟨_, hmounted⟩ := completes_of_isOver hmounts
      obtain ⟨result, hsettled⟩ := completes_of_isOver hsettles
      have hsession : Session page.entitled :=
        .setSource (.mount (.edit (.opened hpage) (.create rfl)) (titled_mountable hpage) hmounted) _
      obtain ⟨cell, hcell, hmembers⟩ := (Option.any_eq_true _ _).mp hcollection
      obtain ⟨binding, hmade, hbound⟩ := (Option.any_eq_true _ _).mp hbinding
      obtain ⟨hnode, hwhole⟩ := Bool.and_eq_true_iff.mp hbound
      obtain ⟨⟨place, token⟩, htoken, hplace⟩ := (Option.any_eq_true _ _).mp hwhole
      have hmember : 0 ∈ cell.components := by
        rw [eq_of_beq hmembers]
        exact List.mem_cons_self
      obtain ⟨value, hvalue, htext⟩ :=
        hsession.settled_bindings_shown hsettled hcell hmember hmade htoken
      have hhello := eq_of_beq hshown
      obtain rfl : place = .whole := eq_of_beq hplace
      rw [eq_of_beq hnode, hhello] at htext
      exact ⟨page, result, token, value, rfl, hsession, hsettled, hvalue,
        (Option.some.inj htext).symm, hhello⟩

end Page

end ReactiveMarkup
