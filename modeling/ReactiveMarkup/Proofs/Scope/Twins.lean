import ReactiveMarkup.Proofs.Scope.Resolution

/-!
# Subscribing and what is stored

Registering a handler or a wait sets up bridges, and over a bridge a scope gets copies of what is
set above it. Two histories in which the same sources are set in the same scopes, but different
handlers and waits come and go, therefore store different things. What they see may still be the
same: it is decided by what was set directly, which stands next to every history as its record, and
copies do not enter into that.

They do so in one place. A source that is set is merged into whatever its scope stores under the id,
a copy included, so the record depends on whether there was a copy, and with it on who had
subscribed. As long as no source is merged into a copy, two such histories have one record. Where
all sources replace what they are merged into, the records differ in versions and options, but not
in rows.

Both facts are one induction over the two histories side by side. It compares the records through a
view of the sources in them, and all it asks of the view is that two merged sources look alike
whenever the records did before.
-/

namespace ReactiveMarkup.Scopes

variable {scopes before after left right : Scopes} {direct mine theirs : Direct} {scope : ScopeId}
  {id name : String} {source : Source}

/-! ## Setting a source, seen from outside -/

theorem Settled.set_size (h : Settled scopes direct) (hlt : scope < scopes.scopes.size)
    (hid : Unicode.lower source.id = source.id) :
    (scopes.set scope source).1.scopes.size = scopes.scopes.size ∧
      ∀ other, (scopes.set scope source).1.parent? other = scopes.parent? other := by
  obtain ⟨htold, seen, hnearest, hfresh⟩ := h
  obtain ⟨hsame, hset⟩ := set_eq scopes scope source
  have hwires := (sameWires_own scopes scope (scopes.set scope source).2.id).trans
    (sameWires_put _ scope (scopes.set scope source).2)
  obtain ⟨hkeeps, -⟩ := htold.give_fresh hfresh hnearest (hsame ▸ hid) hlt
    (htold.wired.order.nearest _)
  rw [hset]
  exact ⟨hkeeps.size.trans hwires.size,
    fun other => (hkeeps.parent other).trans (hwires.parent other)⟩

/-- What a scope sees is the nearest entry of the record, looked up along its lineage. -/
theorem History.find?_eq_record (h : History scopes direct) (scope : ScopeId) (id : String) :
    scopes.find? scope id =
      (scopes.lineage scope).findSome? fun above => direct above (Unicode.lower id) := by
  obtain ⟨htold, seen, hnearest, hfresh⟩ := h.settled
  have horder := htold.wired.order
  rw [Settled.find?_eq htold hnearest hfresh, hnearest.unique horder (horder.nearest direct)]

/-- Setting a source is seen under its own id only. -/
theorem History.find?_set_of_ne (h : History scopes direct) (hlt : scope < scopes.scopes.size)
    (hid : Unicode.lower source.id = source.id) (hname : Unicode.lower name ≠ source.id)
    (other : ScopeId) : (scopes.set scope source).1.find? other name = scopes.find? other name := by
  have hparents := (h.settled.set_size hlt hid).2
  have hset := h.set hlt hid
  rw [hset.find?_eq_record, h.find?_eq_record, lineage, lineage, lineageTo_congr hparents]
  have hgiven : ∀ above, direct.give scope (scopes.set scope source).2 above (Unicode.lower name) =
      direct above (Unicode.lower name) := by
    intro above
    refine Direct.give_of_ne fun hplace => hname ?_
    rw [← (set_eq scopes scope source).1, hplace.2]
  simp only [hgiven]

/-! ## Histories side by side -/

/-- Something that happens around the sources: handlers and waits come and go. -/
inductive Listens : Scopes → Scopes → Prop
  | host (scopes : Scopes) (name : String) {actions : List HandlerAction}
      (quiet : ∀ action ∈ actions, ∃ scope id, action = .wait scope id) :
      Listens scopes { scopes with hosts := scopes.hosts.push { name, actions } }
  | subscribe (scopes : Scopes) (scope : ScopeId) (id : String) {handler : Handler}
      (outside : ∀ child, handler ≠ .bridge child) :
      Listens scopes (scopes.addHandler scope id handler).1
  | unsubscribe (scopes : Scopes) (scope : ScopeId) (id : String) {handler : Handler}
      (outside : ∀ child, handler ≠ .bridge child) :
      Listens scopes (scopes.removeHandler scope id handler).1
  | wait (scopes : Scopes) (scope : ScopeId) (id : String) : Listens scopes (scopes.wait scope id).1
  | attend (scopes : Scopes) : Listens scopes { scopes with deliveries := [] }

/-- Two histories in which the same scopes are made and the same sources set, each of them one that
`may` be set on either side, while handlers and waits come and go on each side as they like. -/
inductive Twins (may : Scopes → ScopeId → Source → Prop) : Scopes → Scopes → Prop
  | root (settings : Fields) :
      Twins may ((create {} none settings).1.hold 0) ((create {} none settings).1.hold 0)
  | child {left right : Scopes} (before : Twins may left right) {parent : ScopeId}
      (there : parent < left.scopes.size) (settings : Fields) :
      Twins may (left.grow (some parent) settings) (right.grow (some parent) settings)
  | set {left right : Scopes} (before : Twins may left right) {scope : ScopeId}
      (there : scope < left.scopes.size) {source : Source}
      (small : Unicode.lower source.id = source.id) (leftMay : may left scope source)
      (rightMay : may right scope source) :
      Twins may (left.set scope source).1 (right.set scope source).1
  | left {left right after : Scopes} (before : Twins may left right)
      (listens : Listens left after) : Twins may after right
  | right {left right after : Scopes} (before : Twins may left right)
      (listens : Listens right after) : Twins may left after

theorem History.listens (h : History before direct) (hlistens : Listens before after) :
    History after direct := by
  cases hlistens with
  | host name quiet => exact h.host name quiet
  | subscribe scope id outside => exact h.subscribe scope id outside
  | unsubscribe scope id outside => exact h.unsubscribe scope id outside
  | wait scope id => exact h.wait scope id
  | attend => exact h.attend

theorem Listens.same_tree (hlistens : Listens before after) (h : History before direct) :
    after.scopes.size = before.scopes.size ∧
      ∀ scope, after.parent? scope = before.parent? scope := by
  have htold := h.settled.1
  cases hlistens with
  | host name quiet => exact ⟨rfl, fun _ => rfl⟩
  | subscribe scope id outside =>
      have hgrows := (extends_addHandler htold.wired htold.rising scope id outside).grows
      exact ⟨hgrows.size, hgrows.parent⟩
  | unsubscribe scope id outside =>
      have hgrows := (extends_removeHandler htold.wired htold.rising scope id outside).grows
      exact ⟨hgrows.size, hgrows.parent⟩
  | wait scope id =>
      have hgrows := (extends_wait htold.wired htold.rising scope id).grows
      exact ⟨hgrows.size, hgrows.parent⟩
  | attend => exact ⟨rfl, fun _ => rfl⟩

section

variable {α : Type} {view : Source → α} {may : Scopes → ScopeId → Source → Prop}

/-- Two histories of one tree whose records look alike through a view. -/
structure Matched (view : Source → α) (left right : Scopes) (mine theirs : Direct) : Prop where
  leftHistory : History left mine
  rightHistory : History right theirs
  size : left.scopes.size = right.scopes.size
  parent : ∀ scope, left.parent? scope = right.parent? scope
  record : ∀ scope id, (mine scope id).map view = (theirs scope id).map view

theorem Matched.set (h : Matched view left right mine theirs) (hlt : scope < left.scopes.size)
    (hid : Unicode.lower source.id = source.id)
    (hview : view (left.set scope source).2 = view (right.set scope source).2) :
    Matched view (left.set scope source).1 (right.set scope source).1
      (mine.give scope (left.set scope source).2)
      (theirs.give scope (right.set scope source).2) := by
  have hltRight : scope < right.scopes.size := h.size ▸ hlt
  obtain ⟨hsizeLeft, hparentLeft⟩ := h.leftHistory.settled.set_size hlt hid
  obtain ⟨hsizeRight, hparentRight⟩ := h.rightHistory.settled.set_size hltRight hid
  refine ⟨h.leftHistory.set hlt hid, h.rightHistory.set hltRight hid, ?_, fun other => ?_,
    fun other name => ?_⟩
  · rw [hsizeLeft, hsizeRight, h.size]
  · rw [hparentLeft, hparentRight, h.parent]
  · -- Both records get an entry at one place, and nothing else in them changes.
    have hidLeft := (set_eq left scope source).1
    have hidRight := (set_eq right scope source).1
    by_cases hplace : scope = other ∧ source.id = name
    · rw [Direct.give, Direct.give, if_pos (hidLeft.symm ▸ hplace), if_pos (hidRight.symm ▸ hplace)]
      exact congrArg some hview
    · rw [Direct.give_of_ne (hidLeft.symm ▸ hplace), Direct.give_of_ne (hidRight.symm ▸ hplace)]
      exact h.record other name

/-- If sources that may be set come out alike wherever the records were alike, the records of twins
are alike. -/
theorem Twins.matched (h : Twins may left right)
    (halike : ∀ {left right : Scopes} {mine theirs : Direct} {scope : ScopeId} {source : Source},
      Matched view left right mine theirs → may left scope source → may right scope source →
        view (left.set scope source).2 = view (right.set scope source).2) :
    ∃ mine theirs, Matched view left right mine theirs := by
  induction h with
  | root settings =>
      exact ⟨_, _, .root settings, .root settings, rfl, fun _ => rfl, fun _ _ => rfl⟩
  | @child left right _ parent there settings ih =>
      obtain ⟨mine, theirs, hmatched⟩ := ih
      refine ⟨mine, theirs, hmatched.leftHistory.child there settings,
        hmatched.rightHistory.child (hmatched.size ▸ there) settings, ?_, fun scope => ?_,
        hmatched.record⟩
      · change (left.scopes.push _).size = (right.scopes.push _).size
        rw [Arena.size_push, Arena.size_push, hmatched.size]
      · rw [parent?_grow, parent?_grow, hmatched.size, hmatched.parent]
  | set _ there small leftMay rightMay ih =>
      obtain ⟨mine, theirs, hmatched⟩ := ih
      exact ⟨_, _, hmatched.set there small (halike hmatched leftMay rightMay)⟩
  | left _ listens ih =>
      obtain ⟨mine, theirs, hmatched⟩ := ih
      obtain ⟨hsize, hparent⟩ := listens.same_tree hmatched.leftHistory
      exact ⟨mine, theirs, hmatched.leftHistory.listens listens, hmatched.rightHistory,
        hsize.trans hmatched.size, fun scope => (hparent scope).trans (hmatched.parent scope),
        hmatched.record⟩
  | right _ listens ih =>
      obtain ⟨mine, theirs, hmatched⟩ := ih
      obtain ⟨hsize, hparent⟩ := listens.same_tree hmatched.rightHistory
      exact ⟨mine, theirs, hmatched.leftHistory, hmatched.rightHistory.listens listens,
        hmatched.size.trans hsize.symm,
        fun scope => (hmatched.parent scope).trans (hparent scope).symm, hmatched.record⟩

theorem Matched.find? (h : Matched view left right mine theirs) (scope : ScopeId) (id : String) :
    (left.find? scope id).map view = (right.find? scope id).map view := by
  have hlineage : left.lineage scope = right.lineage scope := lineageTo_congr h.parent _ _
  rw [h.leftHistory.find?_eq_record, h.rightHistory.find?_eq_record, hlineage, List.map_findSome?,
    List.map_findSome?]
  congr 1
  funext above
  exact h.record above (Unicode.lower id)

end

/-! ## What may be set -/

/-- What a scope stores under the id of a source, if anything, did not come over a bridge. -/
def MeetsNoCopy (scopes : Scopes) (scope : ScopeId) (source : Source) : Prop :=
  ∀ kept, scopes.stored? scope source.id = some kept → scopes.isInherited scope source.id = false

/-- A source replaces whatever it is merged into. -/
def Replaces (_ : Scopes) (_ : ScopeId) (source : Source) : Prop :=
  source.options.mergeType = .replace

theorem Settled.stored?_eq (h : Settled scopes direct) (hmeets : MeetsNoCopy scopes scope source) :
    scopes.stored? scope source.id = direct scope source.id := by
  cases hdirect : direct scope source.id with
  | some given => exact (h.1.stocked.own hdirect).1
  | none =>
      cases hkept : scopes.stored? scope source.id with
      | none => rfl
      | some kept =>
          have hinherited := (h.1.stocked.copy hdirect hkept).1
          rw [hmeets kept hkept] at hinherited
          cases hinherited

theorem rows_overwriteAll (entries : List Entry) (rows : List Row) :
    (Source.overwriteAll entries rows).map Entry.row = rows := by
  induction rows generalizing entries with
  | nil => cases entries <;> rfl
  | cons row rows ih => cases entries <;> simp [Source.overwriteAll, Entry.overwrite, ih]

theorem rows_set_of_replaces (scopes : Scopes) (scope : ScopeId)
    (hreplaces : source.options.mergeType = .replace) :
    (scopes.set scope source).2.rows = source.rows := by
  rw [set, setBy]
  dsimp only
  cases scopes.stored? scope source.id with
  | none => rfl
  | some stored =>
      change (Source.mergeEntries stored source).map Entry.row = source.rows
      rw [Source.mergeEntries, hreplaces]
      exact rows_overwriteAll _ _

theorem Matched.set_eq (h : Matched (fun source => source) left right mine theirs)
    (hleft : MeetsNoCopy left scope source) (hright : MeetsNoCopy right scope source) :
    (left.set scope source).2 = (right.set scope source).2 := by
  have hstored : left.stored? scope source.id = right.stored? scope source.id := by
    rw [h.leftHistory.settled.stored?_eq hleft, h.rightHistory.settled.stored?_eq hright]
    simpa using h.record scope source.id
  rw [Scopes.set, setBy, Scopes.set, setBy]
  dsimp only
  rw [hstored]

/-- Handlers and waits that come and go do not change what any scope sees or what setting a source
gives, as long as no source is merged into a copy that came over a bridge; and they never change the
rows of it while all sources that are set replace what they are merged into. -/
theorem subscribing_keeps_sources {left right : Scopes} :
    (Twins MeetsNoCopy left right →
      (∀ scope id, left.find? scope id = right.find? scope id) ∧
        ∀ scope source, MeetsNoCopy left scope source → MeetsNoCopy right scope source →
          (left.set scope source).2 = (right.set scope source).2) ∧
    (Twins Replaces left right →
      (∀ scope id, (left.find? scope id).map Source.rows = (right.find? scope id).map Source.rows) ∧
        ∀ scope source, Replaces left scope source →
          (left.set scope source).2.rows = (right.set scope source).2.rows) := by
  constructor
  · intro htwins
    obtain ⟨mine, theirs, hmatched⟩ := htwins.matched fun h hleft hright => h.set_eq hleft hright
    refine ⟨fun scope id => ?_, fun scope source hleft hright => hmatched.set_eq hleft hright⟩
    simpa using hmatched.find? scope id
  · intro htwins
    have halike : ∀ {left right : Scopes} {scope : ScopeId} {source : Source},
        Replaces left scope source →
          (left.set scope source).2.rows = (right.set scope source).2.rows := by
      intro left right scope source hreplaces
      rw [rows_set_of_replaces left scope hreplaces, rows_set_of_replaces right scope hreplaces]
    obtain ⟨mine, theirs, hmatched⟩ := htwins.matched fun _ hleft _ => halike hleft
    exact ⟨hmatched.find?, fun scope source hreplaces => halike hreplaces⟩

/-- One scope below another. -/
def twoScopes : Scopes := ((create {} none).1.hold 0).grow (some 0) []

/-- The inner one of two scopes listens. -/
def attentiveScopes : Scopes := (twoScopes.addHandler 1 "DB.Items" (.trigger 0)).1

/-- A source of one row that is put behind the rows there are. -/
def itemsAfter (v : String) : Source :=
  .make "db.items" [[("v", .string v)]] { mergeType := .append }

/-- An item is set in both scopes, first in the inner one, where another one is put behind it. -/
def withOwnItems (scopes : Scopes) : Scopes :=
  (((scopes.set 1 (itemsOf "a")).1.set 0 (itemsOf "b")).1.set 1 (itemsAfter "c")).1

/-- An item is set in both scopes, first in the outer one. -/
def withHidingItems (scopes : Scopes) : Scopes :=
  ((scopes.set 0 (itemsOf "a")).1.set 1 (itemsOf "b")).1

theorem attentive_twins (may : Scopes → ScopeId → Source → Prop) :
    Twins may attentiveScopes twoScopes :=
  .left (.child (.root []) (by decide) []) (.subscribe _ 1 "DB.Items" fun _ hsame => by cases hsame)

theorem attentive_keeps_items :
    (withOwnItems attentiveScopes).find? 1 "DB.Items" =
      (withOwnItems twoScopes).find? 1 "DB.Items" ∧
    ((withHidingItems attentiveScopes).find? 1 "DB.Items").map Source.rows =
      ((withHidingItems twoScopes).find? 1 "DB.Items").map Source.rows := by
  have hown : Twins MeetsNoCopy (withOwnItems attentiveScopes) (withOwnItems twoScopes) :=
    (((attentive_twins _).set (by decide +kernel) (lower_id_make ..) (fun _ _ => by decide +kernel)
      fun _ _ => by decide +kernel).set (by decide +kernel) (lower_id_make ..)
        (fun _ _ => by decide +kernel) fun _ _ => by decide +kernel).set (by decide +kernel)
          (lower_id_make ..) (fun _ _ => by decide +kernel) fun _ _ => by decide +kernel
  have hhiding : Twins Replaces (withHidingItems attentiveScopes) (withHidingItems twoScopes) :=
    ((attentive_twins _).set (by decide +kernel) (lower_id_make ..) rfl rfl).set (by decide +kernel)
      (lower_id_make ..) rfl rfl
  exact ⟨(subscribing_keeps_sources.1 hown).1 1 "DB.Items",
    (subscribing_keeps_sources.2 hhiding).1 1 "DB.Items"⟩

/-- What is merged into a copy depends on who had subscribed: an item is set in the outer scope, and
one is put behind what the inner scope stores, which is a copy of it or nothing. -/
theorem append_over_copy_differs : ∃ left right, Twins (fun _ _ _ => True) left right ∧
    (left.set 1 (itemsAfter "b")).2.versions = [0, 0] ∧
    (right.set 1 (itemsAfter "b")).2.versions = [0] :=
  ⟨(attentiveScopes.set 0 (itemsOf "a")).1, (twoScopes.set 0 (itemsOf "a")).1,
    (attentive_twins _).set (by decide +kernel) (lower_id_make ..) trivial trivial,
    by decide +kernel, by decide +kernel⟩

end ReactiveMarkup.Scopes
