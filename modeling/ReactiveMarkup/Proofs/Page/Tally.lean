import ReactiveMarkup.Proofs.Page.Acts
import ReactiveMarkup.Proofs.Scope.Enrolment

/-!
# The books of components

A component counts the renders of it that are under way, and keeps a list of the ids it is registered
for. Nothing else on a page says so at one glance: the renders are tasks in the hands of whoever
drives them on, and the registrations are handlers of the component's scope. `Tallied` says that the
books are right, given a list of the components that are being rendered, each as often as it is.

Whatever is done to a page takes some renders off this list and puts others on it. `Accounts` says which
ones, next to any others that are left alone, and also what no work undoes: a component stays in its
scope, and a disposed one stays disposed and is rendered no more often than before.
-/

namespace ReactiveMarkup

/-- A component whose books are right, with the number of its renders under way. -/
structure Component.Booked (scopes : Scopes) (flying : Nat) (id : ComponentId) (cell : Component) :
    Prop where
  placed : cell.scope < scopes.scopes.size
  flying : cell.inFlight = flying
  single : cell.behaviour.allowsMany = false → cell.inFlight ≤ 1
  gone : cell.disposed = true → cell.triggers = [] ∧ cell.behaviour.forget = cell.behaviour
  small : ∀ name ∈ cell.triggers, Unicode.lower name = name
  enrolled : scopes.isAlive cell.scope = true → scopes.isDisposed cell.scope = false →
    ∀ name, scopes.enrolled cell.scope name id = if name ∈ cell.triggers then 1 else 0

/-- A behaviour, but for what it remembers of a render. -/
def Behaviour.steady : Behaviour → Behaviour
  | .faces _ => .wrapper
  | behaviour => behaviour

theorem Behaviour.steady_eq_load {behaviour : Behaviour} {command : LoadCommand} :
    behaviour.steady = .load command ↔ behaviour = .load command := by
  cases behaviour <;> simp [steady]

/-- What may become of a component. -/
structure Component.Becomes (cell later : Component) : Prop where
  scope : later.scope = cell.scope
  priority : later.priority = cell.priority
  steady : later.behaviour.steady = cell.behaviour.steady
  disposed : cell.disposed = true → later.disposed = true ∧ later.inFlight ≤ cell.inFlight
  triggers : later.disposed = false → cell.triggers ⊆ later.triggers

theorem Component.Becomes.refl (cell : Component) : cell.Becomes cell :=
  ⟨rfl, rfl, rfl, fun h => ⟨h, Nat.le_refl _⟩, fun _ _ h => h⟩

theorem Component.Becomes.kept {cell later : Component} (h : cell.Becomes later)
    (hkept : later.disposed = false) : cell.disposed = false := by
  cases hdisposed : cell.disposed with
  | false => rfl
  | true =>
      rw [(h.disposed hdisposed).1] at hkept
      cases hkept

theorem Component.Becomes.trans {cell later last : Component} (h : cell.Becomes later)
    (h' : later.Becomes last) : cell.Becomes last where
  scope := h'.scope.trans h.scope
  priority := h'.priority.trans h.priority
  steady := h'.steady.trans h.steady
  disposed hdisposed :=
    ⟨(h'.disposed (h.disposed hdisposed).1).1, Nat.le_trans (h'.disposed (h.disposed hdisposed).1).2
      (h.disposed hdisposed).2⟩
  triggers hkept _ hname := h'.triggers hkept (h.triggers (h'.kept hkept) hname)

/-- What may become of a collection. -/
structure Collection.Becomes (cell later : Collection) : Prop where
  scope : later.scope = cell.scope
  begun : cell.state ≠ .ready → later.state ≠ .ready
  disposed : cell.state = .disposed → later.state = .disposed

theorem Collection.Becomes.refl (cell : Collection) : cell.Becomes cell :=
  ⟨rfl, fun h => h, fun h => h⟩

theorem Collection.Becomes.trans {cell later last : Collection} (h : cell.Becomes later)
    (h' : later.Becomes last) : cell.Becomes last where
  scope := h'.scope.trans h.scope
  begun hbegun := h'.begun (h.begun hbegun)
  disposed hdisposed := h'.disposed (h.disposed hdisposed)

namespace Page

variable {page before middle after : Page} {id : ComponentId} {cell : Component}
  {busy gone left more last : List ComponentId}

/-- A page on which the books of all components are right, with the components that are being
rendered. -/
structure Tallied (page : Page) (busy : List ComponentId) : Prop where
  standing : page.scopes.Standing
  linked : page.scopes.Linked
  placed : ∀ collection cell, page.collections.get? collection = some cell →
    cell.scope < page.scopes.scopes.size
  gathered : ∀ collection cell, page.collections.get? collection = some cell →
    cell.components.Nodup ∧ ∀ id ∈ cell.components, id < page.components.size
  known : ∀ id ∈ busy, id < page.components.size
  booked : ∀ id cell, page.components.get? id = some cell →
    cell.Booked page.scopes (busy.count id) id
  unborn : ∀ id, page.components.size ≤ id → ∀ scope name,
    page.scopes.isDisposed scope = false → page.scopes.enrolled scope name id = 0

/-- What no work undoes. -/
structure Lasts (before after : Page) : Prop where
  flights : before.flights ≤ after.flights
  cells : ∀ id cell, before.components.get? id = some cell →
    ∃ later, after.components.get? id = some later ∧ cell.Becomes later
  collections : ∀ id cell, before.collections.get? id = some cell →
    ∃ later, after.collections.get? id = some later ∧ cell.Becomes later

theorem Lasts.refl (page : Page) : Lasts page page :=
  ⟨Nat.le_refl _, fun _ cell hcell => ⟨cell, hcell, .refl cell⟩,
    fun _ cell hcell => ⟨cell, hcell, .refl cell⟩⟩

theorem Lasts.trans (h : Lasts before middle) (h' : Lasts middle after) : Lasts before after where
  flights := Nat.le_trans h.flights h'.flights
  cells id cell hcell := by
    obtain ⟨later, hlater, hbecomes⟩ := h.cells id cell hcell
    obtain ⟨last, hlast, hmore⟩ := h'.cells id later hlater
    exact ⟨last, hlast, hbecomes.trans hmore⟩
  collections id cell hcell := by
    obtain ⟨later, hlater, hbecomes⟩ := h.collections id cell hcell
    obtain ⟨last, hlast, hmore⟩ := h'.collections id later hlater
    exact ⟨last, hlast, hbecomes.trans hmore⟩

/-- Work takes some renders up and leaves others, whatever else is under way. -/
structure Accounts (before : Page) (gone : List ComponentId) (after : Page)
    (left : List ComponentId) : Prop where
  lasts : Lasts before after
  tallied : ∀ others, before.Tallied (gone ++ others) → after.Tallied (left ++ others)

/-- Work that neither ends a render nor leaves one. -/
def Tends (before after : Page) : Prop := Accounts before [] after []

theorem Accounts.refl (page : Page) (busy : List ComponentId) : Accounts page busy page busy :=
  ⟨.refl page, fun _ h => h⟩

theorem Accounts.trans (h : Accounts before gone middle left) (h' : Accounts middle left after last) :
    Accounts before gone after last :=
  ⟨h.lasts.trans h'.lasts, fun others hbefore => h'.tallied others (h.tallied others hbefore)⟩

theorem Accounts.frame (h : Accounts before gone after left) (more : List ComponentId) :
    Accounts before (gone ++ more) after (left ++ more) where
  lasts := h.lasts
  tallied others hbefore := by
    rw [List.append_assoc] at hbefore ⊢
    exact h.tallied _ hbefore

theorem Tends.refl (page : Page) : Tends page page := Accounts.refl page []

theorem Tends.trans (h : Tends before middle) (h' : Tends middle after) : Tends before after :=
  Accounts.trans h h'

theorem Tends.accounts (h : Tends before after) (busy : List ComponentId) :
    Accounts before busy after busy := Accounts.frame h busy

theorem Accounts.tends (h : Accounts before gone middle left) (h' : Tends middle after) :
    Accounts before gone after left := h.trans (h'.accounts left)

theorem Tends.then (h : Tends before middle) (h' : Accounts middle gone after left) :
    Accounts before gone after left := (h.accounts gone).trans h'

theorem Tends.foldl {α : Type} {step : Page → α → Page}
    (hstep : ∀ page item, Tends page (step page item)) (page : Page) (items : List α) :
    Tends page (items.foldl step page) := by
  induction items generalizing page with
  | nil => exact .refl page
  | cons item rest ih => exact (hstep page item).trans (ih _)

theorem Tallied.perm (h : page.Tallied busy) (hperm : busy.Perm more) : page.Tallied more where
  standing := h.standing
  linked := h.linked
  placed := h.placed
  gathered := h.gathered
  known id hid := h.known id (hperm.mem_iff.mpr hid)
  booked id cell hcell := hperm.count_eq id ▸ h.booked id cell hcell
  unborn := h.unborn

theorem Accounts.perm (h : Accounts before gone after left) (hgone : gone.Perm busy)
    (hleft : left.Perm more) : Accounts before busy after more where
  lasts := h.lasts
  tallied others hbefore :=
    (h.tallied others (hbefore.perm (hgone.symm.append_right others))).perm
      (hleft.append_right others)

/-! ## Work that touches no component -/

/-- Nothing that the books are about has changed. -/
structure Aside (before after : Page) : Prop where
  scopes : after.scopes = before.scopes
  components : after.components = before.components
  collections : after.collections = before.collections
  flights : before.flights ≤ after.flights

theorem tends_aside (h : Aside before after) : Tends before after where
  lasts := ⟨h.flights, fun id cell hcell => ⟨cell, h.components ▸ hcell, .refl cell⟩,
    fun id cell hcell => ⟨cell, h.collections ▸ hcell, .refl cell⟩⟩
  tallied others htallied := by
    obtain ⟨hscopes, hcomponents, hcollections, -⟩ := h
    constructor
    case standing => exact hscopes ▸ htallied.standing
    case linked => exact hscopes ▸ htallied.linked
    case placed => rw [hcollections, hscopes]; exact htallied.placed
    case gathered => rw [hcollections, hcomponents]; exact htallied.gathered
    case known => rw [hcomponents]; exact htallied.known
    case booked => rw [hcomponents, hscopes]; exact htallied.booked
    case unborn => rw [hcomponents, hscopes]; exact htallied.unborn

/-- Scopes go on without components. -/
theorem tends_heeds {scopes : Scopes} (h : Scopes.Heeds page.scopes scopes) :
    Tends page { page with scopes } where
  lasts := ⟨Nat.le_refl _, fun id cell hcell => ⟨cell, hcell, .refl cell⟩,
    fun id cell hcell => ⟨cell, hcell, .refl cell⟩⟩
  tallied others hpage := by
    constructor
    case standing => exact h.standing hpage.standing
    case linked => exact h.linked hpage.standing.ordered hpage.linked
    case placed =>
      exact fun collection cell hcell => Nat.lt_of_lt_of_le (hpage.placed collection cell hcell) h.size
    case gathered => exact hpage.gathered
    case known => exact hpage.known
    case booked =>
      intro id cell hcell
      have hcellBooked := hpage.booked id cell hcell
      refine { hcellBooked with
        placed := Nat.lt_of_lt_of_le hcellBooked.placed h.size
        enrolled := fun halive hkept name => ?_ }
      rw [h.enrolled _ _ _ hkept]
      exact hcellBooked.enrolled (h.alive hpage.standing _ hcellBooked.placed halive)
        (Scopes.isDisposed_of_later (h.disposed _) hkept) name
    case unborn =>
      intro id hid scope name hkept
      rw [h.enrolled _ _ _ hkept]
      exact hpage.unborn id hid scope name (Scopes.isDisposed_of_later (h.disposed _) hkept)

theorem tends_holdScope {scope : ScopeId} (halive : page.scopes.isAlive scope = true) :
    Tends page (page.holdScope scope) := tends_heeds (Scopes.heeds_hold halive)

theorem tends_releaseScope (page : Page) (scope : ScopeId) : Tends page (page.releaseScope scope) :=
  tends_heeds (Scopes.heeds_release page.scopes scope)

theorem tends_enqueue (page : Page) (job : Job) : Tends page (page.enqueue job) := by
  cases job with
  | host steps => exact tends_aside ⟨rfl, rfl, rfl, Nat.le_refl _⟩
  | render component cause =>
      rw [enqueue]
      split
      · exact tends_aside ⟨rfl, rfl, rfl, Nat.le_refl _⟩
      · exact tends_aside ⟨rfl, rfl, rfl, Nat.le_refl _⟩

theorem tends_releaseComponent (page : Page) (component : ComponentId) :
    Tends page (page.releaseComponent component) := tends_aside ⟨rfl, rfl, rfl, Nat.le_refl _⟩

theorem tends_holdComponent (page : Page) (component : ComponentId) :
    Tends page (page.holdComponent component) := tends_aside ⟨rfl, rfl, rfl, Nat.le_refl _⟩

theorem tends_releaseJob (page : Page) (job : Job) : Tends page (page.releaseJob job) := by
  cases job with
  | host steps => exact .refl page
  | render component cause => exact tends_releaseComponent page component

theorem tends_closeQueue (page : Page) : Tends page page.closeQueue := by
  have hclosed : Tends page { page with queue := page.queue.close } :=
    tends_aside ⟨rfl, rfl, rfl, Nat.le_refl _⟩
  exact hclosed.trans (.foldl tends_releaseJob _ _)

theorem tends_attendTo (page : Page) (delivery : Delivery) : Tends page (page.attendTo delivery) := by
  cases delivery with
  | handled handler source => exact tends_aside ⟨rfl, rfl, rfl, Nat.le_refl _⟩
  | triggered component source =>
      rw [attendTo]
      split
      · exact tends_enqueue page _
      · exact .refl page

theorem tends_changeScopes {α : Type} {f : Scopes → Scopes × α}
    (h : Scopes.Minds page.scopes (f page.scopes).1) : Tends page (page.changeScopes f).1 := by
  have hchanged : Tends page { page with scopes := (f page.scopes).1 } := tends_heeds h.heeds
  have htaken : Scopes.Minds (f page.scopes).1 { (f page.scopes).1 with deliveries := [] } :=
    Scopes.minds_of_scopes rfl rfl
  have hquiet : Tends { page with scopes := (f page.scopes).1 }
      { page with scopes := { (f page.scopes).1 with deliveries := [] } } := tends_heeds htaken.heeds
  exact (hchanged.trans hquiet).trans (.foldl tends_attendTo _ _)

theorem tends_setSource (page : Page) (scope : ScopeId) (source : Source) :
    Tends page (page.setSource scope source).1 :=
  tends_changeScopes (Scopes.minds_set page.scopes scope source)

/-! ## Books that change -/

/-- A component and the handlers of its scope change together, and nothing else does. -/
theorem Tallied.update (h : page.Tallied busy) {scopes : Scopes} {f : Component → Component}
    (hcell : page.components.get? id = some cell) (htree : Scopes.SameTree page.scopes scopes)
    (hlinked : scopes.Linked)
    (hdisposed : ∀ scope, page.scopes.isDisposed scope = true → scopes.isDisposed scope = true)
    (henrolled : ∀ other ≠ id, ∀ scope name, scopes.isDisposed scope = false →
      scopes.enrolled scope name other = page.scopes.enrolled scope name other)
    (hcount : ∀ other ≠ id, more.count other = busy.count other)
    (hbooked : cell.Booked page.scopes (busy.count id) id →
      (f cell).Booked scopes (more.count id) id) :
    ({ page with scopes }.changeComponent id f).Tallied more := by
  have hlt : id < page.components.size := (Array.getElem?_eq_some_iff.mp hcell).1
  constructor
  case standing => exact htree.standing h.standing
  case linked => exact hlinked
  case placed =>
    intro collection cell hcollection
    exact htree.size ▸ h.placed collection cell hcollection
  case gathered =>
    intro collection cell hcollection
    rw [changeComponent, Arena.size_modify]
    exact h.gathered collection cell hcollection
  case known =>
    intro other hother
    rw [changeComponent, Arena.size_modify]
    by_cases hid : other = id
    · exact hid ▸ hlt
    · refine h.known other (List.count_pos_iff.mp ?_)
      rw [← hcount other hid]
      exact List.count_pos_iff.mpr hother
  case booked =>
    intro other changed hchanged
    rw [changeComponent, Arena.get?_modify] at hchanged
    split at hchanged
    · next hsame =>
        obtain rfl := hsame
        change (page.components.get? id).map f = some changed at hchanged
        rw [hcell] at hchanged
        obtain rfl := Option.some.inj hchanged
        exact hbooked (h.booked id cell hcell)
    · next hne =>
        have hold := h.booked other changed hchanged
        rw [hcount other (Ne.symm hne)]
        refine { hold with placed := htree.size ▸ hold.placed, enrolled := fun halive hkept name => ?_ }
        change scopes.isAlive changed.scope = true at halive
        rw [htree.isAlive] at halive
        change scopes.enrolled changed.scope name other = _
        rw [henrolled other (Ne.symm hne) _ _ hkept]
        exact hold.enrolled halive (Scopes.isDisposed_of_later (hdisposed _) hkept) name
  case unborn =>
    intro other hother scope name hkept
    rw [changeComponent, Arena.size_modify] at hother
    change scopes.enrolled scope name other = 0
    have hne : other ≠ id := by
      rintro rfl
      exact absurd hlt (Nat.not_lt.mpr hother)
    rw [henrolled other hne _ _ hkept]
    exact h.unborn other hother scope name (Scopes.isDisposed_of_later (hdisposed _) hkept)

theorem lasts_changeComponent {f : Component → Component} {scopes : Scopes}
    (hbecomes : ∀ cell, page.components.get? id = some cell → cell.Becomes (f cell)) :
    Lasts page ({ page with scopes }.changeComponent id f) where
  flights := Nat.le_refl _
  cells other cell hcell := by
    rw [changeComponent, Arena.get?_modify]
    split
    · next hsame =>
        obtain rfl := hsame
        exact ⟨f cell, congrArg (Option.map f) hcell, hbecomes cell hcell⟩
    · exact ⟨cell, hcell, .refl cell⟩
  collections other cell hcell := ⟨cell, hcell, .refl cell⟩

/-- A component changes alone. -/
theorem accounts_changeComponent {f : Component → Component}
    (hcell : page.components.get? id = some cell) (hbecomes : cell.Becomes (f cell))
    (hcount : ∀ other ≠ id, left.count other = gone.count other)
    (hbooked : ∀ flying, cell.Booked page.scopes (gone.count id + flying) id →
      (f cell).Booked page.scopes (left.count id + flying) id) :
    Accounts page gone (page.changeComponent id f) left where
  lasts := @lasts_changeComponent page id f page.scopes fun other hother =>
    Option.some.inj (hcell.symm.trans hother) ▸ hbecomes
  tallied others h := by
    refine h.update hcell (Scopes.Leaves.refl page.scopes).toSameTree h.linked (fun _ h => h)
      (fun _ _ _ _ _ => rfl) (fun other hother => ?_) fun hcellBooked => ?_
    · rw [List.count_append, List.count_append, hcount other hother]
    · rw [List.count_append] at hcellBooked ⊢
      exact hbooked _ hcellBooked

/-- A render starts. -/
theorem accounts_enter (hcell : page.components.get? id = some cell) (hadmits : cell.admits = true) :
    Accounts page [] (page.changeComponent id fun cell =>
      { cell with inFlight := cell.inFlight + 1 }) [id] := by
  have hfree := (Bool.and_eq_true_iff.mp hadmits).2
  have hnot : cell.disposed ≠ true := by
    rw [Component.kept_of_admits hadmits]
    exact Bool.false_ne_true
  refine accounts_changeComponent hcell
    ⟨rfl, rfl, rfl, fun hdisposed => absurd hdisposed hnot, fun _ _ hname => hname⟩
    (fun other hne => ?_)
      fun flying hbooked => { hbooked with flying := ?_, single := fun hsingle => ?_ }
  · rw [List.count_singleton, if_neg (by simpa using Ne.symm hne), List.count_nil]
  · rw [List.count_singleton_self]
    change cell.inFlight + 1 = 1 + flying
    have hflying := hbooked.flying
    rw [List.count_nil] at hflying
    omega
  · -- A component that allows one render only is let in while it has none.
    have hidle : ¬0 < cell.inFlight := by
      change cell.behaviour.allowsMany = false at hsingle
      rw [Component.isBusy, hsingle] at hfree
      simpa using hfree
    change cell.inFlight + 1 ≤ 1
    omega

/-- A render ends. -/
theorem accounts_leave (page : Page) (id : ComponentId) :
    Accounts page [id] (page.changeComponent id fun cell =>
      { cell with inFlight := cell.inFlight - 1 }) [] := by
  cases hcell : page.components.get? id with
  | some cell =>
      refine accounts_changeComponent hcell
        ⟨rfl, rfl, rfl, fun hdisposed => ⟨hdisposed, Nat.sub_le _ _⟩, fun _ _ hname => hname⟩
        (fun other hne => ?_)
          fun flying hbooked => { hbooked with flying := ?_, single := fun hsingle => ?_ }
      · rw [List.count_singleton, if_neg (by simpa using Ne.symm hne), List.count_nil]
      · have hflying := hbooked.flying
        rw [List.count_singleton_self] at hflying
        change cell.inFlight - 1 = List.count id [] + flying
        rw [List.count_nil]
        omega
      · exact Nat.le_trans (Nat.sub_le _ _) (hbooked.single hsingle)
  | none =>
      refine ⟨@lasts_changeComponent page id _ page.scopes fun cell hthere => ?_, fun others h => ?_⟩
      · rw [hcell] at hthere
        cases hthere
      · have hlt := h.known id (List.mem_append_left _ List.mem_cons_self)
        rw [Arena.get?, Array.getElem?_eq_none_iff] at hcell
        exact absurd hlt (Nat.not_lt.mpr hcell)

/-! ## Registering -/

/-- How far a component has come with registering in its scope, and the ids it is registered for. -/
structure Registers (before : Scopes) (place : ScopeId) (id : ComponentId)
    (state : Scopes × List String) : Prop where
  leaves : Scopes.Leaves before state.1
  linked : before.Ordered → before.Linked → state.1.Linked
  others : ∀ other ≠ id, ∀ scope name,
    state.1.enrolled scope name other = before.enrolled scope name other
  small : ∀ name ∈ state.2, Unicode.lower name = name
  enrolled : before.isDisposed place = false →
    ∀ name, state.1.enrolled place name id = if name ∈ state.2 then 1 else 0

theorem Registers.add {before : Scopes} {place : ScopeId} {state : Scopes × List String}
    (h : Registers before place id state) (hlt : place < before.scopes.size) {name : String}
    (hsmall : Unicode.lower name = name) (hnew : name ∉ state.2) :
    Registers before place id
      ((state.1.addHandler place name (.trigger id)).1, state.2 ++ [name]) where
  leaves := h.leaves.trans (Scopes.leaves_addHandler state.1 place name _)
  linked hordered hlinked := (h.linked hordered hlinked).addHandler
    (h.leaves.toSameTree.ordered hordered) place name fun _ hsame => by cases hsame
  others other hne scope id' := by
    rw [Scopes.enrolled_addTrigger state.1 (h.leaves.size ▸ hlt), if_neg fun hsame => hne hsame.2.2]
    exact h.others other hne scope id'
  small other hother := by
    rcases List.mem_append.mp hother with hold | hadded
    · exact h.small other hold
    · rwa [List.mem_singleton.mp hadded]
  enrolled hkept other := by
    rw [Scopes.enrolled_addTrigger state.1 (h.leaves.size ▸ hlt), h.enrolled hkept, hsmall]
    by_cases hother : other = name
    · simp [hother, hnew]
    · simp [hother]

/-- A component registers for some ids. -/
theorem tends_subscribe (page : Page) (id : ComponentId) (ids : List String) :
    Tends page (page.subscribe id ids).1 := by
  cases hcell : page.components.get? id with
  | none =>
      rw [subscribe, hcell]
      exact .refl page
  | some cell =>
      rw [subscribe, hcell]
      dsimp only
      split
      · exact .refl page
      · next hlives =>
          have halive : page.scopes.isAlive cell.scope = true := by
            simpa using (not_or.mp (Bool.or_eq_true_iff.not.mp hlives)).2
          generalize hlast : List.foldl _ _ ids = last
          refine ⟨lasts_changeComponent fun other hother => ?_, fun others h => ?_⟩
          · obtain rfl := Option.some.inj (hcell.symm.trans hother)
            refine ⟨rfl, rfl, rfl, fun hdisposed => ⟨hdisposed, Nat.le_refl _⟩, fun _ => ?_⟩
            change cell.triggers ⊆ last.2
            rw [← hlast]
            refine List.foldlRecOn (motive := fun state : Scopes × List String =>
              cell.triggers ⊆ state.2) ids _ (List.Subset.refl _) fun state hstate name _ => ?_
            split
            · exact hstate
            · exact List.Subset.trans hstate (List.subset_append_left _ _)
          · have hbooked := h.booked id cell hcell
            have hregisters : Registers page.scopes cell.scope id last := by
              rw [← hlast]
              refine List.foldlRecOn ids _ ⟨.refl page.scopes, fun _ h => h, fun _ _ _ _ => rfl,
                hbooked.small, hbooked.enrolled halive⟩ fun state hstate name _ => ?_
              split
              · exact hstate
              · next hnew =>
                  exact hstate.add hbooked.placed (Unicode.lower_lower name) fun hmem =>
                    hnew (List.contains_iff_mem.mpr hmem)
            refine h.update hcell hregisters.leaves.toSameTree
              (hregisters.linked h.standing.ordered h.linked)
              (fun scope hdisposed => (hregisters.leaves.disposed scope).trans hdisposed)
              (fun other hne scope name _ => hregisters.others other hne scope name)
              (fun _ _ => rfl) fun _ => { hbooked with
                placed := hregisters.leaves.size ▸ hbooked.placed
                gone := fun hdisposed => ?_
                small := hregisters.small
                enrolled := fun _ hkept => hregisters.enrolled ?_ }
            · exact absurd (Bool.or_eq_true_iff.mpr (.inl hdisposed)) hlives
            · rwa [hregisters.leaves.disposed] at hkept

/-- A component that strikes itself off is registered for nothing. -/
theorem Tallied.strike (h : page.Tallied busy) (hcell : page.components.get? id = some cell)
    {scopes : Scopes}
    (hscopes : scopes =
      if cell.disposed || !page.scopes.isAlive cell.scope then page.scopes
      else cell.triggers.foldl
        (fun scopes name => (scopes.removeHandler cell.scope name (.trigger id)).1) page.scopes) :
    Scopes.Leaves page.scopes scopes ∧ scopes.Linked ∧
      (∀ other ≠ id, ∀ scope name,
        scopes.enrolled scope name other = page.scopes.enrolled scope name other) ∧
      (scopes.isAlive cell.scope = true → scopes.isDisposed cell.scope = false →
        ∀ name, scopes.enrolled cell.scope name id = 0) := by
  have hbooked := h.booked id cell hcell
  split at hscopes
  · next hidle =>
      rw [hscopes]
      refine ⟨.refl _, h.linked, fun _ _ _ _ => rfl, fun halive hkept name => ?_⟩
      rw [halive, Bool.not_true, Bool.or_false] at hidle
      rw [hbooked.enrolled halive hkept, (hbooked.gone hidle).1, if_neg List.not_mem_nil]
  · obtain ⟨hleaves, hstruck⟩ := Scopes.enrolled_removeTriggers cell.triggers cell.scope id
      hbooked.small page.scopes
    have hlinked : scopes.Linked := by
      rw [hscopes]
      exact List.foldlRecOn cell.triggers _ h.linked fun state hstate name _ =>
        hstate.removeHandler cell.scope name fun _ hsame => by cases hsame
    rw [← hscopes] at hleaves hstruck
    refine ⟨hleaves, hlinked, fun other hne scope name => ?_, fun halive hkept name => ?_⟩
    · rw [hstruck, if_neg fun hsame => hne hsame.2]
    · rw [hleaves.isAlive] at halive
      rw [hleaves.disposed] at hkept
      rw [hstruck, if_pos ⟨rfl, rfl⟩, hbooked.enrolled halive hkept]
      split
      · next hmem => exact Nat.sub_eq_zero_of_le (List.count_pos_iff.mpr hmem)
      · exact Nat.zero_sub _

theorem allowsMany_forget (behaviour : Behaviour) :
    behaviour.forget.allowsMany = behaviour.allowsMany := by cases behaviour <;> rfl

theorem steady_forget (behaviour : Behaviour) : behaviour.forget.steady = behaviour.steady := by
  cases behaviour <;> rfl

theorem forget_forget (behaviour : Behaviour) : behaviour.forget.forget = behaviour.forget := by
  cases behaviour <;> rfl

/-- A component is disposed. -/
theorem tends_disposeComponent (page : Page) (id : ComponentId) :
    Tends page (page.disposeComponent id) := by
  cases hcell : page.components.get? id with
  | none =>
      rw [disposeComponent, hcell]
      exact .refl page
  | some cell =>
      rw [disposeComponent, hcell]
      dsimp only
      generalize hscopes : (if cell.disposed || !page.scopes.isAlive cell.scope then page.scopes
        else cell.triggers.foldl
          (fun scopes name => (scopes.removeHandler cell.scope name (.trigger id)).1) page.scopes) =
            scopes
      refine ⟨lasts_changeComponent fun other hother => ?_, fun others h => ?_⟩
      · exact ⟨rfl, rfl, steady_forget _, fun _ => ⟨rfl, Nat.le_refl _⟩, nofun⟩
      · obtain ⟨hleaves, hlinked, hothers, hstruck⟩ := h.strike hcell hscopes.symm
        refine h.update hcell hleaves.toSameTree hlinked
          (fun scope hdisposed => (hleaves.disposed scope).trans hdisposed)
          (fun other hne scope name _ => hothers other hne scope name) (fun _ _ => rfl)
          fun hbooked => { hbooked with
            placed := hleaves.size ▸ hbooked.placed
            single := fun hsingle => hbooked.single (allowsMany_forget cell.behaviour ▸ hsingle)
            gone := fun _ => ⟨rfl, forget_forget _⟩
            small := fun _ hname => absurd hname List.not_mem_nil
            enrolled := fun halive hkept name =>
              (hstruck halive hkept name).trans (if_neg List.not_mem_nil).symm }

end Page

end ReactiveMarkup
