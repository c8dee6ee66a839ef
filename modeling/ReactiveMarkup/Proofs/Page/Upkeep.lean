import ReactiveMarkup.Proofs.Binding.Reads
import ReactiveMarkup.Proofs.Page.Places
import ReactiveMarkup.Proofs.Scope.Root

/-!
# Pages that are kept up to date

At any moment a binding shows the text its token has, or a render of it is still to come: its job is in
the queue, or it was sent out and has not begun. Nothing gets lost on the way because components that
belong to a collection are held, so their triggers are not ignored; because they are registered for
everything they read; and because a binding is never busy.

What work under way holds is no part of a page. A ledger says it: the holds that are still to be given
back, the renders that were sent out, and the components that have not registered yet. `Sound` says
what is true of a page with a ledger at all times.
-/

namespace ReactiveMarkup

/-- The component a job renders. -/
def Job.component? : Job → Option ComponentId
  | .render component _ => some component
  | .host _ => none

/-- What work under way owes. -/
structure Ledger where
  /-- The components that are held besides what collections and the queue hold. -/
  owed : List ComponentId := []
  /-- How often the root scope is held besides what pages hold. -/
  loads : Nat := 0
  /-- The components that are going to be rendered anyway. -/
  due : List ComponentId := []
  /-- Those among them that have not registered for what they read. -/
  fresh : List ComponentId := []

/-- Whether a ledger asks for no more than another one. -/
structure Ledger.Within (less more : Ledger) : Prop where
  owed : ∀ component, less.owed.count component ≤ more.owed.count component
  loads : less.loads ≤ more.loads
  due : ∀ component ∈ more.due, component ∈ less.due
  fresh : ∀ component ∈ more.fresh, component ∈ less.fresh
  pending : ∀ component ∈ less.fresh, component ∈ less.due

namespace Page

/-- The components of the jobs in the queue. -/
def queued (page : Page) : List ComponentId := page.queue.jobs.filterMap Job.component?

/-- Whether a component belongs to a collection. -/
def Collected (page : Page) (component : ComponentId) : Prop :=
  ∃ collection cell, page.collections.get? collection = some cell ∧ component ∈ cell.components

/-- Where a component writes. -/
def spot? (page : Page) (component : ComponentId) : Option Spot :=
  (page.components.get? component).bind Component.spot?

/-- Whether the text of a token stands where it belongs. -/
def Shows (page : Page) (spot : Spot) : Prop :=
  spot.place.read? (page.markup.kind spot.node) =
    some (spot.token.text (page.scopes.find? rootScope))

/-- A component as collections of a page have them: a binding is never busy between two steps, and
what a component is registered for it is registered for in the root scope. -/
structure Working (scopes : Scopes) (component : ComponentId) (cell : Component) : Prop where
  scope : cell.scope = rootScope
  kept : cell.disposed = false
  own : ∀ host, cell.behaviour ≠ .host host
  free : cell.spot?.isSome → cell.inFlight = 0
  listens : ∀ name ∈ cell.triggers, .trigger component ∈ scopes.handlers rootScope name

/-- What is true of a page while work with a ledger is under way. -/
structure Sound (page : Page) (ledger : Ledger) : Prop where
  running : page.queue.closed = false
  /-- No host has components of its own. -/
  plain : ∀ entry ∈ page.registries.commands rootRegistry, ∀ make, entry.2 ≠ .host make
  named : page.markup.Wellnamed
  rooted : page.scopes.Rooted
  quiet : page.scopes.deliveries = []
  held : 1 + ledger.loads ≤ page.scopes.held.count rootScope
  cells : ∀ component, page.Collected component →
    ∃ cell, page.components.get? component = some cell ∧ Working page.scopes component cell
  alive : ∀ component, page.Collected component →
    1 + page.queued.count component + ledger.owed.count component ≤
      page.heldComponents.count component
  told : ∀ id component, .trigger component ∈ page.scopes.handlers rootScope id →
    page.Collected component
  jobs : ∀ job ∈ page.queue.jobs, ∃ component cause, job = .render component cause ∧
    page.Collected component
  spots : ∀ component spot, page.Collected component → page.spot? component = some spot →
    spot.node < page.markup.size ∧ (spot.place.read? (page.markup.kind spot.node)).isSome
  /-- Who writes to the same place writes the same. -/
  agree : ∀ component other spot more, page.Collected component → page.Collected other →
    page.spot? component = some spot → page.spot? other = some more →
    spot.node = more.node → spot.place.same more.place → spot.token = more.token
  pending : ∀ component ∈ ledger.fresh, component ∈ ledger.due
  registered : ∀ component spot, page.Collected component → page.spot? component = some spot →
    component ∉ ledger.fresh → ∀ id ∈ spot.token.dependencies,
      .trigger component ∈ page.scopes.handlers rootScope (Unicode.lower id)
  shown : ∀ component spot, page.Collected component → page.spot? component = some spot →
    component ∉ ledger.due → page.Shows spot ∨ component ∈ page.queued

/-- What work of components leaves as it was. -/
structure Stays (before after : Page) : Prop where
  collections : after.collections = before.collections
  heldCollections : after.heldCollections = before.heldCollections
  flights : before.flights ≤ after.flights
  spots : ∀ component, after.spot? component = before.spot? component

variable {page before middle after : Page} {ledger less more : Ledger} {component : ComponentId}

theorem Stays.refl (page : Page) : Stays page page := ⟨rfl, rfl, Nat.le_refl _, fun _ => rfl⟩

theorem Stays.trans (h : Stays before middle) (h' : Stays middle after) : Stays before after :=
  ⟨h'.collections.trans h.collections, h'.heldCollections.trans h.heldCollections,
    Nat.le_trans h.flights h'.flights, fun component => (h'.spots component).trans (h.spots component)⟩

theorem Stays.collected_iff (h : Stays before after) :
    after.Collected component ↔ before.Collected component := by
  rw [Collected, Collected, h.collections]

theorem Sound.within (h : page.Sound more) (hwithin : Ledger.Within less more) : page.Sound less :=
  { h with
    held := Nat.le_trans (Nat.add_le_add_left hwithin.loads 1) h.held
    alive := fun component hin =>
      Nat.le_trans (Nat.add_le_add_left (hwithin.owed component) _) (h.alive component hin)
    pending := hwithin.pending
    registered := fun component spot hin hspot hfresh =>
      h.registered component spot hin hspot fun hc => hfresh (hwithin.fresh component hc)
    shown := fun component spot hin hspot hdue =>
      h.shown component spot hin hspot fun hc => hdue (hwithin.due component hc) }

/-- Two pages that differ in nothing a binding depends on. -/
structure Beside (before after : Page) : Prop where
  markup : after.markup = before.markup
  scopes : after.scopes = before.scopes
  components : after.components = before.components
  collections : after.collections = before.collections
  registries : after.registries = before.registries
  queue : after.queue.jobs = before.queue.jobs ∧ after.queue.closed = before.queue.closed
  heldComponents : after.heldComponents = before.heldComponents
  heldCollections : after.heldCollections = before.heldCollections
  flights : before.flights ≤ after.flights

theorem Beside.refl (page : Page) : Beside page page :=
  ⟨rfl, rfl, rfl, rfl, rfl, ⟨rfl, rfl⟩, rfl, rfl, Nat.le_refl _⟩

theorem Beside.trans (h : Beside before middle) (h' : Beside middle after) : Beside before after where
  markup := h'.markup.trans h.markup
  scopes := h'.scopes.trans h.scopes
  components := h'.components.trans h.components
  collections := h'.collections.trans h.collections
  registries := h'.registries.trans h.registries
  queue := ⟨h'.queue.1.trans h.queue.1, h'.queue.2.trans h.queue.2⟩
  heldComponents := h'.heldComponents.trans h.heldComponents
  heldCollections := h'.heldCollections.trans h.heldCollections
  flights := Nat.le_trans h.flights h'.flights

theorem Beside.stays (h : Beside before after) : Stays before after :=
  ⟨h.collections, h.heldCollections, h.flights, fun component => by rw [spot?, spot?, h.components]⟩

theorem Beside.sound (h : Beside before after) (hsound : before.Sound ledger) :
    after.Sound ledger := by
  obtain ⟨hmarkup, hscopes, hcomponents, hcollections, hregistries, ⟨hjobs, hclosed⟩, hheld, -, -⟩ := h
  have hqueued : after.queued = before.queued := by rw [queued, queued, hjobs]
  cases before
  cases after
  dsimp only at hmarkup hscopes hcomponents hcollections hregistries hjobs hclosed hheld
  subst hmarkup hscopes hcomponents hcollections hregistries hheld
  exact { hsound with
    running := hclosed.trans hsound.running
    alive := fun component hin => hqueued ▸ hsound.alive component hin
    jobs := fun job hjob => hsound.jobs job (hjobs ▸ hjob)
    shown := fun component spot hin hspot hdue => hqueued ▸ hsound.shown component spot hin hspot hdue }

end Page

end ReactiveMarkup
