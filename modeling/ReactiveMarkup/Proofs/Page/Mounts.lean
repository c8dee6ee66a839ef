import ReactiveMarkup.Proofs.Page.Gathering
import ReactiveMarkup.Proofs.Page.Runs

/-!
# What a mount leaves

A mount extracts a fragment into a collection of its own and runs that. What was extracted joins the
components that are kept up to date: nobody else writes to the nodes of the fragment, two bindings at
one place of it were made from one text, and until the run has prepared and rendered them all of them
are fresh and due.
-/

namespace ReactiveMarkup

open Relation

/-- Whether a node is one of some nodes or below one. -/
def Markup.Below (markup : Markup) (roots : List NodeId) (node : NodeId) : Prop :=
  ∃ root ∈ roots, ReflTransGen (fun id child => child ∈ markup.children id) root node

namespace Page

variable {page before after origin : Page} {ledger : Ledger} {reached : NodeId → Prop}
  {roots : List NodeId} {found : List ComponentId}

/-- A fragment that was not mounted: all its nodes are there, and no binding writes to one of them. -/
structure Mountable (page : Page) (roots : List NodeId) : Prop where
  there : ∀ node, page.markup.Below roots node → node < page.markup.size
  unbound : ∀ component spot, page.Collected component → page.spot? component = some spot →
    ¬page.markup.Below roots spot.node

theorem Mountable.wellmade (h : page.Mountable roots) (hsound : page.Sound ledger) :
    Extraction.Wellmade page rootRegistry (page.markup.Below roots) where
  there := h.there
  named := hsound.named
  closed := by
    rintro node ⟨root, hroot, hbelow⟩ child hchild
    exact ⟨root, hroot, hbelow.tail hchild⟩
  plain := by
    intro keyword make hmake
    obtain ⟨_, _, hentries, -⟩ := List.lookup_eq_some_iff.mp hmake
    refine hsound.plain (Unicode.lower keyword, .host make) ?_ make rfl
    rw [hentries]
    exact List.mem_append_right _ List.mem_cons_self

theorem Sound.lt_of_collected (h : page.Sound ledger) {component : ComponentId}
    (hin : page.Collected component) : component < page.components.size := by
  obtain ⟨cell, hcell, -⟩ := h.cells component hin
  exact Array.getElem?_eq_some_iff.mp hcell |>.1

/-! ## Joining -/

/-- An extraction leaves alone what belongs to collections. -/
theorem Sound.gathered (h : origin.Sound ledger)
    (hgathered : Extraction.Gathered origin reached rootScope page) : page.Sound ledger := by
  obtain ⟨hthins, hsame, -, hold, -⟩ := hgathered
  generalize page.markup = markup at hthins hsame
  generalize page.components = components at hold hsame
  generalize page.log = log at hsame
  subst hsame
  have hspot : ∀ component, origin.Collected component →
      spot? { origin with markup, components, log } component = origin.spot? component :=
    fun component hin => congrArg (Option.bind · Component.spot?)
      (hold component (h.lt_of_collected hin))
  exact { h with
    named := hthins.named h.named
    cells := fun component hin => by
      obtain ⟨cell, hcell, hworking⟩ := h.cells component hin
      exact ⟨cell, (hold component (h.lt_of_collected hin)).trans hcell, hworking⟩
    spots := fun component spot hin hmore => by
      obtain ⟨hlt, hread⟩ := h.spots component spot hin (hspot component hin ▸ hmore)
      exact ⟨Nat.lt_of_lt_of_le hlt hthins.size, (hthins.kind _ hlt).symm ▸ hread⟩
    agree := fun component other spot more hin hother hs hm =>
      h.agree component other spot more hin hother (hspot component hin ▸ hs) (hspot other hother ▸ hm)
    registered := fun component spot hin hmore =>
      h.registered component spot hin (hspot component hin ▸ hmore)
    shown := fun component spot hin hmore hdue => by
      rw [hspot component hin] at hmore
      obtain ⟨hlt, -⟩ := h.spots component spot hin hmore
      refine (h.shown component spot hin hmore hdue).imp (fun hshows => ?_) fun hqueued => hqueued
      rw [Shows, hthins.kind _ hlt]
      exact hshows }

/-- What is known of a binding that was extracted. -/
theorem Gathered.spot (h : Extraction.Gathered origin reached rootScope page)
    (hmade : Extraction.Made origin found page) {component : ComponentId} (hin : component ∈ found)
    {spot : Spot} (hspot : page.spot? component = some spot) :
    spot.priority = .normal ∧ reached spot.node ∧
      ∃ text, spot.place.read? (origin.markup.kind spot.node) = some text ∧
        Binding.compile origin.patterns text = .ok spot.token := by
  obtain ⟨cell, hcell, hcellSpot⟩ := Option.bind_eq_some_iff.mp hspot
  exact (h.new component cell (hmade component hin).1 hcell).bound spot hcellSpot

/-- What was extracted joins the components of a collection. Until it was prepared and rendered it is
fresh and due. -/
theorem Sound.join (h : origin.Sound {})
    (hgathered : Extraction.Gathered origin reached rootScope page)
    (hmade : Extraction.Made origin found page)
    (hthere : ∀ node, reached node → node < origin.markup.size)
    (hunbound : ∀ component spot, origin.Collected component → origin.spot? component = some spot →
      ¬reached spot.node) {collections : Arena Collection}
    (hcollected : ∀ component, Collected { page with collections } component ↔
      origin.Collected component ∨ component ∈ found) :
    Sound { page with collections, heldComponents := found.reverse ++ page.heldComponents }
      { due := found, fresh := found } := by
  have hpage := h.gathered hgathered
  have hsame : ∀ component, page.Collected component ↔ origin.Collected component := by
    intro component
    rw [Collected, Collected, hgathered.same]
  have hspotOld : ∀ component, origin.Collected component →
      origin.spot? component = page.spot? component := fun component hin =>
    congrArg (Option.bind · Component.spot?) (hgathered.old component (h.lt_of_collected hin)).symm
  have hspot : ∀ {component}, component ∈ found → ∀ {spot}, page.spot? component = some spot → _ :=
    fun hin _ hspot => Gathered.spot hgathered hmade hin hspot
  have hkind : ∀ node, reached node → page.markup.kind node = origin.markup.kind node :=
    fun node hreached => hgathered.thins.kind node (hthere node hreached)
  have hplace : ∀ component other spot more, origin.Collected component → other ∈ found →
      page.spot? component = some spot → page.spot? other = some more → spot.node ≠ more.node := by
    intro component other spot more hin hother hs hm heq
    exact hunbound component spot hin ((hspotOld component hin).trans hs)
      (heq ▸ (hspot hother hm).2.1)
  exact { hpage with
    cells := fun component hin => by
      rcases (hcollected component).mp hin with hold | hnew
      · exact hpage.cells component ((hsame component).mpr hold)
      · obtain ⟨hle, hlt⟩ := hmade component hnew
        have hcell : page.components.get? component = some (page.components.cells[component]) :=
          Array.getElem?_eq_getElem hlt
        have hfound := hgathered.new component _ hle hcell
        refine ⟨_, hcell, hfound.scope, hfound.kept, hfound.own, fun _ => hfound.free, ?_⟩
        rw [hfound.listens]
        exact fun _ habsurd => absurd habsurd List.not_mem_nil
    alive := fun component hin => by
      change 1 + page.queued.count component + 0 ≤
        (found.reverse ++ page.heldComponents).count component
      rw [List.count_append, List.count_reverse]
      rcases (hcollected component).mp hin with hold | hnew
      · have halive : 1 + page.queued.count component + 0 ≤ page.heldComponents.count component :=
          hpage.alive component ((hsame component).mpr hold)
        omega
      · have hthis := List.count_pos_iff.mpr hnew
        have hnone : page.queued.count component = 0 := by
          refine List.count_eq_zero.mpr fun hqueued => ?_
          obtain ⟨job, hjob, hcomponent⟩ := List.mem_filterMap.mp hqueued
          obtain ⟨other, cause, rfl, hother⟩ := hpage.jobs job hjob
          obtain rfl := Option.some.inj hcomponent
          exact absurd (h.lt_of_collected ((hsame other).mp hother))
            (Nat.not_lt.mpr (hmade other hnew).1)
        omega
    told := fun id component hin => (hcollected component).mpr
      (.inl ((hsame component).mp (hpage.told id component hin)))
    jobs := fun job hjob => by
      obtain ⟨component, cause, hjob, hin⟩ := hpage.jobs job hjob
      exact ⟨component, cause, hjob, (hcollected component).mpr (.inl ((hsame component).mp hin))⟩
    spots := fun component spot hin hs => by
      rcases (hcollected component).mp hin with hold | hnew
      · exact hpage.spots component spot ((hsame component).mpr hold) hs
      · obtain ⟨-, hreached, text, htext, -⟩ := hspot hnew hs
        refine ⟨Nat.lt_of_lt_of_le (hthere _ hreached) hgathered.thins.size, ?_⟩
        rw [hkind _ hreached, htext]
        rfl
    agree := fun component other spot more hin hother hs hm hnode hthis => by
      rcases (hcollected component).mp hin with hold | hnew
      · rcases (hcollected other).mp hother with holdOther | hnewOther
        · exact hpage.agree component other spot more ((hsame component).mpr hold)
            ((hsame other).mpr holdOther) hs hm hnode hthis
        · exact absurd hnode (hplace component other spot more hold hnewOther hs hm)
      · rcases (hcollected other).mp hother with holdOther | hnewOther
        · exact absurd hnode.symm (hplace other component more spot holdOther hnew hm hs)
        -- Both were made from the text at one place.
        · obtain ⟨-, -, text, htext, htoken⟩ := hspot hnew hs
          obtain ⟨-, -, text', htext', htoken'⟩ := hspot hnewOther hm
          rw [Place.read?_of_same hthis, hnode, htext'] at htext
          rw [← Option.some.inj htext, htoken'] at htoken
          exact (Except.ok.inj htoken).symm
    pending := fun _ hin => hin
    registered := fun component spot hin hs hfresh =>
      hpage.registered component spot
        ((hsame component).mpr (((hcollected component).mp hin).resolve_right hfresh)) hs
        List.not_mem_nil
    shown := fun component spot hin hs hdue =>
      hpage.shown component spot
        ((hsame component).mpr (((hcollected component).mp hin).resolve_right hdue)) hs
        List.not_mem_nil }

/-! ## Mounts -/

theorem foldl_holdComponent (page : Page) (components : List ComponentId) :
    components.foldl Page.holdComponent page =
      { page with heldComponents := components.reverse ++ page.heldComponents } := by
  induction components generalizing page with
  | nil => rfl
  | cons component rest ih =>
      rw [List.foldl_cons, ih, List.reverse_cons, List.append_assoc]
      rfl

theorem foldl_holdNode (page : Page) (nodes : List NodeId) :
    Beside page (nodes.foldl Page.holdNode page) := by
  induction nodes generalizing page with
  | nil => exact .refl page
  | cons node rest ih =>
      have hfirst : Beside page (page.holdNode node) :=
        ⟨rfl, rfl, rfl, rfl, rfl, ⟨rfl, rfl⟩, rfl, rfl, Nat.le_refl _⟩
      exact hfirst.trans (ih (page.holdNode node))

theorem foldl_releaseNode (page : Page) (nodes : List NodeId) :
    Beside page (nodes.foldl Page.releaseNode page) := by
  induction nodes generalizing page with
  | nil => exact .refl page
  | cons node rest ih =>
      have hfirst : Beside page (page.releaseNode node) :=
        ⟨rfl, rfl, rfl, rfl, rfl, ⟨rfl, rfl⟩, rfl, rfl, Nat.le_refl _⟩
      exact hfirst.trans (ih (page.releaseNode node))

def Mounts : Page × Progress Mount → Prop
  | (after, .finished _) => after.Sound {}
  | (after, .suspended _ mount) => Runs (after, .suspended .turn mount.run)

theorem Runs.closeMount {progress : Progress Run} (h : Runs (page, progress))
    (collection : CollectionId) (roots : List NodeId) (size : Nat) :
    Mounts (page.closeMount collection roots size progress) := by
  cases progress with
  | suspended on run => exact h
  | finished result =>
      have hmounted : Beside page { page with mounts := page.mounts ++ [collection] } :=
        ⟨rfl, rfl, rfl, rfl, rfl, ⟨rfl, rfl⟩, rfl, rfl, Nat.le_refl _⟩
      exact (hmounted.trans (foldl_releaseNode _ roots)).sound h

/-- A new collection, which is held and has no components. -/
structure Opened (before after : Page) (collection : CollectionId) : Prop where
  sound : after.Sound { loads := 1 }
  markup : after.markup = before.markup
  collected : ∀ component, after.Collected component ↔ before.Collected component
  spots : ∀ component, after.spot? component = before.spot? component
  cell : after.collections.get? collection =
    some { scope := rootScope, registry := rootRegistry }
  held : 1 ≤ after.heldCollections.count collection

/-- A collection without components changes nothing. -/
theorem Sound.createCollection (h : page.Sound {}) :
    Opened page (page.createCollection rootScope rootRegistry).1
      (page.createCollection rootScope rootRegistry).2 := by
  have hcollected : ∀ component, Collected
      { page with collections := page.collections.push { scope := rootScope, registry := rootRegistry } }
        component ↔ page.Collected component := by
    intro component
    constructor
    · rintro ⟨collection, cell, hcell, hin⟩
      rw [Arena.get?_push] at hcell
      split at hcell
      · rw [← Option.some.inj hcell] at hin
        exact absurd hin List.not_mem_nil
      · exact ⟨collection, cell, hcell, hin⟩
    · rintro ⟨collection, cell, hcell, hin⟩
      have hlt : collection < page.collections.size := (Array.getElem?_eq_some_iff.mp hcell).1
      refine ⟨collection, cell, ?_, hin⟩
      rw [Arena.get?_push, if_neg (Nat.ne_of_lt hlt)]
      exact hcell
  have hheld := (h.regroup hcollected).holdScope
  refine ⟨{ hheld.sound with }, rfl, hcollected, fun _ => rfl,
    (Arena.get?_push page.collections _ _).trans (if_pos rfl), ?_⟩
  change 1 ≤ (page.collections.size :: page.heldCollections).count page.collections.size
  rw [List.count_cons_self]
  exact Nat.le_add_left 1 _

/-- A collection without components is given back. -/
theorem Sound.releaseCollection (h : page.Sound { loads := 1 }) {collection : CollectionId}
    {cell : Collection} (hcell : page.collections.get? collection = some cell)
    (hscope : cell.scope = rootScope) (hnone : cell.components = []) :
    (page.releaseCollection collection).Sound {} := by
  have hreleased : Sound { page with heldCollections := page.heldCollections.erase collection }
      { loads := 1 } := { h with }
  rw [Page.releaseCollection]
  dsimp only
  split
  · exact hreleased.within ⟨fun _ => Nat.le_refl _, Nat.zero_le _, fun _ hin => hin,
      fun _ hin => hin, fun _ hin => absurd hin List.not_mem_nil⟩
  · rw [hcell]
    dsimp only
    rw [hnone, hscope]
    exact (@Sound.releaseScope _ {} hreleased).sound

theorem Mountable.congr (h : before.Mountable roots) (hmarkup : after.markup = before.markup)
    (hcollected : ∀ component, after.Collected component ↔ before.Collected component)
    (hspots : ∀ component, after.spot? component = before.spot? component) :
    after.Mountable roots := by
  refine ⟨fun node hbelow => ?_, fun component spot hin hspot => ?_⟩
  · rw [hmarkup] at hbelow ⊢
    exact h.there node hbelow
  · rw [hmarkup]
    exact h.unbound component spot ((hcollected component).mp hin) (hspots component ▸ hspot)

/-- What extracting a fragment into a new collection leads to. -/
def Extracts (collection : CollectionId) : Page × Except Error Nat → Prop
  | (after, .error _) => after.Sound { loads := 1 } ∧
    after.collections.get? collection = some { scope := rootScope, registry := rootRegistry }
  | (after, .ok _) => ∃ found, after.Sound { due := found, fresh := found } ∧
    after.collections.get? collection =
      some { scope := rootScope, registry := rootRegistry, components := found } ∧
    1 ≤ after.heldCollections.count collection ∧
    ∀ component ∈ found, ∀ spot, after.spot? component = some spot → spot.priority = .normal

theorem Opened.extract {collection : CollectionId} (h : Opened before page collection)
    (hmountable : page.Mountable roots) : Extracts collection (page.extract collection roots) := by
  have hsound : page.Sound {} := h.sound.within
    ⟨fun _ => Nat.le_refl _, Nat.zero_le _, fun _ hin => hin, fun _ hin => hin, nofun⟩
  obtain ⟨hgathered, -, hmade⟩ := @Extraction.gathers_nodes _ _ rootScope _
    (hmountable.wellmade hsound) _ (fun root hroot => ⟨root, hroot, .refl⟩) page (.refl ..) trivial
  rw [Page.extract, h.cell]
  dsimp only
  generalize (Extraction.nodes rootScope rootRegistry roots).run page = reached at hgathered hmade ⊢
  obtain ⟨error | found, after⟩ := reached
  all_goals
    dsimp only at hgathered hmade ⊢
    have hcell : after.collections.get? collection =
        some { scope := rootScope, registry := rootRegistry } := by
      rw [hgathered.same]
      exact h.cell
  case error => exact ⟨h.sound.gathered hgathered, hcell⟩
  case ok =>
    have hmade := hmade found rfl
    let grow := fun cell : Collection => { cell with components := cell.components ++ found }
    have hgrown : (after.collections.modify collection grow).get? collection =
        some { scope := rootScope, registry := rootRegistry, components := found } := by
      rw [Arena.get?_modify, if_pos rfl, hcell]
      rfl
    have hcollected : ∀ component,
        Collected { after with collections := after.collections.modify collection grow } component ↔
          page.Collected component ∨ component ∈ found := by
      intro component
      have hsame : after.Collected component ↔ page.Collected component := by
        rw [Collected, Collected, hgathered.same]
      rw [← hsame]
      constructor
      · rintro ⟨other, cell, hother, hin⟩
        by_cases hthis : collection = other
        · rw [← hthis, hgrown] at hother
          rw [← Option.some.inj hother] at hin
          exact .inr hin
        · rw [Arena.get?_modify, if_neg hthis] at hother
          exact .inl ⟨other, cell, hother, hin⟩
      · rintro (⟨other, cell, hother, hin⟩ | hin)
        · refine ⟨other, cell, ?_, hin⟩
          rw [Arena.get?_modify, if_neg]
          · exact hother
          · rintro rfl
            rw [hcell] at hother
            rw [← Option.some.inj hother] at hin
            exact absurd hin List.not_mem_nil
        · exact ⟨collection, _, hgrown, hin⟩
    have hjoined := hsound.join hgathered hmade hmountable.there hmountable.unbound hcollected
    rw [foldl_holdComponent]
    refine ⟨found, hjoined, hgrown, ?_, fun component hin spot hspot => ?_⟩
    · have hheld := h.held
      have hsame : after.heldCollections = page.heldCollections := by rw [hgathered.same]
      rw [← hsame] at hheld
      exact hheld
    · exact (Gathered.spot hgathered hmade hin hspot).1

theorem Sound.beginMount (h : page.Sound {}) (hmountable : page.Mountable roots) :
    Mounts ((page.beginMount roots).1, (page.beginMount roots).2.2) := by
  have hholding := foldl_holdNode page roots
  have hopened := (hholding.sound h).createCollection
  have hextracts := @Opened.extract _ _ roots _ hopened ((hmountable.congr hholding.markup
    (fun component => hholding.stays.collected_iff) hholding.stays.spots).congr hopened.markup
      hopened.collected hopened.spots)
  rw [Page.beginMount]
  generalize (roots.foldl Page.holdNode page).createCollection rootScope rootRegistry = created
    at hextracts ⊢
  obtain ⟨created, collection⟩ := created
  dsimp only at hextracts ⊢
  generalize created.extract collection roots = extracted at hextracts ⊢
  obtain ⟨after, error | size⟩ := extracted
  · have hreleased := hextracts.1.releaseCollection hextracts.2 rfl rfl
    exact (foldl_releaseNode _ roots).sound hreleased
  · obtain ⟨found, hsound, hcell, hheld, hclasses⟩ := hextracts
    have hruns := Sound.beginRun hcell rfl hsound hheld fun component hin spot hspot => by
      rw [hclasses component hin spot hspot]
      decide
    dsimp only
    generalize after.beginRun collection = reached at hruns ⊢
    obtain ⟨after, progress⟩ := reached
    exact hruns.closeMount collection roots size

theorem Mounts.resumeMount {mount : Mount} {reason : Suspension}
    (h : Mounts (page, .suspended reason mount)) : Mounts (page.resumeMount mount) := by
  obtain ⟨prepared, due, hphasing, hrunning⟩ := h
  have hruns := hrunning.resumeRun hphasing
  rw [Page.resumeMount]
  generalize page.resumeRun mount.run = reached at hruns ⊢
  obtain ⟨after, progress⟩ := reached
  exact hruns.closeMount mount.run.collection mount.roots mount.size

end Page

end ReactiveMarkup
