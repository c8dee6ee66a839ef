import ReactiveMarkup.Page.Extraction
import ReactiveMarkup.Proofs.Markup.Thinning
import ReactiveMarkup.Proofs.Page.Upkeep

/-!
# What an extraction gathers

An extraction goes over the markup and makes components. Reading commands takes the markup apart on
the way, but every node it comes to was below the roots from the beginning, or is an anchor. So a
binding it makes belongs to a node of the fragment and has the token of the text that stood there, and
nothing else of the page is touched, also when it fails in the middle.
-/

namespace ReactiveMarkup.Extraction

/-- A component that nobody worked with yet. A binding has the token of a text at a place of a node
that was reached. -/
structure Found (origin : Page) (reached : NodeId → Prop) (scope : ScopeId) (cell : Component) :
    Prop where
  scope : cell.scope = scope
  kept : cell.disposed = false
  own : ∀ host, cell.behaviour ≠ .host host
  free : cell.inFlight = 0
  listens : cell.triggers = []
  bound : ∀ spot, cell.spot? = some spot → spot.priority = .normal ∧ reached spot.node ∧
    ∃ text, spot.place.read? (origin.markup.kind spot.node) = some text ∧
      Binding.compile origin.patterns text = .ok spot.token

/-- What an extraction has made of a page so far. -/
structure Gathered (origin : Page) (reached : NodeId → Prop) (scope : ScopeId) (page : Page) :
    Prop where
  thins : Markup.Thins origin.markup page.markup
  same : page =
    { origin with markup := page.markup, components := page.components, log := page.log }
  size : origin.components.size ≤ page.components.size
  old : ∀ component < origin.components.size,
    page.components.get? component = origin.components.get? component
  new : ∀ component cell, origin.components.size ≤ component →
    page.components.get? component = some cell → Found origin reached scope cell

theorem Gathered.refl (page : Page) (reached : NodeId → Prop) (scope : ScopeId) :
    Gathered page reached scope page :=
  ⟨.refl page.markup, rfl, Nat.le_refl _, fun _ _ => rfl, fun _ _ hle hcell =>
    absurd (Array.getElem?_eq_some_iff.mp hcell).1 (Nat.not_lt.mpr hle)⟩

theorem Gathered.registries {origin page : Page} {reached : NodeId → Prop} {scope : ScopeId}
    (h : Gathered origin reached scope page) : page.registries = origin.registries := by rw [h.same]

theorem Gathered.patterns {origin page : Page} {reached : NodeId → Prop} {scope : ScopeId}
    (h : Gathered origin reached scope page) : page.patterns = origin.patterns := by rw [h.same]

/-- A later state of an extraction. -/
structure Grows (before after : Page) : Prop where
  markup : before.markup.size ≤ after.markup.size
  components : before.components.size ≤ after.components.size

theorem Grows.refl (page : Page) : Grows page page := ⟨Nat.le_refl _, Nat.le_refl _⟩

theorem Grows.trans {before middle after : Page} (h : Grows before middle) (h' : Grows middle after) :
    Grows before after := ⟨Nat.le_trans h.markup h'.markup, Nat.le_trans h.components h'.components⟩

section

variable {α β : Type} {origin : Page} {reached : NodeId → Prop} {scope : ScopeId}

/-- From a page of which `P` holds, an extraction gives a result and a page of which `Q` holds, unless
it fails; in both cases it has gathered nothing but what it should. -/
def Gathers (origin : Page) (reached : NodeId → Prop) (scope : ScopeId) (P : Page → Prop)
    (extraction : Extraction α) (Q : α → Page → Prop) : Prop :=
  ∀ page, Gathered origin reached scope page → P page →
    Gathered origin reached scope (extraction.run page).2 ∧ Grows page (extraction.run page).2 ∧
      ∀ result, (extraction.run page).1 = .ok result → Q result (extraction.run page).2

variable {P : Page → Prop} {Q : α → Page → Prop} {R : β → Page → Prop}

theorem Gathers.pure {result : α} (h : ∀ page, P page → Q result page) :
    Gathers origin reached scope P (Pure.pure result) Q := by
  refine fun page hpage hp => ⟨hpage, .refl page, fun other hother => ?_⟩
  obtain rfl := Except.ok.inj hother
  exact h page hp

theorem Gathers.throw (error : Error) :
    Gathers origin reached scope P (throw error : Extraction α) Q :=
  fun page hpage _ => ⟨hpage, .refl page, nofun⟩

theorem Gathers.bind {first : Extraction α} {next : α → Extraction β}
    (h : Gathers origin reached scope P first Q)
    (hnext : ∀ result, Gathers origin reached scope (Q result) (next result) R) :
    Gathers origin reached scope P (first >>= next) R := by
  intro page hpage hp
  have hfirst := h page hpage hp
  rw [run_bind]
  generalize first.run page = made at hfirst ⊢
  obtain ⟨result | result, middle⟩ := made
  · exact ⟨hfirst.1, hfirst.2.1, nofun⟩
  · obtain ⟨hmiddle, hgrows, hq⟩ := hfirst
    obtain ⟨hafter, hmore, hr⟩ := hnext result middle hmiddle (hq result rfl)
    exact ⟨hafter, hgrows.trans hmore, hr⟩

/-- Reading the page and going on with it. -/
theorem Gathers.read {next : Page → Extraction β}
    (h : ∀ read, Gathered origin reached scope read →
      Gathers origin reached scope (fun page => page = read ∧ P read) (next read) R) :
    Gathers origin reached scope P (MonadState.get >>= next) R := by
  intro page hpage hp
  have hget : (MonadState.get : Extraction Page).run page = (.ok page, page) := rfl
  rw [run_bind, hget]
  exact h page hpage page hpage ⟨rfl, hp⟩

theorem Gathers.ofExcept {made : Except Error α} {next : α → Extraction β}
    (h : ∀ result, made = .ok result → Gathers origin reached scope P (next result) R) :
    Gathers origin reached scope P (Extraction.ofExcept made >>= next) R := by
  intro page hpage hp
  rw [run_bind]
  cases made with
  | error error => exact ⟨hpage, .refl page, nofun⟩
  | ok result => exact h result rfl page hpage hp

theorem Gathers.mono {P' : Page → Prop} {Q' : α → Page → Prop} {extraction : Extraction α}
    (h : Gathers origin reached scope P' extraction Q') (hp : ∀ page, P page → P' page)
    (hq : ∀ result page, Q' result page → Q result page) :
    Gathers origin reached scope P extraction Q :=
  fun page hpage hpre => by
    obtain ⟨hafter, hgrows, hpost⟩ := h page hpage (hp page hpre)
    exact ⟨hafter, hgrows, fun result hresult => hq result _ (hpost result hresult)⟩

/-- What holds of a page that grew from one of which it held. -/
theorem Gathers.frame {F : Page → Prop} {extraction : Extraction α}
    (h : Gathers origin reached scope P extraction Q)
    (hframe : ∀ before after, Grows before after → F before → F after) :
    Gathers origin reached scope (fun page => P page ∧ F page) extraction
      fun result page => Q result page ∧ F page :=
  fun page hpage hpre => by
    obtain ⟨hafter, hgrows, hpost⟩ := h page hpage hpre.1
    exact ⟨hafter, hgrows, fun result hresult =>
      ⟨hpost result hresult, hframe page _ hgrows hpre.2⟩⟩

/-! ## Single components -/

/-- Components that the extraction has made. -/
def Made (origin : Page) (ids : List ComponentId) (page : Page) : Prop :=
  ∀ component ∈ ids, origin.components.size ≤ component ∧ component < page.components.size

theorem Made.grows {ids : List ComponentId} {before after : Page} (h : Made origin ids before)
    (hgrows : Grows before after) : Made origin ids after :=
  fun component hin =>
    ⟨(h component hin).1, Nat.lt_of_lt_of_le (h component hin).2 hgrows.components⟩

theorem gathers_make {cell : Component} (h : Found origin reached scope cell) :
    Gathers origin reached scope P (make cell) fun id => Made origin [id] := by
  intro page hpage _
  have hafter : Gathered origin reached scope
      { page with components := page.components.push cell } := by
    refine ⟨hpage.thins, ?_, ?_, fun component hlt => ?_, fun component other hle hother => ?_⟩
    · have hsame := hpage.same
      rw [hsame]
    · exact Nat.le_trans hpage.size (by rw [Arena.size_push]; exact Nat.le_succ _)
    · rw [← hpage.old component hlt, Arena.get?_push,
        if_neg (Nat.ne_of_lt (Nat.lt_of_lt_of_le hlt hpage.size))]
    · rw [Arena.get?_push] at hother
      split at hother
      · exact Option.some.inj hother ▸ h
      · exact hpage.new component other hle hother
  refine ⟨hafter, ⟨Nat.le_refl _, ?_⟩, fun result hresult component hin => ?_⟩
  · change page.components.size ≤ (page.components.push cell).size
    rw [Arena.size_push]
    exact Nat.le_succ _
  · obtain rfl := Except.ok.inj hresult
    obtain rfl := List.mem_singleton.mp hin
    refine ⟨hpage.size, ?_⟩
    change page.components.size < (page.components.push cell).size
    rw [Arena.size_push]
    exact Nat.lt_succ_self _

/-- Reading changes markup and nothing else. -/
theorem snd_run_reading (reading : Reading α) (page : Page) :
    ((Extraction.reading reading).run page).2 =
      { page with markup := (reading.run page.markup).2 } := by
  have hget : (MonadState.get : Extraction Page).run page = (.ok page, page) := rfl
  rw [Extraction.reading, run_bind, hget]
  dsimp only
  rcases reading.run page.markup with ⟨result | result, markup⟩
  · rfl
  · rfl

theorem gathers_reading {reading : Reading α} (h : reading.Thinning) :
    Gathers origin reached scope P (Extraction.reading reading) fun _ _ => True := by
  intro page hpage _
  have hthins := h page.markup
  rw [snd_run_reading]
  refine ⟨⟨hpage.thins.trans hthins, ?_, hpage.size, hpage.old, hpage.new⟩,
    ⟨hthins.size, Nat.le_refl _⟩, fun _ _ => trivial⟩
  have hsame := hpage.same
  rw [hsame]

/-- What an extraction needs to know of a fragment: all nodes of it are there, no attribute hides
another one, and no command of it is a host's. -/
structure Wellmade (origin : Page) (registry : RegistryId) (reached : NodeId → Prop) : Prop where
  there : ∀ node, reached node → node < origin.markup.size
  named : origin.markup.Wellnamed
  closed : ∀ node, reached node → ∀ child ∈ origin.markup.children node, reached child
  plain : ∀ keyword make, origin.registries.resolve? registry keyword ≠ some (.host make)

/-- Whether an extraction may come to a node: it was reached from the beginning, or it is an anchor
that was put in the meantime. -/
def Within (origin : Page) (reached : NodeId → Prop) (node : NodeId) (page : Page) : Prop :=
  reached node ∨ origin.markup.size ≤ node ∧ node < page.markup.size

theorem Within.grows {node : NodeId} {before after : Page} (h : Within origin reached node before)
    (hgrows : Grows before after) : Within origin reached node after :=
  h.imp (fun hold => hold) fun hnew => ⟨hnew.1, Nat.lt_of_lt_of_le hnew.2 hgrows.markup⟩

theorem found_unbound {node : NodeId} {priority : Priority} {behaviour : Behaviour}
    (hunbound : Component.bound? behaviour = none) (hown : ∀ host, behaviour ≠ .host host) :
    Found origin reached scope { node, scope, priority, behaviour } :=
  ⟨rfl, rfl, hown, rfl, rfl, fun spot hspot => by
    rw [Component.spot?, hunbound] at hspot
    cases hspot⟩

variable {registry : RegistryId} {node : NodeId}

theorem gathers_command (h : Wellmade origin registry reached) (keyword : String) :
    Gathers origin reached scope P (command scope registry keyword node)
      fun id => Made origin [id] := by
  rw [command]
  refine Gathers.read fun page hpage => ?_
  split
  · exact .throw _
  · refine Gathers.bind (gathers_reading (LoadCommand.thinning_read _ _ _ _)) fun made => ?_
    exact gathers_make (found_unbound rfl nofun)
  · refine Gathers.bind (gathers_reading (ShowCommand.thinning_read _ _ _)) fun made => ?_
    exact gathers_make (found_unbound rfl nofun)
  · exact gathers_make (found_unbound rfl nofun)
  · next make hmake =>
      have hsame : page.registries = origin.registries := hpage.registries
      rw [hsame] at hmake
      exact absurd hmake (h.plain keyword make)

theorem gathers_text {content : String} (hreached : reached node)
    (hkind : origin.markup.kind node = .text content) :
    Gathers origin reached scope P (text scope node content) (Made origin) := by
  rw [text]
  refine Gathers.read fun page hpage => ?_
  have hpatterns : page.patterns = origin.patterns := hpage.patterns
  dsimp only
  split
  · refine Gathers.ofExcept fun token htoken => ?_
    have hfound : Found origin reached scope
        { node, scope, priority := .normal, behaviour := .text token } := by
      refine ⟨rfl, rfl, nofun, rfl, rfl, fun spot hspot => ?_⟩
      obtain rfl := Option.some.inj hspot
      refine ⟨rfl, hreached, content, ?_, hpatterns ▸ htoken⟩
      rw [hkind]
      rfl
    exact (gathers_make hfound).bind fun made => .pure fun _ hmade => hmade
  · exact .pure fun _ _ component hin => absurd hin List.not_mem_nil

theorem gathers_attributes (h : Wellmade origin registry reached) (hreached : reached node)
    (entries : List (String × String)) (hsub : entries ⊆ (origin.markup.kind node).attributes) :
    Gathers origin reached scope P (attributes scope node entries) (Made origin) := by
  induction entries generalizing P with
  | nil => exact .pure fun _ _ component hin => absurd hin List.not_mem_nil
  | cons entry rest ih =>
      obtain ⟨name, value⟩ := entry
      have hrest := fun {P : Page → Prop} => ih (P := P) (List.subset_of_cons_subset hsub)
      rw [attributes]
      refine Gathers.read fun page hpage => ?_
      have hpatterns : page.patterns = origin.patterns := hpage.patterns
      dsimp only
      split
      · refine Gathers.ofExcept fun token htoken => ?_
        have hfound : Found origin reached scope
            { node, scope, priority := .normal, behaviour := .attributeText name token } := by
          refine ⟨rfl, rfl, nofun, rfl, rfl, fun spot hspot => ?_⟩
          obtain rfl := Option.some.inj hspot
          exact ⟨rfl, hreached, value, (h.named node).attribute? (hsub List.mem_cons_self),
            hpatterns ▸ htoken⟩
        refine (gathers_make hfound).bind fun made => ?_
        refine Gathers.bind (Q := fun others page => Made origin others page ∧ Made origin [made] page)
          ?_ fun others => .pure fun page hmade component hin => ?_
        · exact Gathers.mono (hrest.frame fun _ _ hgrows hmade => Made.grows hmade hgrows)
            (fun page hmade => ⟨hmade, hmade⟩) fun _ _ hmade => hmade
        · rcases List.mem_cons.mp hin with rfl | hin
          · exact hmade.2 component List.mem_cons_self
          · exact hmade.1 component hin
      · exact hrest

theorem gathers_wrapper (tag : String) :
    Gathers origin reached scope P (wrapper scope node tag) (Made origin) := by
  have hfound : Found origin reached scope
      { node, scope, priority := .low, behaviour := .wrapper } := found_unbound rfl nofun
  rw [wrapper]
  refine Gathers.read fun page hpage => ?_
  split
  · exact (gathers_make hfound).bind fun made => .pure fun _ hmade => hmade
  · exact .pure fun _ _ component hin => absurd hin List.not_mem_nil

/-- One extraction after another, each from an item that stays good. -/
theorem gathers_mapM {f : α → Extraction (List ComponentId)} (good : α → Page → Prop)
    (hgrows : ∀ item before after, good item before → Grows before after → good item after)
    (hf : ∀ item, Gathers origin reached scope (good item) (f item) (Made origin))
    (items : List α) :
    Gathers origin reached scope (fun page => ∀ item ∈ items, good item page) (items.mapM f)
      fun made => Made origin made.flatten := by
  induction items with
  | nil =>
      rw [List.mapM_nil]
      exact .pure fun _ _ component hin => absurd hin List.not_mem_nil
  | cons item rest ih =>
      rw [List.mapM_cons]
      refine Gathers.bind (Q := fun made page =>
        Made origin made page ∧ ∀ item ∈ rest, good item page) ?_ fun first => ?_
      · refine Gathers.mono ((hf item).frame (F := fun page => ∀ item ∈ rest, good item page)
          fun before after hlater hrest other hother =>
            hgrows other before after (hrest other hother) hlater) (fun page hall => ?_)
          fun _ _ hmade => hmade
        exact ⟨hall item List.mem_cons_self, fun other hother =>
          hall other (List.mem_cons_of_mem _ hother)⟩
      · refine Gathers.bind (Q := fun others page =>
          Made origin others.flatten page ∧ Made origin first page) ?_ fun others => ?_
        · exact Gathers.mono (ih.frame fun _ _ hlater hmade => Made.grows hmade hlater)
            (fun page hboth => ⟨hboth.2, hboth.1⟩) fun _ _ hmade => hmade
        · refine .pure fun page hmade component hin => ?_
          rw [List.flatten_cons] at hin
          rcases List.mem_append.mp hin with hin | hin
          · exact hmade.2 component hin
          · exact hmade.1 component hin

theorem made_nil (page : Page) : Made origin [] page := fun _ hin => absurd hin List.not_mem_nil

theorem Made.append {ids others : List ComponentId} {page : Page} (h : Made origin ids page)
    (h' : Made origin others page) : Made origin (ids ++ others) page :=
  fun component hin => (List.mem_append.mp hin).elim (h component) (h' component)

/-- An element without a command: its attributes, itself, and what is below it. -/
theorem gathers_element (h : Wellmade origin registry reached) (hreached : reached node)
    (tag : String) (entries : List (String × String))
    (hsub : entries ⊆ (origin.markup.kind node).attributes) (children : List NodeId)
    {inside : NodeId → Extraction (List ComponentId)}
    (hinside : ∀ child, Gathers origin reached scope (Within origin reached child) (inside child)
      (Made origin)) :
    Gathers origin reached scope (fun page => ∀ child ∈ children, Within origin reached child page)
      (do
        let bound ← attributes scope node entries
        let wrapping ← wrapper scope node tag
        let inner ← children.mapM inside
        return bound ++ wrapping ++ inner.flatten)
      (Made origin) := by
  let there := fun page => ∀ child ∈ children, Within origin reached child page
  have hthere : ∀ before after, Grows before after → there before → there after :=
    fun before after hgrows hall child hin => (hall child hin).grows hgrows
  refine Gathers.bind (Q := fun bound page => Made origin bound page ∧ there page) ?_ fun bound => ?_
  · exact ((gathers_attributes (P := fun _ => True) h hreached entries hsub).frame hthere).mono
      (fun _ hall => ⟨trivial, hall⟩) fun _ _ hboth => hboth
  refine Gathers.bind (Q := fun wrapping page =>
    Made origin (bound ++ wrapping) page ∧ there page) ?_ fun wrapping => ?_
  · refine ((gathers_wrapper (P := fun _ => True) tag).frame
      (F := fun page => Made origin bound page ∧ there page) fun before after hgrows hboth =>
        ⟨hboth.1.grows hgrows, hthere before after hgrows hboth.2⟩).mono
      (fun _ hboth => ⟨trivial, hboth⟩) fun _ _ hboth => ⟨hboth.2.1.append hboth.1, hboth.2.2⟩
  refine Gathers.bind (Q := fun inner page => Made origin (bound ++ wrapping ++ inner.flatten) page)
    ?_ fun inner => .pure fun _ hmade => hmade
  exact ((gathers_mapM (Within origin reached) (fun _ _ _ => Within.grows) hinside
    children).frame (F := Made origin (bound ++ wrapping)) fun _ _ hgrows hmade =>
      hmade.grows hgrows).mono (fun _ hboth => ⟨hboth.2, hboth.1⟩) fun _ _ hboth =>
        hboth.2.append hboth.1

/-- A node and what is below it. -/
theorem gathers_nodeTo (h : Wellmade origin registry reached) (depth : Nat) (node : NodeId) :
    Gathers origin reached scope (Within origin reached node) (nodeTo scope registry depth node)
      (Made origin) := by
  induction depth generalizing node with
  | zero => exact .pure fun page _ => made_nil page
  | succ depth ih =>
      rw [nodeTo]
      refine Gathers.read fun page hpage => ?_
      refine fun current hcurrent hpre => ?_
      obtain ⟨rfl, hwithin⟩ := hpre
      -- What is there now of a node that was reached is what there was; another one is an anchor.
      rcases hwithin with hreached | ⟨hle, hlt⟩
      · have hkind := hpage.thins.kind node (h.there node hreached)
        rw [hkind]
        cases hnode : origin.markup.kind node with
        | text content =>
            exact gathers_text (P := fun _ => True) hreached hnode current hcurrent trivial
        | comment content =>
            exact Gathers.pure (P := fun _ => True) (fun page _ => made_nil page) current hcurrent
              trivial
        | anchor name =>
            exact Gathers.pure (P := fun _ => True) (fun page _ => made_nil page) current hcurrent
              trivial
        | element tag entries =>
            dsimp only
            split
            · next value _ =>
                refine Gathers.bind (P := fun _ => True) (gathers_command h _)
                  (fun made => .pure fun _ hmade => hmade) current hcurrent trivial
            · refine gathers_element h hreached tag entries (by rw [hnode]; exact List.Subset.refl _)
                (current.markup.children node) ih current hcurrent fun child hchild => ?_
              rcases hcurrent.thins.children node child hchild with hold | ⟨hle, hlt⟩
              · exact .inl (h.closed node hreached child hold)
              · exact .inr ⟨hle, hlt⟩
      · obtain ⟨name, hname⟩ := hpage.thins.fresh node hle hlt
        rw [hname]
        exact Gathers.pure (P := fun _ => True) (fun page _ => made_nil page) current hcurrent trivial

/-- Some nodes and what is below them. -/
theorem gathers_nodes (h : Wellmade origin registry reached) {roots : List NodeId}
    (hroots : ∀ root ∈ roots, reached root) :
    Gathers origin reached scope (fun _ => True) (nodes scope registry roots) (Made origin) := by
  rw [nodes]
  refine Gathers.read fun page _ => ?_
  refine Gathers.bind ?_ fun found => .pure fun _ hmade => hmade
  exact (gathers_mapM (Within origin reached) (fun _ _ _ => Within.grows) (gathers_nodeTo h _)
    roots).mono (fun _ _ root hroot => .inl (hroots root hroot)) fun _ _ hmade => hmade

end

end ReactiveMarkup.Extraction
