import ReactiveMarkup.Page.Host
import ReactiveMarkup.Proofs.Page.Mounts
import ReactiveMarkup.Proofs.Page.Undertakings

/-!
# What making components does to the books

A new component is rendered by nobody and registered for nothing, and nobody has registered it before
it was there, so its books are right from the beginning. All that is asked is that its scope exists. An
extraction makes many of them one after another, in one scope, and may fail in the middle; those that
were made by then are forgotten by everybody, but their books are right, too.
-/

namespace ReactiveMarkup

/-- A component that nobody has worked with. -/
structure Component.Blank (scope : ScopeId) (cell : Component) : Prop where
  scope : cell.scope = scope
  idle : cell.inFlight = 0
  kept : cell.disposed = false
  silent : cell.triggers = []

theorem Component.blank_new (node : NodeId) (scope : ScopeId) (priority : Priority)
    (behaviour : Behaviour) : Component.Blank scope { node, scope, priority, behaviour } :=
  ⟨rfl, rfl, rfl, rfl⟩

namespace Page

variable {page before middle after : Page} {cell : Component} {scope : ScopeId}

/-- Making components in a scope. -/
structure Makes (scope : ScopeId) (before after : Page) : Prop where
  scopes : after.scopes = before.scopes
  collections : after.collections = before.collections
  queue : after.queue = before.queue
  heldComponents : after.heldComponents = before.heldComponents
  size : before.components.size ≤ after.components.size
  lasts : Lasts before after
  tends : scope < before.scopes.scopes.size → Tends before after

theorem Makes.refl (scope : ScopeId) (page : Page) : Makes scope page page :=
  ⟨rfl, rfl, rfl, rfl, Nat.le_refl _, .refl page, fun _ => .refl page⟩

theorem Makes.trans (h : Makes scope before middle) (h' : Makes scope middle after) :
    Makes scope before after :=
  ⟨h'.scopes.trans h.scopes, h'.collections.trans h.collections, h'.queue.trans h.queue,
    h'.heldComponents.trans h.heldComponents, Nat.le_trans h.size h'.size,
    h.lasts.trans h'.lasts, fun hlt => (h.tends hlt).trans (h'.tends (h.scopes ▸ hlt))⟩

theorem Aside.makes (h : Aside before after) (hqueue : after.queue = before.queue)
    (hheld : after.heldComponents = before.heldComponents) : Makes scope before after :=
  ⟨h.scopes, h.collections, hqueue, hheld, Nat.le_of_eq (congrArg Arena.size h.components).symm,
    (tends_aside h).lasts, fun _ => tends_aside h⟩

theorem makes_push (page : Page) (h : cell.Blank scope) :
    Makes scope page { page with components := page.components.push cell } := by
  have hold : ∀ id old, page.components.get? id = some old →
      (page.components.push cell).get? id = some old := by
    intro id old hcell
    have hlt : id < page.components.size := (Array.getElem?_eq_some_iff.mp hcell).1
    rw [Arena.get?_push, if_neg (Nat.ne_of_lt hlt)]
    exact hcell
  have hlasts : Lasts page { page with components := page.components.push cell } :=
    ⟨Nat.le_refl _, fun id old hcell => ⟨old, hold id old hcell, .refl old⟩,
      fun id old hcell => ⟨old, hcell, .refl old⟩⟩
  have hgrows : page.components.size ≤ (page.components.push cell).size := by
    rw [Arena.size_push]
    exact Nat.le_succ _
  refine ⟨rfl, rfl, rfl, rfl, hgrows, hlasts, fun hlt => ⟨hlasts, fun others htallied => ?_⟩⟩
  have hnone : others.count page.components.size = 0 :=
    List.count_eq_zero.mpr fun hmem => Nat.lt_irrefl _ (htallied.known _ hmem)
  constructor
  case standing => exact htallied.standing
  case linked => exact htallied.linked
  case placed => exact htallied.placed
  case gathered =>
    intro collection gathering hgathering
    obtain ⟨hnodup, hknown⟩ := htallied.gathered collection gathering hgathering
    exact ⟨hnodup, fun id hid => Nat.lt_of_lt_of_le (hknown id hid) hgrows⟩
  case known =>
    intro id hid
    rw [Arena.size_push]
    exact Nat.lt_succ_of_lt (htallied.known id hid)
  case booked =>
    intro id made hmade
    rw [Arena.get?_push] at hmade
    split at hmade
    · next hid =>
        obtain rfl := hid
        obtain rfl := Option.some.inj hmade
        refine ⟨h.scope ▸ hlt, h.idle.trans hnone.symm, fun _ => h.idle ▸ Nat.zero_le _, ?_, ?_, ?_⟩
        · intro hdisposed
          rw [h.kept] at hdisposed
          cases hdisposed
        · rw [h.silent]
          exact fun _ hname => absurd hname List.not_mem_nil
        · intro _ hkept name
          rw [h.silent, if_neg List.not_mem_nil]
          exact htallied.unborn _ (Nat.le_refl _) _ name hkept
    · exact htallied.booked id made hmade
  case unborn =>
    intro id hid
    rw [Arena.size_push] at hid
    exact htallied.unborn id (Nat.le_of_succ_le hid)

end Page

/-! ## Extractions -/

namespace Extraction

variable {α β : Type} {scope : ScopeId} {registry : RegistryId} {node : NodeId}

/-- An extraction that makes components in a scope, and does nothing else that books are about. -/
def MakesIn (scope : ScopeId) (extraction : Extraction α) : Prop :=
  ∀ page, Page.Makes scope page (extraction.run page).2

theorem MakesIn.pure (result : α) : MakesIn scope (Pure.pure result : Extraction α) :=
  fun page => .refl scope page

theorem MakesIn.throw (error : Error) : MakesIn scope (throw error : Extraction α) :=
  fun page => .refl scope page

theorem MakesIn.bind {first : Extraction α} {next : α → Extraction β} (h : MakesIn scope first)
    (hnext : ∀ result, MakesIn scope (next result)) : MakesIn scope (first >>= next) := by
  intro page
  have hfirst := h page
  rw [run_bind]
  generalize first.run page = reached at hfirst ⊢
  obtain ⟨error | result, middle⟩ := reached
  · exact hfirst
  · exact hfirst.trans (hnext result middle)

theorem makesIn_get : MakesIn scope (MonadState.get : Extraction Page) :=
  fun page => .refl scope page

theorem makesIn_ofExcept (made : Except Error α) : MakesIn scope (Extraction.ofExcept made) := by
  cases made with
  | ok result => exact .pure result
  | error error => exact .throw error

theorem makesIn_reading (reading : Reading α) : MakesIn scope (Extraction.reading reading) := by
  intro page
  rw [snd_run_reading]
  exact Page.Aside.makes ⟨rfl, rfl, rfl, Nat.le_refl _⟩ rfl rfl

theorem makesIn_make (node : NodeId) (priority : Priority) (behaviour : Behaviour) :
    MakesIn scope (make { node, scope, priority, behaviour }) :=
  fun page => Page.makes_push page (Component.blank_new node scope priority behaviour)

theorem makesIn_record (event : Event) :
    MakesIn scope (modify (·.record event) : Extraction Unit) :=
  fun _ => Page.Aside.makes ⟨rfl, rfl, rfl, Nat.le_refl _⟩ rfl rfl

theorem makesIn_command (keyword : String) :
    MakesIn scope (command scope registry keyword node) := by
  rw [command]
  refine makesIn_get.bind fun page => ?_
  split
  · exact .throw _
  · exact (makesIn_reading _).bind fun read => makesIn_make _ _ _
  · exact (makesIn_reading _).bind fun read => makesIn_make _ _ _
  · exact makesIn_make _ _ _
  · exact (makesIn_record _).bind fun _ => makesIn_make _ _ _

theorem makesIn_text (content : String) : MakesIn scope (text scope node content) := by
  rw [text]
  refine makesIn_get.bind fun page => ?_
  dsimp only
  split
  · exact (makesIn_ofExcept _).bind fun token =>
      (makesIn_make _ _ _).bind fun made => .pure _
  · exact .pure _

theorem makesIn_attributes (entries : List (String × String)) :
    MakesIn scope (attributes scope node entries) := by
  induction entries with
  | nil => exact .pure _
  | cons entry rest ih =>
      obtain ⟨name, value⟩ := entry
      rw [attributes]
      refine makesIn_get.bind fun page => ?_
      dsimp only
      split
      · exact (makesIn_ofExcept _).bind fun token =>
          (makesIn_make _ _ _).bind fun made => ih.bind fun others => .pure _
      · exact ih

theorem makesIn_wrapper (tag : String) : MakesIn scope (wrapper scope node tag) := by
  rw [wrapper]
  refine makesIn_get.bind fun page => ?_
  split
  · exact (makesIn_make _ _ _).bind fun made => .pure _
  · exact .pure _

theorem MakesIn.mapM {f : α → Extraction β} (hf : ∀ item, MakesIn scope (f item)) (items : List α) :
    MakesIn scope (items.mapM f) := by
  induction items with
  | nil =>
      rw [List.mapM_nil]
      exact .pure _
  | cons item rest ih =>
      rw [List.mapM_cons]
      exact (hf item).bind fun first => ih.bind fun others => .pure _

theorem makesIn_nodeTo (depth : Nat) (node : NodeId) :
    MakesIn scope (nodeTo scope registry depth node) := by
  induction depth generalizing node with
  | zero => exact .pure _
  | succ depth ih =>
      rw [nodeTo]
      refine makesIn_get.bind fun page => ?_
      split
      · exact makesIn_text _
      · split
        · exact (makesIn_command _).bind fun made => .pure _
        · exact (makesIn_attributes _).bind fun bound => (makesIn_wrapper _).bind fun wrapping =>
            (MakesIn.mapM ih _).bind fun inner => .pure _
      · exact .pure _
      · exact .pure _

theorem makesIn_nodes (roots : List NodeId) : MakesIn scope (nodes scope registry roots) := by
  rw [nodes]
  exact makesIn_get.bind fun page => (MakesIn.mapM (makesIn_nodeTo _) roots).bind fun made => .pure _

/-! ### New numbers -/

/-- Components that were made one after another since there were so many. -/
structure Fresh (start : ComponentId) (made : List ComponentId) (page : Page) : Prop where
  rising : made.Pairwise (· < ·)
  new : ∀ id ∈ made, start ≤ id
  known : ∀ id ∈ made, id < page.components.size
  grown : start ≤ page.components.size

theorem Fresh.le {start : ComponentId} {made : List ComponentId} {before after : Page}
    (h : Fresh start made before) (hle : before.components.size ≤ after.components.size) :
    Fresh start made after :=
  ⟨h.rising, h.new, fun id hid => Nat.lt_of_lt_of_le (h.known id hid) hle,
    Nat.le_trans h.grown hle⟩

theorem fresh_nil (page : Page) : Fresh page.components.size [] page :=
  ⟨.nil, fun _ hin => absurd hin List.not_mem_nil, fun _ hin => absurd hin List.not_mem_nil,
    Nat.le_refl _⟩

/-- An extraction that goes on after some components were made; those that are made by its end are
given by its result. -/
def Numbers (before : List ComponentId) (extraction : Extraction α)
    (after : α → List ComponentId) : Prop :=
  ∀ start page, Fresh start before page → ∀ result, (extraction.run page).1 = .ok result →
    Fresh start (after result) (extraction.run page).2

variable {made : List ComponentId} {taken : α → List ComponentId} {all : β → List ComponentId}

theorem Numbers.pure {result : α} (hsame : taken result = made) :
    Numbers made (Pure.pure result) taken := by
  intro start page hfresh other hother
  obtain rfl := Except.ok.inj hother
  rw [hsame]
  exact hfresh

theorem Numbers.bind {first : Extraction α} {next : α → Extraction β} (h : Numbers made first taken)
    (hnext : ∀ result, Numbers (taken result) (next result) all) :
    Numbers made (first >>= next) all := by
  intro start page hfresh
  have hfirst := h start page hfresh
  rw [run_bind]
  generalize first.run page = reached at hfirst ⊢
  obtain ⟨error | result, middle⟩ := reached
  · exact nofun
  · exact hnext result start middle (hfirst result rfl)

/-- Whatever makes no component leaves those that were made. -/
theorem MakesIn.numbers {extraction : Extraction α} (h : MakesIn scope extraction) :
    Numbers made extraction fun _ => made :=
  fun _ page hfresh _ _ => hfresh.le (h page).size

theorem numbers_make (cell : Component) : Numbers made (make cell) fun id => made ++ [id] := by
  intro start page hfresh result hresult
  obtain rfl := Except.ok.inj hresult
  have hsize : (page.components.push cell).size = page.components.size + 1 := Arena.size_push _ _
  constructor
  case rising =>
    refine List.pairwise_append.mpr ⟨hfresh.rising, List.pairwise_singleton _ _, fun id hid last hlast => ?_⟩
    rw [List.mem_singleton.mp hlast]
    exact hfresh.known id hid
  case new =>
    intro id hid
    rcases List.mem_append.mp hid with hold | hlast
    · exact hfresh.new id hold
    · rw [List.mem_singleton.mp hlast]
      exact hfresh.grown
  case known =>
    intro id hid
    change id < (page.components.push cell).size
    rw [hsize]
    rcases List.mem_append.mp hid with hold | hlast
    · exact Nat.lt_succ_of_lt (hfresh.known id hold)
    · rw [List.mem_singleton.mp hlast]
      exact Nat.lt_succ_self _
  case grown =>
    change start ≤ (page.components.push cell).size
    rw [hsize]
    exact Nat.le_succ_of_le hfresh.grown

theorem numbers_command (keyword : String) :
    Numbers made (command scope registry keyword node) fun id => made ++ [id] := by
  have hread : ∀ {γ : Type} (reading : Reading γ), Numbers made (Extraction.reading reading) _ :=
    fun reading => (@makesIn_reading _ scope reading).numbers
  have hthrown : ∀ error, Numbers made (throw error : Extraction ComponentId) fun id => made ++ [id] :=
    fun error start page hfresh result hresult => by cases hresult
  rw [command]
  refine (@makesIn_get scope).numbers.bind fun page => ?_
  split
  · exact hthrown _
  · exact (hread _).bind fun read => numbers_make _
  · exact (hread _).bind fun read => numbers_make _
  · exact numbers_make _
  · exact ((@makesIn_record scope _).numbers).bind fun _ => numbers_make _

theorem numbers_text (content : String) :
    Numbers made (text scope node content) fun found => made ++ found := by
  rw [text]
  refine (@makesIn_get scope).numbers.bind fun page => ?_
  dsimp only
  split
  · exact (@makesIn_ofExcept _ scope _).numbers.bind fun token =>
      (numbers_make _).bind fun id => .pure rfl
  · exact .pure (List.append_nil _)

theorem numbers_attributes (entries : List (String × String)) :
    Numbers made (attributes scope node entries) fun found => made ++ found := by
  induction entries generalizing made with
  | nil => exact .pure (List.append_nil _)
  | cons entry rest ih =>
      obtain ⟨name, value⟩ := entry
      rw [attributes]
      refine (@makesIn_get scope).numbers.bind fun page => ?_
      dsimp only
      split
      · exact (@makesIn_ofExcept _ scope _).numbers.bind fun token =>
          (numbers_make _).bind fun id => ih.bind fun others => .pure (by simp)
      · exact ih

theorem numbers_wrapper (tag : String) :
    Numbers made (wrapper scope node tag) fun found => made ++ found := by
  rw [wrapper]
  refine (@makesIn_get scope).numbers.bind fun page => ?_
  split
  · exact (numbers_make _).bind fun id => .pure rfl
  · exact .pure (List.append_nil _)

theorem Numbers.mapM {f : β → Extraction (List ComponentId)}
    (hf : ∀ item made, Numbers made (f item) fun found => made ++ found) (items : List β) :
    Numbers made (items.mapM f) fun founds => made ++ founds.flatten := by
  induction items generalizing made with
  | nil =>
      rw [List.mapM_nil]
      exact .pure (List.append_nil _)
  | cons item rest ih =>
      rw [List.mapM_cons]
      exact (hf item made).bind fun first => ih.bind fun others => .pure (by simp)

theorem numbers_nodeTo (depth : Nat) (node : NodeId) (made : List ComponentId) :
    Numbers made (nodeTo scope registry depth node) fun found => made ++ found := by
  induction depth generalizing node made with
  | zero => exact .pure (List.append_nil _)
  | succ depth ih =>
      rw [nodeTo]
      refine (@makesIn_get scope).numbers.bind fun page => ?_
      split
      · exact numbers_text _
      · split
        · exact (numbers_command _).bind fun id => .pure rfl
        · exact (numbers_attributes _).bind fun bound => (numbers_wrapper _).bind fun wrapping =>
            (Numbers.mapM ih _).bind fun inner => .pure (by simp)
      · exact .pure (List.append_nil _)
      · exact .pure (List.append_nil _)

/-- The components that are extracted are new, and each is there once. -/
theorem numbers_nodes (roots : List NodeId) :
    Numbers [] (nodes scope registry roots) fun found => found := by
  rw [nodes]
  exact (@makesIn_get scope).numbers.bind fun page =>
    (Numbers.mapM (numbers_nodeTo _) roots).bind fun founds => .pure (List.nil_append _).symm

end Extraction

namespace Page

variable {page : Page} {scope : ScopeId}

/-! ## What a host makes -/

theorem tends_createComponent (hlt : scope < page.scopes.scopes.size) (node : NodeId)
    (host : HostComponent) (priority : Priority) :
    Tends page (page.createComponent scope node host priority).1 :=
  ((makes_push page (Component.blank_new node scope priority (.host host))).tends hlt).trans
    (tends_holdComponent _ _)

theorem tends_createCommand (hlt : scope < page.scopes.scopes.size) (registry : RegistryId)
    (keyword : String) (node : NodeId) :
    Tends page (page.createCommand scope registry keyword node).1 := by
  have hmade := (@Extraction.makesIn_command scope registry node keyword page).tends hlt
  rw [createCommand]
  generalize (Extraction.command scope registry keyword node).run page = reached at hmade ⊢
  obtain ⟨error | component, after⟩ := reached
  · exact hmade
  · exact hmade.trans (tends_holdComponent _ _)

/-- A new collection in a scope that lives. -/
theorem tends_createCollection (halive : page.scopes.isAlive scope = true) (registry : RegistryId) :
    Tends page (page.createCollection scope registry).1 := by
  have hpushed : Tends page { page with collections := page.collections.push { scope, registry } } :=
    { lasts := {
        flights := Nat.le_refl _
        cells := fun id cell hcell => ⟨cell, hcell, .refl cell⟩
        collections := fun id cell hcell => by
          have hlt : id < page.collections.size := (Array.getElem?_eq_some_iff.mp hcell).1
          refine ⟨cell, ?_, .refl cell⟩
          rw [Arena.get?_push, if_neg (Nat.ne_of_lt hlt)]
          exact hcell }
      tallied := fun others h => { h with
        placed := fun collection cell hcell => by
          rw [Arena.get?_push] at hcell
          split at hcell
          · obtain rfl := Option.some.inj hcell
            exact h.standing.ordered.lt_size_of_isAlive h.standing.held halive
          · exact h.placed collection cell hcell
        gathered := fun collection cell hcell => by
          rw [Arena.get?_push] at hcell
          split at hcell
          · obtain rfl := Option.some.inj hcell
            exact ⟨List.nodup_nil, fun _ hin => absurd hin List.not_mem_nil⟩
          · exact h.gathered collection cell hcell } }
  have hheld := hpushed.trans (@tends_holdScope
    { page with collections := page.collections.push { scope, registry } } scope halive)
  exact hheld.trans (tends_holdCollection _ page.collections.size)

/-- The scope of a collection exists, so components may be made in it. Those that join it are new. -/
theorem tends_extract (page : Page) (collection : CollectionId) (roots : List NodeId) :
    Tends page (page.extract collection roots).1 := by
  rw [extract]
  split
  · exact .refl page
  · next cell hcell =>
      have hmakes := @Extraction.makesIn_nodes cell.scope cell.registry roots page
      have hnumbers := @Extraction.numbers_nodes cell.scope cell.registry roots page.components.size
        page (Extraction.fresh_nil page)
      have hmade : Tends page ((Extraction.nodes cell.scope cell.registry roots).run page).2 :=
        ⟨hmakes.lasts, fun others h => (hmakes.tends (h.placed collection cell hcell)).tallied others h⟩
      have hcollections := hmakes.collections
      generalize (Extraction.nodes cell.scope cell.registry roots).run page = reached
        at hmade hnumbers hcollections ⊢
      obtain ⟨error | found, after⟩ := reached
      · exact hmade
      · have hfresh := hnumbers found rfl
        have hfilled : Tends page (after.changeCollection collection fun cell =>
            { cell with components := cell.components ++ found }) := by
          refine ⟨hmade.lasts.trans (lasts_changeCollection after collection fun _ _ =>
            ⟨rfl, fun h => h, fun h => h⟩), fun others h => ?_⟩
          have hafter := hmade.tallied others h
          refine hafter.changeCollection collection (fun _ _ => rfl) fun other hother => ?_
          obtain ⟨hnodup, hknown⟩ := h.gathered collection other (hcollections ▸ hother)
          refine ⟨List.nodup_append.mpr
            ⟨hnodup, hfresh.rising.imp Nat.ne_of_lt, fun old hold new hnew hsame => ?_⟩,
            fun id hid => ?_⟩
          · have hlt := hknown old hold
            exact absurd (hfresh.new new hnew) (Nat.not_le.mpr (hsame ▸ hlt))
          · rcases List.mem_append.mp hid with hold | hnew
            · exact (hafter.gathered collection other hother).2 id hold
            · exact hfresh.known id hnew
        exact hfilled.trans (.foldl tends_holdComponent _ found)

/-- A fragment is mounted in the root scope. -/
theorem goesOn_beginMount (hroot : page.scopes.isAlive rootScope = true) (roots : List NodeId) :
    GoesOn .mount page [] ((page.beginMount roots).1, (page.beginMount roots).2.2) := by
  have hheld : Tends page (roots.foldl holdNode page) := .foldl tends_holdNode page roots
  have halive : (roots.foldl holdNode page).scopes.isAlive rootScope = true := by
    rwa [(foldl_holdNode page roots).scopes]
  have hcreated := hheld.trans (tends_createCollection halive rootRegistry)
  rw [beginMount]
  generalize (roots.foldl holdNode page).createCollection rootScope rootRegistry = created
    at hcreated ⊢
  obtain ⟨created, collection⟩ := created
  have hextracted := hcreated.trans (tends_extract created collection roots)
  dsimp only at hextracted ⊢
  generalize created.extract collection roots = extracted at hextracted ⊢
  obtain ⟨after, error | size⟩ := extracted
  · exact .finished ((hextracted.trans (tends_releaseCollection _ _)).trans
      (.foldl tends_releaseNode _ roots))
  · exact .then hextracted (goesOn_closeMount (goesOn_beginRun after collection) collection roots size)

end Page

end ReactiveMarkup
