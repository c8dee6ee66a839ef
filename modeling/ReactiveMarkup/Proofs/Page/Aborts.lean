import ReactiveMarkup.Page.Run
import ReactiveMarkup.Proofs.Markup.Leaves
import ReactiveMarkup.Proofs.Page.Gathering

/-!
# Extractions that fail

An extraction that fails keeps none of its components, so the collection has those it had before. It does not
put back what commands took out of the markup before the error, the one that failed included. This is all that
is missing then: the nodes the extraction came to, and those it did not come to, are what they were, and have
the children they had, in their order, apart from the parts of commands. Where no command has a part the markup
is as it was, and extracting again finds what the first time would have found.
-/

namespace ReactiveMarkup

namespace Extraction

/-- The keyword of an element with a command. -/
def keyword? (options : Options) (markup : Markup) (node : NodeId) : Option String :=
  ((markup.kind node).attributes.find? fun entry => Unicode.sameName entry.1 options.commandAttribute).map fun entry =>
    Text.trim entry.2

/-- A node an extraction comes to: it is a root, or a child of an element without a command. -/
inductive Comes (options : Options) (markup : Markup) (roots : List NodeId) : NodeId → Prop
  | root {node : NodeId} (among : node ∈ roots) : Comes options markup roots node
  | child {node child : NodeId} (above : Comes options markup roots node)
    (element : (markup.kind node).tag?.isSome = true) (plain : keyword? options markup node = none)
    (below : child ∈ markup.children node) : Comes options markup roots child

/-- A part that a command takes out, if an extraction comes to the element of the command. -/
def Takes (page : Page) (registry : RegistryId) (roots : List NodeId) (node part : NodeId) : Prop :=
  Comes page.options page.markup roots node ∧ part ∈ page.markup.children node ∧
    ∃ keyword command, keyword? page.options page.markup node = some keyword ∧
      page.registries.resolve? registry keyword = some command ∧
      command.takes (page.markup.kind part) = true

/-! ## What an extraction leaves -/

/-- A page that an extraction has come to from another one. -/
structure Left (origin : Page) (registry : RegistryId) (roots : List NodeId) (page : Page) : Prop where
  same : page =
    { origin with markup := page.markup, components := page.components, log := page.log }
  saves : Markup.Saves (Takes origin registry roots) origin.markup page.markup

/-- An extraction keeps something that holds of the page, also when it fails. -/
def Upholds {α : Type} (holds : Page → Prop) (extraction : Extraction α) : Prop :=
  ∀ page, holds page → holds (extraction.run page).2

section

variable {α β : Type} {holds : Page → Prop}

theorem Upholds.pure (result : α) : Upholds holds (Pure.pure result) := fun _ h => h

theorem Upholds.throw (error : Error) : Upholds holds (throw error : Extraction α) := fun _ h => h

theorem Upholds.bind {first : Extraction α} {next : α → Extraction β} (h : Upholds holds first)
    (hnext : ∀ result, Upholds holds (next result)) : Upholds holds (first >>= next) := by
  intro page hpage
  have hfirst := h page hpage
  rw [run_bind]
  generalize first.run page = reached at hfirst ⊢
  obtain ⟨result | result, middle⟩ := reached
  · exact hfirst
  · exact hnext result middle hfirst

theorem Upholds.read {next : Page → Extraction α} (h : ∀ page, holds page → Upholds holds (next page)) :
    Upholds holds (MonadState.get >>= next) := fun page hpage => by
  have hget : (MonadState.get : Extraction Page).run page = (.ok page, page) := rfl
  rw [run_bind, hget]
  exact h page hpage page hpage

theorem Upholds.ofExcept (made : Except Error α) : Upholds holds (Extraction.ofExcept made) := by
  cases made with
  | ok result => exact .pure result
  | error error => exact .throw error

theorem Upholds.mapM {f : α → Extraction β} {items : List α} (hf : ∀ item ∈ items, Upholds holds (f item)) :
    Upholds holds (items.mapM f) := by
  induction items with
  | nil =>
      rw [List.mapM_nil]
      exact .pure _
  | cons item rest ih =>
      rw [List.mapM_cons]
      exact (hf item List.mem_cons_self).bind fun first =>
        (ih fun other hother => hf other (List.mem_cons_of_mem _ hother)).bind fun others => .pure _

end

section

variable {origin page : Page} {registry : RegistryId} {roots : List NodeId} {scope : ScopeId} {node : NodeId}

theorem Left.make (cell : Component) : Upholds (Left origin registry roots) (make cell) := fun page h => by
  refine ⟨?_, h.saves⟩
  have hsame := h.same
  rw [hsame]
  rfl

theorem Left.record (event : Event) :
    Upholds (Left origin registry roots) (modify (·.record event) : Extraction Unit) := fun page h => by
  refine ⟨?_, h.saves⟩
  have hsame := h.same
  rw [hsame]
  rfl

theorem Left.reading {α : Type} {reading : Reading α}
    (h : reading.Upholds (Markup.Saves (Takes origin registry roots) origin.markup)) :
    Upholds (Left origin registry roots) (Extraction.reading reading) := fun page hpage => by
  rw [snd_run_reading]
  refine ⟨?_, h page.markup hpage.saves⟩
  have hsame := hpage.same
  rw [hsame]

/-- An element was there from the beginning, and is what it was. -/
theorem Left.element (h : Left origin registry roots page)
    (hnode : Comes origin.options origin.markup roots node ∨ origin.markup.size ≤ node) {tag : String}
    {entries : List (String × String)} (hkind : page.markup.kind node = .element tag entries) :
    Comes origin.options origin.markup roots node ∧ origin.markup.kind node = .element tag entries ∧
      keyword? origin.options origin.markup node =
        (entries.find? fun entry => Unicode.sameName entry.1 page.options.commandAttribute).map fun entry =>
          Text.trim entry.2 := by
  have hold : node < origin.markup.size := by
    by_contra hge
    have htag := h.saves.tag?_of_le (Nat.le_of_not_lt hge)
    rw [hkind] at htag
    cases htag
  have horigin : origin.markup.kind node = .element tag entries :=
    (h.saves.thins.kind node hold).symm.trans hkind
  have hoptions : page.options = origin.options := by rw [h.same]
  refine ⟨hnode.resolve_right (Nat.not_le.mpr hold), horigin, ?_⟩
  rw [keyword?, horigin, hoptions]
  rfl

/-- A component nobody has worked with; a wrapper is one the extraction comes to. -/
structure Untouched (origin : Page) (roots : List NodeId) (cell : Component) : Prop where
  idle : cell.inFlight = 0
  kept : cell.disposed = false
  comes : cell.behaviour = .wrapper → Comes origin.options origin.markup roots cell.node

/-- Something that is kept by all an extraction does to a page: it makes components, tells events, and reads
commands. -/
structure Endures (origin : Page) (registry : RegistryId) (roots : List NodeId) (holds : Page → Prop) :
    Prop where
  left : ∀ page, holds page → Left origin registry roots page
  made : ∀ cell, Untouched origin roots cell → Upholds holds (make cell)
  told : ∀ event, Upholds holds (modify (·.record event) : Extraction Unit)
  read : ∀ {α : Type} (reading : Reading α),
    reading.Upholds (Markup.Saves (Takes origin registry roots) origin.markup) →
      (∀ kept, Markup.Lasting kept → reading.Upholds kept) → Upholds holds (Extraction.reading reading)

theorem Left.endures : Endures origin registry roots (Left origin registry roots) where
  left _ h := h
  made cell _ := Left.make cell
  told := Left.record
  read _ hsaves _ := Left.reading hsaves

namespace Endures

variable {holds : Page → Prop}

/-- A component that is no wrapper is made. -/
theorem other (h : Endures origin registry roots holds) {priority : Priority} {behaviour : Behaviour}
    (hbehaviour : behaviour ≠ .wrapper) :
    Upholds holds (Extraction.make { node, scope, priority, behaviour }) :=
  h.made _ ⟨rfl, rfl, fun hwrapper => absurd hwrapper hbehaviour⟩

theorem text (h : Endures origin registry roots holds) (content : String) :
    Upholds holds (text scope node content) := by
  rw [Extraction.text]
  refine .read fun page _ => ?_
  dsimp only
  split
  · exact (Upholds.ofExcept _).bind fun token => (h.other (by simp)).bind fun made => .pure _
  · exact .pure _

theorem attributes (h : Endures origin registry roots holds) (entries : List (String × String)) :
    Upholds holds (attributes scope node entries) := by
  induction entries with
  | nil => exact .pure _
  | cons entry rest ih =>
      obtain ⟨name, value⟩ := entry
      rw [Extraction.attributes]
      refine .read fun page _ => ?_
      dsimp only
      split
      · exact (Upholds.ofExcept _).bind fun token => (h.other (by simp)).bind fun made =>
          ih.bind fun others => .pure _
      · exact ih

theorem wrapper (h : Endures origin registry roots holds)
    (hcomes : Comes origin.options origin.markup roots node) (tag : String) :
    Upholds holds (wrapper scope node tag) := by
  rw [Extraction.wrapper]
  refine .read fun page _ => ?_
  split
  · exact (h.made _ ⟨rfl, rfl, fun _ => hcomes⟩).bind fun made => .pure _
  · exact .pure _

/-- A command takes its parts out. -/
theorem command (h : Endures origin registry roots holds) (hlinked : origin.markup.Linked)
    (hcomes : Comes origin.options origin.markup roots node) {keyword : String}
    (hkeyword : keyword? origin.options origin.markup node = some keyword) :
    Upholds holds (command scope registry keyword node) := by
  have howns : ∀ {command : Command}, origin.registries.resolve? registry keyword = some command →
      Owns (Takes origin registry roots) origin.markup node command :=
    fun hcommand child hchild htakes => ⟨hcomes, hchild, keyword, _, hkeyword, hcommand, htakes⟩
  rw [Extraction.command]
  refine .read fun page hpage => ?_
  have hregistries : page.registries = origin.registries := by rw [(h.left page hpage).same]
  rw [hregistries]
  split
  · exact .throw _
  · next hcommand =>
      exact (h.read _ (upholds_readLoad hlinked (howns hcommand) _ _ _) fun _ hkept =>
        LoadCommand.upholds_read hkept _ _ _ _).bind fun _ => h.other (by simp)
  · next hcommand =>
      exact (h.read _ (upholds_readShow hlinked (howns hcommand) _) fun _ hkept =>
        ShowCommand.upholds_read hkept _ _ _).bind fun _ => h.other (by simp)
  · exact h.made _ ⟨rfl, rfl, fun _ => hcomes⟩
  · exact (h.told _).bind fun _ => h.other (by simp)

theorem nodeTo (h : Endures origin registry roots holds) (hlinked : origin.markup.Linked) (depth : Nat)
    (node : NodeId) (hnode : Comes origin.options origin.markup roots node ∨ origin.markup.size ≤ node) :
    Upholds holds (nodeTo scope registry depth node) := by
  induction depth generalizing node with
  | zero => exact .pure _
  | succ depth ih =>
      rw [Extraction.nodeTo]
      refine .read fun page hpage => ?_
      have hleft := h.left page hpage
      split
      · exact h.text _
      · next tag entries hkind =>
          obtain ⟨hcomes, horigin, hkeyword⟩ := hleft.element hnode hkind
          split
          · next name value hfound =>
              rw [hfound] at hkeyword
              exact (h.command hlinked hcomes hkeyword).bind fun _ => .pure _
          · next hnone =>
              rw [hnone] at hkeyword
              refine (h.attributes _).bind fun _ => (h.wrapper hcomes _).bind fun _ => ?_
              refine (Upholds.mapM fun child hchild => ih child ?_).bind fun _ => .pure _
              exact (hleft.saves.among hchild).imp_left fun hin => .child hcomes (by rw [horigin]; rfl) hkeyword hin
      · exact .pure _
      · exact .pure _

theorem nodes (h : Endures origin registry roots holds) (hlinked : origin.markup.Linked) :
    Upholds holds (nodes scope registry roots) := by
  rw [Extraction.nodes]
  refine .read fun page _ => ?_
  exact (Upholds.mapM fun root hroot => h.nodeTo hlinked _ root (.inl (.root hroot))).bind fun _ => .pure _

end Endures

theorem left_nodes (hlinked : origin.markup.Linked) :
    Left origin registry roots ((nodes scope registry roots).run origin).2 :=
  Left.endures.nodes hlinked origin ⟨rfl, .refl hlinked⟩

end

/-! ## Extracting again -/

/-- Two pages on which an extraction finds the same. Since they had so many components, the same components
were made on both. -/
structure Alike (start other : Nat) (first again : Page) : Prop where
  options : again.options = first.options
  patterns : again.patterns = first.patterns
  markup : again.markup = first.markup
  registries : again.registries = first.registries
  providers : again.providers = first.providers
  made : ∃ made, first.components.size = start + made ∧ again.components.size = other + made
  cells : ∀ index, first.components.get? (start + index) = again.components.get? (other + index)

/-- Two extractions that do the same on pages that are alike, but for the numbers of the components. A result
is `f`, given the number from which components are counted, of something that is the same for both. -/
def Agree {α β : Type} (f : Nat → β → α) (start other : Nat) (first again : Extraction α) : Prop :=
  ∀ page page', Alike start other page page' →
    Alike start other (first.run page).2 (again.run page').2 ∧
      ((∃ error, (first.run page).1 = .error error ∧ (again.run page').1 = .error error) ∨
        ∃ made, (first.run page).1 = .ok (f start made) ∧ (again.run page').1 = .ok (f other made))

section

variable {α β γ δ : Type} {f : Nat → β → α} {g : Nat → δ → γ} {start other : Nat} {scope : ScopeId}
  {registry : RegistryId} {node : NodeId}

theorem Agree.pure {result result' : α} (made : β) (h : result = f start made)
    (h' : result' = f other made) : Agree f start other (Pure.pure result) (Pure.pure result') := by
  subst h h'
  exact fun _ _ halike => ⟨halike, .inr ⟨made, rfl, rfl⟩⟩

theorem Agree.throw (error : Error) :
    Agree f start other (throw error : Extraction α) (throw error) :=
  fun _ _ h => ⟨h, .inl ⟨error, rfl, rfl⟩⟩

theorem Agree.bind {first again : Extraction α} {next next' : α → Extraction γ}
    (h : Agree f start other first again)
    (hnext : ∀ made, Agree g start other (next (f start made)) (next' (f other made))) :
    Agree g start other (first >>= next) (again >>= next') := by
  intro page page' halike
  have hfirst := h page page' halike
  rw [run_bind, run_bind]
  generalize first.run page = reached at hfirst ⊢
  generalize again.run page' = reached' at hfirst ⊢
  obtain ⟨result, middle⟩ := reached
  obtain ⟨result', middle'⟩ := reached'
  obtain ⟨hmiddle, ⟨error, rfl, rfl⟩ | ⟨made, rfl, rfl⟩⟩ := hfirst
  · exact ⟨hmiddle, .inl ⟨error, rfl, rfl⟩⟩
  · exact hnext made middle middle' hmiddle

theorem Agree.read {next next' : Page → Extraction α}
    (h : ∀ page page', Alike start other page page' → Agree f start other (next page) (next' page')) :
    Agree f start other (MonadState.get >>= next) (MonadState.get >>= next') := fun page page' halike => by
  have hget : ∀ page, (MonadState.get : Extraction Page).run page = (.ok page, page) := fun _ => rfl
  rw [run_bind, run_bind, hget, hget]
  exact h page page' halike page page' halike

theorem agree_ofExcept (made : Except Error α) :
    Agree (fun _ => id) start other (Extraction.ofExcept made) (Extraction.ofExcept made) := by
  cases made with
  | ok result => exact fun _ _ h => ⟨h, .inr ⟨result, rfl, rfl⟩⟩
  | error error => exact .throw error

theorem Agree.mapM {F F' : γ → Extraction α} {items : List γ}
    (hF : ∀ item ∈ items, Agree f start other (F item) (F' item)) :
    Agree (fun start (made : List β) => made.map (f start)) start other (items.mapM F)
      (items.mapM F') := by
  induction items with
  | nil =>
      rw [List.mapM_nil, List.mapM_nil]
      exact .pure [] rfl rfl
  | cons item rest ih =>
      rw [List.mapM_cons, List.mapM_cons]
      refine (hF item List.mem_cons_self).bind fun first => ?_
      refine (ih fun next hnext => hF next (List.mem_cons_of_mem _ hnext)).bind fun others => ?_
      exact .pure (first :: others) rfl rfl

/-- The number of a component, and those of several. -/
def number (start made : Nat) : ComponentId := start + made

def numbers (start : Nat) (made : List Nat) : List ComponentId := made.map (number start)

theorem agree_make (cell : Component) : Agree number start other (make cell) (make cell) := by
  intro page page' h
  obtain ⟨made, hsize, hsize'⟩ := h.made
  have hrun : ∀ page : Page, (make cell).run page =
      (.ok page.components.size, { page with components := page.components.push cell }) := fun _ => rfl
  rw [hrun, hrun]
  refine ⟨{ h with made := ⟨made + 1, ?_, ?_⟩, cells := fun index => ?_ }, .inr ⟨made, ?_, ?_⟩⟩
  · rw [Arena.size_push, hsize, Nat.add_assoc]
  · rw [Arena.size_push, hsize', Nat.add_assoc]
  · rw [Arena.get?_push, Arena.get?_push, hsize, hsize', h.cells]
    simp only [Nat.add_left_cancel_iff]
  · rw [hsize, number]
  · rw [hsize', number]

theorem agree_record (event event' : Event) :
    Agree (fun _ => id) start other (modify (·.record event) : Extraction Unit)
      (modify (·.record event')) :=
  fun _ _ h => ⟨{ h with }, .inr ⟨(), rfl, rfl⟩⟩

theorem agree_reading (reading : Reading α) :
    Agree (fun _ => id) start other (Extraction.reading reading) (Extraction.reading reading) := by
  refine Agree.read fun page page' halike => ?_
  rw [halike.markup]
  obtain ⟨result, markup⟩ := reading.run page.markup
  have hset : Agree (fun _ => id) start other (set { page with markup } : Extraction PUnit)
      (set { page' with markup }) := fun _ _ _ => ⟨{ halike with markup := rfl }, .inr ⟨(), rfl, rfl⟩⟩
  exact hset.bind fun _ => agree_ofExcept result

theorem agree_command (keyword : String) : Agree number start other
    (command scope registry keyword node) (command scope registry keyword node) := by
  rw [command]
  refine .read fun page page' halike => ?_
  rw [halike.registries, halike.options, halike.patterns, halike.providers, halike.markup]
  split
  · exact .throw _
  · exact (agree_reading _).bind fun _ => agree_make _
  · exact (agree_reading _).bind fun _ => agree_make _
  · exact agree_make _
  · exact (agree_record _ _).bind fun _ => agree_make _

theorem agree_text (content : String) :
    Agree numbers start other (text scope node content) (text scope node content) := by
  rw [text]
  refine .read fun page page' halike => ?_
  rw [halike.patterns]
  dsimp only
  split
  · exact (agree_ofExcept _).bind fun _ => (agree_make _).bind fun made => .pure [made] rfl rfl
  · exact .pure [] rfl rfl

theorem agree_attributes (entries : List (String × String)) :
    Agree numbers start other (attributes scope node entries) (attributes scope node entries) := by
  induction entries with
  | nil => exact .pure [] rfl rfl
  | cons entry rest ih =>
      obtain ⟨name, value⟩ := entry
      rw [attributes]
      refine .read fun page page' halike => ?_
      rw [halike.patterns]
      dsimp only
      split
      · exact (agree_ofExcept _).bind fun _ => (agree_make _).bind fun made =>
          ih.bind fun others => .pure (made :: others) rfl rfl
      · exact ih

theorem agree_wrapper (tag : String) :
    Agree numbers start other (wrapper scope node tag) (wrapper scope node tag) := by
  rw [wrapper]
  refine .read fun page page' halike => ?_
  rw [halike.options]
  split
  · exact (agree_make _).bind fun made => .pure [made] rfl rfl
  · exact .pure [] rfl rfl

theorem numbers_flatten (start : Nat) (made : List (List Nat)) :
    (made.map (numbers start)).flatten = numbers start made.flatten := by
  rw [numbers, List.map_flatten]
  rfl

theorem agree_nodeTo (depth : Nat) (node : NodeId) : Agree numbers start other
    (nodeTo scope registry depth node) (nodeTo scope registry depth node) := by
  induction depth generalizing node with
  | zero => exact .pure [] rfl rfl
  | succ depth ih =>
      rw [nodeTo]
      refine .read fun page page' halike => ?_
      rw [halike.markup, halike.options]
      split
      · exact agree_text _
      · split
        · exact (agree_command _).bind fun made => .pure [made] rfl rfl
        · refine (agree_attributes _).bind fun bound => (agree_wrapper _).bind fun wrapping => ?_
          refine (Agree.mapM fun child _ => ih child).bind fun inner => ?_
          refine .pure (bound ++ wrapping ++ inner.flatten) ?_ ?_ <;>
            rw [numbers_flatten, numbers, numbers, numbers, numbers, List.map_append, List.map_append]
      · exact .pure [] rfl rfl
      · exact .pure [] rfl rfl

theorem agree_nodes (roots : List NodeId) : Agree numbers start other
    (nodes scope registry roots) (nodes scope registry roots) := by
  rw [nodes]
  refine .read fun page page' halike => ?_
  rw [halike.markup]
  refine (Agree.mapM fun root _ => agree_nodeTo _ root).bind fun made => ?_
  exact .pure made.flatten (numbers_flatten _ made) (numbers_flatten _ made)

end

/-- What an extraction gives: the components it makes, and the markup it leaves. -/
def harvest (scope : ScopeId) (registry : RegistryId) (roots : List NodeId) (page : Page) :
    Except Error (List (Option Component)) × Markup :=
  let reached := (nodes scope registry roots).run page
  (reached.1.map fun found => found.map reached.2.components.get?, reached.2.markup)

/-- What an extraction gives depends on no components there are. -/
theorem harvest_congr {page again : Page} (hoptions : again.options = page.options)
    (hpatterns : again.patterns = page.patterns) (hmarkup : again.markup = page.markup)
    (hregistries : again.registries = page.registries) (hproviders : again.providers = page.providers)
    (scope : ScopeId) (registry : RegistryId) (roots : List NodeId) :
    harvest scope registry roots again = harvest scope registry roots page := by
  have hnone : ∀ (page : Page) index, page.components.get? (page.components.size + index) = none :=
    fun page index => Array.getElem?_eq_none (Nat.le_add_right _ _)
  have halike : Alike page.components.size again.components.size page again :=
    ⟨hoptions, hpatterns, hmarkup, hregistries, hproviders, ⟨0, rfl, rfl⟩, fun index => by
      rw [hnone, hnone]⟩
  obtain ⟨hreached, hresults⟩ := @agree_nodes _ _ scope registry roots page again halike
  rw [harvest, harvest, hreached.markup]
  obtain ⟨error, herror, herror'⟩ | ⟨made, hmade, hmade'⟩ := hresults
  · rw [herror, herror']
    rfl
  · have hcells : (numbers again.components.size made).map
        ((nodes scope registry roots).run again).2.components.get? =
        (numbers page.components.size made).map
          ((nodes scope registry roots).run page).2.components.get? := by
      rw [numbers, numbers, List.map_map, List.map_map]
      exact List.map_congr_left fun index _ => (hreached.cells index).symm
    rw [hmade, hmade', Except.map, Except.map, hcells]

end Extraction

namespace Page

open Extraction (Takes Left harvest)

/-- An extraction of some roots fails, on its own or as the first step of a mount: the registry in which it
looks commands up, and the page it leaves. -/
inductive FailsToExtract (roots : List NodeId) (page : Page) : RegistryId → Page → Prop
  | extract {id : CollectionId} {cell : Collection} {after : Page} {error : Error}
    (there : page.collections.get? id = some cell)
    (fails : page.extract id roots = (after, .error error)) :
    FailsToExtract roots page cell.registry after
  | mount {after : Page} {error : Error}
    (fails : (((roots.foldl holdNode page).createCollection rootScope rootRegistry).1.extract
      ((roots.foldl holdNode page).createCollection rootScope rootRegistry).2 roots) =
        (after, .error error)) :
    FailsToExtract roots page rootRegistry (page.beginMount roots).1

variable {page after : Page} {roots : List NodeId} {registry : RegistryId}

theorem foldl_holdNode_eq (page : Page) (nodes : List NodeId) :
    nodes.foldl holdNode page = { page with heldNodes := nodes.reverse ++ page.heldNodes } := by
  induction nodes generalizing page with
  | nil => rfl
  | cons node rest ih =>
      rw [List.foldl_cons, ih, List.reverse_cons, List.append_assoc]
      rfl

theorem foldl_releaseNode_eq (page : Page) (nodes : List NodeId) : nodes.foldl releaseNode page =
    { page with heldNodes := (nodes.foldl releaseNode page).heldNodes } := by
  induction nodes generalizing page with
  | nil => rfl
  | cons node rest ih =>
      rw [List.foldl_cons, ih]
      rfl

theorem foldl_releaseComponent_eq (page : Page) (components : List ComponentId) :
    components.foldl releaseComponent page =
      { page with heldComponents := (components.foldl releaseComponent page).heldComponents } := by
  induction components generalizing page with
  | nil => rfl
  | cons component rest ih =>
      rw [List.foldl_cons, ih]
      rfl

/-- Letting go of a collection touches nothing but holds and scopes. -/
theorem releaseCollection_eq (page : Page) (id : CollectionId) : page.releaseCollection id =
    { page with
      scopes := (page.releaseCollection id).scopes
      heldComponents := (page.releaseCollection id).heldComponents
      heldCollections := (page.releaseCollection id).heldCollections } := by
  rw [releaseCollection]
  dsimp only
  split
  · rfl
  · split
    · rw [foldl_releaseComponent_eq]
      rfl
    · rfl

/-- What an extraction that fails leaves of a page. -/
structure Salvages (roots : List NodeId) (registry : RegistryId) (page after : Page) : Prop where
  saves : Markup.Saves (Takes page registry roots) page.markup after.markup
  options : after.options = page.options
  patterns : after.patterns = page.patterns
  registries : after.registries = page.registries
  providers : after.providers = page.providers
  collections : ∀ id cell, page.collections.get? id = some cell → after.collections.get? id = some cell

theorem salvages_extract {id : CollectionId} {cell : Collection} {error : Error}
    (hlinked : page.markup.Linked) (hthere : page.collections.get? id = some cell)
    (hfails : page.extract id roots = (after, .error error)) :
    Salvages roots cell.registry page after := by
  rw [Page.extract, hthere] at hfails
  dsimp only at hfails
  have hleft : Left page cell.registry roots
      ((Extraction.nodes cell.scope cell.registry roots).run page).2 := Extraction.left_nodes hlinked
  generalize (Extraction.nodes cell.scope cell.registry roots).run page = reached at hfails hleft
  obtain ⟨result | found, left⟩ := reached
  · obtain rfl := (Prod.mk.inj hfails).1
    obtain ⟨hsame, hsaves⟩ := hleft
    dsimp only at hsame hsaves
    refine ⟨hsaves, ?_, ?_, ?_, ?_, fun id cell hcell => ?_⟩ <;> rw [hsame]
    exact hcell
  · cases (Prod.mk.inj hfails).2

theorem FailsToExtract.salvages (h : page.FailsToExtract roots registry after)
    (hlinked : page.markup.Linked) : Salvages roots registry page after := by
  cases h with
  | extract there fails => exact salvages_extract hlinked there fails
  | @mount left error fails =>
      rw [foldl_holdNode_eq] at fails
      have hthere : (page.collections.push { scope := rootScope, registry := rootRegistry }).get?
          page.collections.size = some { scope := rootScope, registry := rootRegistry } := by
        rw [Arena.get?_push, if_pos rfl]
      have hold : ∀ id cell, page.collections.get? id = some cell → (page.collections.push
          { scope := rootScope, registry := rootRegistry }).get? id = some cell := by
        intro id cell hcell
        have hlt : id < page.collections.size := (Array.getElem?_eq_some_iff.mp hcell).1
        rw [Arena.get?_push, if_neg (Nat.ne_of_lt hlt), hcell]
      have hleft := salvages_extract (by exact hlinked) hthere fails
      have hafter : (page.beginMount roots).1 = roots.foldl releaseNode
          (left.releaseCollection page.collections.size) := by
        rw [beginMount, foldl_holdNode_eq]
        generalize hmade : ({ page with heldNodes := roots.reverse ++ page.heldNodes } :
          Page).createCollection rootScope rootRegistry = made at fails
        obtain ⟨made, id⟩ := made
        obtain rfl : page.collections.size = id := congrArg Prod.snd hmade
        dsimp only at fails ⊢
        rw [fails]
      rw [hafter, foldl_releaseNode_eq, releaseCollection_eq]
      exact ⟨hleft.saves, hleft.options, hleft.patterns, hleft.registries, hleft.providers,
        fun id cell hcell => hleft.collections id cell (hold id cell hcell)⟩

/-- A root, a list, a face and an element with a command. -/
def pieces (keyword : String) : Markup :=
  ((((Markup.create .empty (.element "div" [])).1.create
    (.element "ul" [("core", "list"), ("source", "db.items")])).1.create (.element "face" [])).1.create
      (.element "p" [("core", keyword)])).1

/-- The list has the face, and stands next to the other element. -/
def listBeside (keyword : String) : Markup :=
  (((pieces keyword).append 1 2).append 0 1).append 0 3

/-- A page with some markup and a collection. -/
def holding (markup : Markup) (page : Page) : Page :=
  (createCollection { page with markup } rootScope rootRegistry).1

/-- Whether extracting from the first node fails, and something holds of the page that is left. -/
def failsWith (test : Page → Bool) (markup : Markup) (page : Page) : Bool :=
  match (holding markup page).extract page.collections.size [0] with
  | (after, .error _) => test after
  | _ => false

theorem fails_of_failsWith {test : Page → Bool} {markup : Markup}
    (h : ((Page.ofOptions {}).toOption.any (failsWith test markup)) = true) :
    ∃ page after error, Page.ofOptions {} = .ok page ∧
      (holding markup page).extract page.collections.size [0] = (after, .error error) ∧ test after = true := by
  cases hpage : Page.ofOptions {} with
  | error error =>
      rw [hpage] at h
      cases h
  | ok page =>
      rw [hpage, Except.toOption, Option.any_some] at h
      unfold failsWith at h
      split at h
      · next after error hfails => exact ⟨page, after, error, rfl, hfails, h⟩
      · cases h

theorem collections_holding (markup : Markup) (page : Page) :
    (holding markup page).collections.get? page.collections.size =
      some { scope := rootScope, registry := rootRegistry } := by
  change (page.collections.push { scope := rootScope, registry := rootRegistry }).get?
    page.collections.size = _
  rw [Arena.get?_push, if_pos rfl]

/-- A command that is not known, and nothing else. -/
def unknown : Markup := (Markup.create .empty (.element "div" [("core", "nope")])).1

end Page

end ReactiveMarkup
