import ReactiveMarkup.Proofs.Markup.Unwrapping
import ReactiveMarkup.Proofs.Page.Aborts
import ReactiveMarkup.Proofs.Page.Mounts
import ReactiveMarkup.Proofs.Page.Renders

/-!
# Wrappers

An extraction makes a component for every wrapper it comes to, and each of them is rendered once, in
whatever order. A render unwraps the wrapper if it has a parent that lives. While some of the wrappers
are unwrapped and others are not, the fragment stands as it would stand without the former, so by the
end it stands without any of them.

A wrapper among the tops of the fragment has no parent and stays. The tops are held by whoever looks at
the fragment, so every parent in it lives.
-/

namespace ReactiveMarkup

open Plot

namespace Extraction

/-! ## Where components are made -/

variable {origin page : Page} {registry : RegistryId} {roots : List NodeId} {scope : ScopeId}
  {node : NodeId}

/-- What an extraction has made of a page so far, and what it has made of the fragment. -/
structure Placed (origin : Page) (registry : RegistryId) (roots : List NodeId) (page : Page) : Prop where
  left : Left origin registry roots page
  barren : page.markup.Barren origin.markup.size
  cells : ∀ id cell, origin.components.size ≤ id → page.components.get? id = some cell →
    Untouched origin roots cell

theorem Placed.refl (hlinked : page.markup.Linked) : Placed page registry roots page where
  left := ⟨rfl, .refl hlinked⟩
  barren := .refl page.markup
  cells _ _ hle hcell := absurd (Array.getElem?_eq_some_iff.mp hcell).1 (Nat.not_lt.mpr hle)

theorem Placed.endures : Endures origin registry roots (Placed origin registry roots) where
  left _ h := h.left
  made cell hcell := fun page h => by
    refine ⟨Left.make cell page h.left, h.barren, fun id made hle hmade => ?_⟩
    change (page.components.push cell).get? id = some made at hmade
    rw [Arena.get?_push] at hmade
    split at hmade
    · exact Option.some.inj hmade ▸ hcell
    · exact h.cells id made hle hmade
  told event page h := ⟨Left.record event page h.left, h.barren, h.cells⟩
  read reading hsaves hlasting := fun page h => by
    have hleft := Left.reading hsaves page h.left
    rw [snd_run_reading] at hleft ⊢
    exact ⟨hleft, hlasting _ (Markup.lasting_barren _) page.markup h.barren, h.cells⟩

theorem placed_nodes (hlinked : origin.markup.Linked) :
    Placed origin registry roots ((nodes scope registry roots).run origin).2 :=
  Placed.endures.nodes hlinked origin (.refl hlinked)

/-- An extraction from roots without parents comes to no part of a command. -/
theorem Comes.not_inPart {options : Options} {markup : Markup} {parts : NodeId → NodeId → Prop}
    (hlinked : markup.Linked) (hroots : ∀ root ∈ roots, markup.parent? root = none)
    (hparts : ∀ command part, parts command part →
      part ∈ markup.children command ∧ (keyword? options markup command).isSome = true)
    (h : Comes options markup roots node) : ¬markup.InPart parts node := by
  induction h with
  | root among =>
      rintro ⟨command, part, hpart, hbelow⟩
      have hout := hlinked.not_mem (hroots _ among)
      rcases hbelow.cases_tail with hsame | ⟨above, -, hchild⟩
      · exact hout command (hsame ▸ (hparts command part hpart).1)
      · exact hout above hchild
  | @child above child _ _ hplain hin ih =>
      rintro ⟨command, part, hpart, hbelow⟩
      obtain ⟨hpartIn, hkeyword⟩ := hparts command part hpart
      rcases hbelow.cases_tail with hsame | ⟨other, hother, hchild⟩
      · have habove : above = command := hlinked.parent_unique hin (hsame ▸ hpartIn)
        rw [← habove, hplain] at hkeyword
        cases hkeyword
      · exact ih ⟨command, part, hpart, hlinked.parent_unique hchild hin ▸ hother⟩

/-- What an extraction comes to stays below the roots. -/
theorem Comes.mem_idsIn (hlinked : origin.markup.Linked)
    (hroots : ∀ root ∈ roots, origin.markup.parent? root = none)
    (hplaced : Placed origin registry roots page) {trees : List Plot}
    (hgarden : Garden page.markup trees) (hwhole : AreWhole trees) (htops : trees.map Plot.root = roots)
    (h : Comes origin.options origin.markup roots node) : node ∈ idsIn trees := by
  have hparts : ∀ command part, Takes origin registry roots command part →
      part ∈ origin.markup.children command ∧
        (keyword? origin.options origin.markup command).isSome = true :=
    fun command part ⟨_, hin, keyword, _, hkeyword, _⟩ => ⟨hin, by rw [hkeyword]; rfl⟩
  induction h with
  | root among => exact roots_subset_idsIn trees (htops ▸ among)
  | @child above child habove helement hplain hin ih =>
      refine hgarden.children_subset hwhole ih ?_
      by_contra hlost
      have hpart := hplaced.left.saves.lost above (Markup.lt_size_of_mem_children hin)
        (habove.not_inPart hlinked hroots hparts) child hin hlost
      have hkeyword := (hparts above child hpart).2
      rw [hplain] at hkeyword
      cases hkeyword

end Extraction

namespace Page

/-- What an extraction that goes well leaves. -/
theorem extract_placed {page extracted : Page} {collection : CollectionId} {roots : List NodeId}
    {count : Nat} (hlinked : page.markup.Linked)
    (h : page.extract collection roots = (extracted, .ok count)) :
    ∃ registry placed, Extraction.Placed page registry roots placed ∧
      extracted.markup = placed.markup ∧ extracted.components = placed.components ∧
        extracted.heldNodes = page.heldNodes := by
  rw [extract] at h
  split at h
  · obtain rfl := (Prod.mk.inj h).1
    exact ⟨rootRegistry, page, .refl hlinked, rfl, rfl, rfl⟩
  · next cell _ =>
      have hplaced := @Extraction.placed_nodes page cell.registry roots cell.scope hlinked
      generalize (Extraction.nodes cell.scope cell.registry roots).run page = reached at h hplaced
      obtain ⟨error | found, placed⟩ := reached
      · cases h
      · replace hplaced : Extraction.Placed page cell.registry roots placed := hplaced
        have hheld : placed.heldNodes = page.heldNodes := by rw [hplaced.left.same]
        obtain rfl := (Prod.mk.inj h).1
        refine ⟨cell.registry, placed, hplaced, ?_, ?_, ?_⟩
        · rw [foldl_holdComponent]; rfl
        · rw [foldl_holdComponent]; rfl
        · rw [foldl_holdComponent]; exact hheld

/-! ## Nodes that live -/

/-- Above a node there is also the parent of whoever is above it. -/
theorem mem_nodesAbove_parent {markup : Markup} {height : Nat} {node above parent : NodeId}
    (h : above ∈ nodesAbove markup height node) (hparent : markup.parent? above = some parent) :
    parent ∈ nodesAbove markup (height + 1) node := by
  induction height generalizing node with
  | zero => cases h
  | succ height ih =>
      rw [nodesAbove] at h ⊢
      rcases List.mem_cons.mp h with rfl | hin
      · rw [hparent]
        exact List.mem_cons_of_mem _ List.mem_cons_self
      · refine List.mem_cons_of_mem _ ?_
        cases hnode : markup.parent? node with
        | none =>
            rw [hnode] at hin
            cases hin
        | some next =>
            rw [hnode] at hin
            exact ih hin

theorem nodesAbove_subset (markup : Markup) {height more : Nat} (hle : height ≤ more) (node : NodeId) :
    nodesAbove markup height node ⊆ nodesAbove markup more node := by
  induction height generalizing more node with
  | zero => exact List.nil_subset _
  | succ height ih =>
      obtain ⟨more, rfl⟩ : ∃ n, more = n + 1 := ⟨more - 1, by omega⟩
      rw [nodesAbove, nodesAbove]
      refine List.cons_subset_cons _ ?_
      cases markup.parent? node with
      | none => exact List.nil_subset _
      | some next => exact ih (Nat.le_of_succ_le_succ hle) next

mutual

/-- The top of a plot is above all its nodes. -/
theorem root_mem_nodesAbove {markup : Markup} (hlinked : markup.Linked) : ∀ {plot : Plot},
    Stands markup plot → ∀ id ∈ plot.ids, plot.root ∈ nodesAbove markup (plot.height + 1) id
  | .tree top kind children, h, id, hid => by
      rcases List.mem_cons.mp hid with rfl | hin
      · exact List.mem_cons_self
      · obtain ⟨child, hchild, habove⟩ := roots_mem_nodesAbove hlinked h.2.2.2 id hin
        refine mem_nodesAbove_parent habove ((hlinked.mem_iff top child.root).mp ?_)
        rw [h.2.2.1]
        exact List.mem_map_of_mem hchild
  | .gap top kind, _, id, hid => by
      rw [ids, List.mem_singleton] at hid
      rw [hid]
      exact List.mem_cons_self

theorem roots_mem_nodesAbove {markup : Markup} (hlinked : markup.Linked) : ∀ {plots : List Plot},
    StandAll markup plots → ∀ id ∈ idsIn plots,
      ∃ plot ∈ plots, plot.root ∈ nodesAbove markup (heightIn plots) id
  | plot :: rest, h, id, hid => by
      rw [heightIn]
      rcases List.mem_append.mp hid with hin | hin
      · exact ⟨plot, List.mem_cons_self, nodesAbove_subset markup (Nat.le_max_left _ _) id
          (root_mem_nodesAbove hlinked h.1 id hin)⟩
      · obtain ⟨found, hfound, habove⟩ := roots_mem_nodesAbove hlinked h.2 id hin
        exact ⟨found, List.mem_cons_of_mem _ hfound,
          nodesAbove_subset markup (Nat.le_max_right _ _) id habove⟩

end

theorem isNodeAlive_of_held {page : Page} {node top : NodeId} (hheld : top ∈ page.heldNodes)
    (habove : top ∈ nodesAbove page.markup page.markup.size node) : page.isNodeAlive node = true := by
  rw [isNodeAlive, List.any_eq_true]
  exact ⟨top, habove, List.contains_iff_mem.mpr (List.mem_append_left _ hheld)⟩

/-- A parent in trees whose tops have none is below one of the tops. -/
theorem exists_top_above {markup : Markup} {trees : List Plot} {node parent : NodeId}
    (hgarden : Garden markup trees) (hlinked : markup.Linked)
    (htops : ∀ top ∈ trees.map root, markup.parent? top = none) (hnode : node ∈ idsIn trees)
    (hparent : markup.parent? node = some parent) :
    ∃ top ∈ trees.map root, top ∈ nodesAbove markup markup.size parent := by
  obtain ⟨tree, htree, habove⟩ := roots_mem_nodesAbove hlinked hgarden.stands node hnode
  refine ⟨tree.root, List.mem_map_of_mem htree, ?_⟩
  have hhigher := nodesAbove_subset markup (Nat.le_succ_of_le hgarden.heightIn_le_size) node habove
  rw [nodesAbove, hparent] at hhigher
  rcases List.mem_cons.mp hhigher with hsame | hin
  · have hnone := htops tree.root (List.mem_map_of_mem htree)
    rw [hsame, hparent] at hnone
    cases hnone
  · exact hin

/-! ## Renders of wrappers -/

section

variable {page : Page} {id : ComponentId} {cell : Component}

/-- Whatever a wrapper does at once to the markup is all its render does. -/
theorem render_wrapper (hcell : page.components.get? id = some cell)
    (hwrapper : cell.behaviour = .wrapper) (hadmits : cell.admits = true) {f : Markup → Markup}
    (hnow : ∀ entered : Page, entered.markup = page.markup → entered.heldNodes = page.heldNodes →
      entered.renderNow id cell = (entered.changeMarkup f, .ok ())) (cause : Option Source) :
    page.render id cause = (page.changeMarkup f, .done) := by
  have hentered := hnow ((page.holdComponent id).changeComponent id fun cell =>
    { cell with inFlight := cell.inFlight + 1 }) rfl rfl
  rw [render, hcell]
  dsimp only
  rw [if_pos hadmits, beginRender, hwrapper]
  dsimp only
  rw [hentered]
  exact congrArg (·, Progress.done) (page.releaseTask_enter id f)

/-- A wrapper without a parent is left alone. -/
theorem render_free (hcell : page.components.get? id = some cell)
    (hwrapper : cell.behaviour = .wrapper) (hadmits : cell.admits = true)
    (hfree : page.markup.parent? cell.node = none) (cause : Option Source) :
    page.render id cause = (page, .done) := by
  refine render_wrapper (f := fun markup => markup) hcell hwrapper hadmits (fun entered hmarkup _ => ?_) cause
  rw [renderNow, hwrapper]
  dsimp only
  rw [hmarkup, hfree]
  rfl

/-- A wrapper is unwrapped, if a node above its parent is held. -/
theorem render_bound {parent top : NodeId} (hcell : page.components.get? id = some cell)
    (hwrapper : cell.behaviour = .wrapper) (hadmits : cell.admits = true)
    (hparent : page.markup.parent? cell.node = some parent) (hheld : top ∈ page.heldNodes)
    (habove : top ∈ nodesAbove page.markup page.markup.size parent) (cause : Option Source) :
    page.render id cause = (page.changeMarkup (·.unwrap parent cell.node), .done) := by
  refine render_wrapper hcell hwrapper hadmits (fun entered hmarkup hnodes => ?_) cause
  have halive : entered.isNodeAlive parent = true :=
    isNodeAlive_of_held (hnodes ▸ hheld) (hmarkup ▸ habove)
  rw [renderNow, hwrapper]
  dsimp only
  rw [hmarkup, hparent]
  dsimp only
  rw [if_pos halive]

end

/-! ## Rendering all of them -/

/-- The node of a component that is a wrapper. -/
def wrapper? (page : Page) (id : ComponentId) : Option NodeId :=
  (page.components.get? id).bind fun cell => match cell.behaviour with
    | .wrapper => some cell.node
    | _ => none

/-- The wrappers that were made since there were so many components. -/
def wrappersSince (page : Page) (start : Nat) : List ComponentId :=
  page.components.ids.filter fun id => start ≤ id && (page.wrapper? id).isSome

/-- Whether a node is one of some wrappers and has a parent. -/
def isWrapped (page : Page) (ids : List ComponentId) (node : NodeId) : Bool :=
  (page.markup.parent? node).isSome && ids.any fun id => page.wrapper? id == some node

/-- Renders components one after another, each for a cause of its own. -/
def renderAll (page : Page) (order : List (ComponentId × Option Source)) : Page :=
  order.foldl (fun page entry => (page.render entry.1 entry.2).1) page

theorem wrapper?_eq_some {page : Page} {id : ComponentId} {node : NodeId} :
    page.wrapper? id = some node ↔
      ∃ cell, page.components.get? id = some cell ∧ cell.behaviour = .wrapper ∧ cell.node = node := by
  rw [wrapper?, Option.bind_eq_some_iff]
  refine exists_congr fun cell => and_congr_right fun _ => ?_
  cases hbehaviour : cell.behaviour <;> simp

theorem isWrapped_append {page : Page} {id : ComponentId} {wrapper : NodeId}
    (hwrapper : page.wrapper? id = some wrapper) (ids : List ComponentId) (node : NodeId) :
    page.isWrapped (ids ++ [id]) node =
      (page.isWrapped ids node || (page.markup.parent? wrapper).isSome && node == wrapper) := by
  have hlast : ((page.markup.parent? node).isSome && page.wrapper? id == some node) =
      ((page.markup.parent? wrapper).isSome && node == wrapper) := by
    by_cases hnode : node = wrapper
    · rw [hnode, hwrapper, beq_self_eq_true, beq_self_eq_true]
    · have hother : some wrapper ≠ some node := fun hsame => hnode (Option.some.inj hsame).symm
      rw [hwrapper, beq_false_of_ne hother, beq_false_of_ne hnode, Bool.and_false, Bool.and_false]
  rw [isWrapped, List.any_append, List.any_cons, List.any_nil, Bool.or_false,
    Bool.and_or_distrib_left, hlast]
  rfl

/-- A wrapper of a fragment, as the extraction of the fragment has left it. -/
structure Wraps (extracted : Page) (trees : List Plot) (id : ComponentId) (cell : Component) : Prop where
  found : extracted.components.get? id = some cell
  wrapper : cell.behaviour = .wrapper
  admits : cell.admits = true
  inside : cell.node ∈ idsIn trees

/-- A page on which some wrappers of an extracted fragment are unwrapped. -/
structure Unwrapped (extracted : Page) (trees : List Plot) (done : List ComponentId) (page : Page) :
    Prop where
  same : page = { extracted with markup := page.markup }
  kind : ∀ node, page.markup.kind node = extracted.markup.kind node
  linked : page.markup.Linked
  garden : Garden page.markup (withoutIn (extracted.isWrapped done) trees)
  free : ∀ node, extracted.markup.parent? node = none ∨ extracted.isWrapped done node = true →
    page.markup.parent? node = none

/-- Tops without a parent are not taken out. -/
theorem roots_unwrapped {extracted : Page} {trees : List Plot}
    (htops : ∀ top ∈ trees.map root, extracted.markup.parent? top = none) (done : List ComponentId) :
    (withoutIn (extracted.isWrapped done) trees).map root = trees.map root :=
  roots_withoutIn fun tree htree => by
    rw [isWrapped, htops _ (List.mem_map_of_mem htree)]
    rfl

namespace Unwrapped

variable {extracted page : Page} {trees : List Plot} {done : List ComponentId} {id : ComponentId}
  {cell : Component} {parent : NodeId}

/-- Before any of them is rendered, none is unwrapped. -/
theorem start (hlinked : extracted.markup.Linked) (hgarden : Garden extracted.markup trees) :
    Unwrapped extracted trees [] extracted where
  same := rfl
  kind _ := rfl
  linked := hlinked
  garden := by
    rw [withoutIn_eq_self trees fun node _ => by rw [isWrapped, List.any_nil, Bool.and_false]]
    exact hgarden
  free node h := by
    rcases h with hnone | hwrapped
    · exact hnone
    · rw [isWrapped, List.any_nil, Bool.and_false] at hwrapped
      cases hwrapped

theorem get?_eq (h : Unwrapped extracted trees done page) (hwraps : Wraps extracted trees id cell) :
    page.components.get? id = some cell := by
  rw [h.same]
  exact hwraps.found

theorem stays {node : NodeId} (hnode : node ∈ idsIn trees)
    (hkept : extracted.isWrapped done node = false) :
    node ∈ idsIn (withoutIn (extracted.isWrapped done) trees) := by
  rw [idsIn_withoutIn, List.mem_filter, hkept]
  exact ⟨hnode, rfl⟩

/-- A node of the fragment that has lost its parent was unwrapped. -/
theorem isWrapped_of_free (h : Unwrapped extracted trees done page)
    (htops : ∀ top ∈ trees.map root, extracted.markup.parent? top = none) {node : NodeId}
    (hnode : node ∈ idsIn trees) (hfree : page.markup.parent? node = none)
    (hbound : (extracted.markup.parent? node).isSome = true) : extracted.isWrapped done node = true := by
  by_contra hkept
  have hin := stays hnode (Bool.eq_false_iff.mpr hkept)
  rcases h.garden.stands.exists_parent h.linked node hin with htop | ⟨above, -, habove⟩
  · rw [roots_unwrapped htops] at htop
    rw [htops _ htop] at hbound
    cases hbound
  · rw [hfree] at habove
    cases habove

/-- A node with a parent had one before, and was not unwrapped. -/
theorem kept_of_bound (h : Unwrapped extracted trees done page) {node : NodeId}
    (hparent : page.markup.parent? node = some parent) :
    (extracted.markup.parent? node).isSome = true ∧ extracted.isWrapped done node = false := by
  constructor
  · cases habove : extracted.markup.parent? node with
    | none => rw [h.free node (.inl habove)] at hparent; cases hparent
    | some above => rfl
  · by_contra hgone
    rw [h.free node (.inr (Bool.eq_true_of_not_eq_false hgone))] at hparent
    cases hparent

/-- A wrapper without a parent is a top, or it was unwrapped before. -/
theorem step_free (h : Unwrapped extracted trees done page)
    (htops : ∀ top ∈ trees.map root, extracted.markup.parent? top = none)
    (hwraps : Wraps extracted trees id cell) (hfree : page.markup.parent? cell.node = none) :
    Unwrapped extracted trees (done ++ [id]) page := by
  have hname : extracted.wrapper? id = some cell.node :=
    wrapper?_eq_some.mpr ⟨cell, hwraps.found, hwraps.wrapper, rfl⟩
  have hsame : extracted.isWrapped (done ++ [id]) = extracted.isWrapped done := by
    funext node
    rw [isWrapped_append hname]
    by_cases hnode : node = cell.node
    · subst hnode
      cases hbound : (extracted.markup.parent? cell.node).isSome with
      | true => rw [h.isWrapped_of_free htops hwraps.inside hfree hbound]; rfl
      | false => rw [Bool.false_and, Bool.or_false]
    · rw [beq_false_of_ne hnode, Bool.and_false, Bool.or_false]
  exact ⟨h.same, h.kind, h.linked, hsame ▸ h.garden, hsame ▸ h.free⟩

/-- A wrapper with a parent is unwrapped now. -/
theorem step_bound (h : Unwrapped extracted trees done page) (hwhole : AreWhole trees)
    (hwraps : Wraps extracted trees id cell) (hparent : page.markup.parent? cell.node = some parent) :
    Unwrapped extracted trees (done ++ [id]) (page.changeMarkup (·.unwrap parent cell.node)) := by
  obtain ⟨hbound, hkept⟩ := h.kept_of_bound hparent
  have hin := stays hwraps.inside hkept
  have hnow : extracted.isWrapped (done ++ [id]) = fun node =>
      extracted.isWrapped done node || node == cell.node := by
    funext node
    rw [isWrapped_append (wrapper?_eq_some.mpr ⟨cell, hwraps.found, hwraps.wrapper, rfl⟩), hbound,
      Bool.true_and]
  have hne := h.garden.parent_ne hwhole.withoutIn h.linked hin hparent
  refine ⟨?_, fun node => ?_, h.linked.unwrap hparent, ?_, fun node hfree => ?_⟩
  · rw [h.same]
    rfl
  · exact (Markup.kind_unwrap ..).trans (h.kind node)
  · rw [hnow, ← withoutIn_withoutIn]
    exact h.garden.unwrap hwhole.withoutIn h.linked hin hparent
  · refine h.linked.parent?_unwrap_eq_none hparent hne ?_
    rw [hnow, Bool.or_eq_true, beq_iff_eq] at hfree
    rcases hfree with hnone | hgone | hself
    · exact .inr (h.free node (.inl hnone))
    · exact .inr (h.free node (.inr hgone))
    · exact .inl hself

/-- One more wrapper is rendered. -/
theorem step (h : Unwrapped extracted trees done page) (hwhole : AreWhole trees)
    (htops : ∀ top ∈ trees.map root, extracted.markup.parent? top = none ∧ top ∈ extracted.heldNodes)
    (hwraps : Wraps extracted trees id cell) (cause : Option Source) :
    (page.render id cause).2 = .done ∧
      Unwrapped extracted trees (done ++ [id]) (page.render id cause).1 := by
  have hfree : ∀ top ∈ trees.map root, extracted.markup.parent? top = none :=
    fun top htop => (htops top htop).1
  have hheld : page.heldNodes = extracted.heldNodes := by rw [h.same]
  cases hparent : page.markup.parent? cell.node with
  | none =>
      rw [render_free (h.get?_eq hwraps) hwraps.wrapper hwraps.admits hparent cause]
      exact ⟨rfl, h.step_free hfree hwraps hparent⟩
  | some parent =>
      have hroots := roots_unwrapped hfree done
      obtain ⟨top, htop, habove⟩ := exists_top_above h.garden h.linked
        (fun top htop => h.free top (.inl (hfree top (hroots ▸ htop))))
        (stays hwraps.inside (h.kept_of_bound hparent).2) hparent
      rw [render_bound (h.get?_eq hwraps) hwraps.wrapper hwraps.admits hparent
        (hheld ▸ (htops top (hroots ▸ htop)).2) habove cause]
      exact ⟨rfl, h.step_bound hwhole hwraps hparent⟩

/-- A wrapper that was rendered is rendered again. -/
theorem again (h : Unwrapped extracted trees done page) (hwraps : Wraps extracted trees id cell)
    (hdone : id ∈ done) (cause : Option Source) : page.render id cause = (page, .done) := by
  refine render_free (h.get?_eq hwraps) hwraps.wrapper hwraps.admits (h.free cell.node ?_) cause
  cases hparent : extracted.markup.parent? cell.node with
  | none => exact .inl rfl
  | some parent =>
      refine .inr ?_
      rw [isWrapped, hparent, Option.isSome_some, Bool.true_and, List.any_eq_true]
      exact ⟨id, hdone, by
        rw [wrapper?_eq_some.mpr ⟨cell, hwraps.found, hwraps.wrapper, rfl⟩, beq_self_eq_true]⟩

/-- Wrappers are rendered in an order. -/
theorem run (hwhole : AreWhole trees)
    (htops : ∀ top ∈ trees.map root, extracted.markup.parent? top = none ∧ top ∈ extracted.heldNodes)
    {order : List (ComponentId × Option Source)}
    (horder : ∀ entry ∈ order, ∃ cell, Wraps extracted trees entry.1 cell)
    (h : Unwrapped extracted trees done page) :
    Unwrapped extracted trees (done ++ order.map Prod.fst) (page.renderAll order) := by
  induction order generalizing done page with
  | nil =>
      rw [List.map_nil, List.append_nil]
      exact h
  | cons entry rest ih =>
      obtain ⟨cell, hwraps⟩ := horder entry List.mem_cons_self
      have hstep := (h.step hwhole htops hwraps entry.2).2
      have hrest := ih (fun other hother => horder other (List.mem_cons_of_mem _ hother)) hstep
      rw [List.append_assoc] at hrest
      exact hrest

/-- Which wrappers are done matters, and not in which order. -/
theorem congr (h : Unwrapped extracted trees done page) {others : List ComponentId}
    (hsame : ∀ id, id ∈ done ↔ id ∈ others) : Unwrapped extracted trees others page := by
  have hwrapped : extracted.isWrapped done = extracted.isWrapped others := by
    funext node
    rw [isWrapped, isWrapped]
    congr 1
    rw [Bool.eq_iff_iff, List.any_eq_true, List.any_eq_true]
    exact exists_congr fun id => and_congr_left fun _ => hsame id
  exact ⟨h.same, h.kind, h.linked, hwrapped ▸ h.garden, hwrapped ▸ h.free⟩

end Unwrapped

/-- A fragment whose wrappers were all rendered, apart from the components the same page. -/
structure Stripped (extracted after : Page) (fragment : List Plot) (wrappers : List ComponentId) :
    Prop where
  same : after = { extracted with markup := after.markup }
  html : after.markup.html (fragment.map root) =
    Fragment.html (Shape.fragments (shapes (withoutIn (extracted.isWrapped wrappers) fragment)))
  pretty : ∀ indent, after.markup.prettyHtml indent (fragment.map root) = Fragment.prettyAll indent 0
    (Shape.fragments (shapes (withoutIn (extracted.isWrapped wrappers) fragment)))
  nodes : (fragment.map root).flatMap after.markup.nodes =
    ((fragment.map root).flatMap extracted.markup.nodes).filter fun node =>
      !extracted.isWrapped wrappers node
  once : ((fragment.map root).flatMap after.markup.nodes).Nodup
  kinds : ∀ node, after.markup.kind node = extracted.markup.kind node
  settled : ∀ id ∈ wrappers, ∀ cause, after.render id cause = (after, .done)

theorem Unwrapped.stripped {extracted page : Page} {trees : List Plot} {done : List ComponentId}
    (h : Unwrapped extracted trees done page) (hgarden : Garden extracted.markup trees)
    (hwhole : AreWhole trees) (htops : ∀ top ∈ trees.map root, extracted.markup.parent? top = none)
    (hwrappers : ∀ id ∈ done, ∃ cell, Wraps extracted trees id cell) :
    Stripped extracted page trees done := by
  have hroots := roots_unwrapped htops done
  have hnodes := h.garden.nodes_eq hwhole.withoutIn
  rw [hroots] at hnodes
  refine ⟨h.same, ?_, fun indent => ?_, ?_, ?_, h.kind, fun id hid cause => ?_⟩
  · rw [← hroots, h.garden.html_eq hwhole.withoutIn]
  · rw [← hroots, Markup.prettyHtml, h.garden.fragments_eq hwhole.withoutIn]
  · rw [hnodes, idsIn_withoutIn, hgarden.nodes_eq hwhole]
  · rw [hnodes]
    exact h.garden.apart
  · obtain ⟨cell, hwraps⟩ := hwrappers id hid
    exact h.again hwraps hid cause

/-- A wrapper that was made by an extraction was not worked with before, and it is in the fragment. -/
theorem wraps_of_placed {page placed extracted : Page} {registry : RegistryId} {trees fragment : List Plot}
    (hplaced : Extraction.Placed page registry (trees.map root) placed) (hlinked : page.markup.Linked)
    (htops : ∀ top ∈ trees.map root, page.markup.parent? top = none)
    (hcomponents : extracted.components = placed.components) (hroots : fragment.map root = trees.map root)
    (hfragment : AreWhole fragment) (hgarden : Garden placed.markup fragment) {id : ComponentId}
    (hid : id ∈ extracted.wrappersSince page.components.size) :
    ∃ cell, Wraps extracted fragment id cell := by
  obtain ⟨-, hid⟩ := List.mem_filter.mp hid
  obtain ⟨hsince, hsome⟩ := (Bool.and_eq_true ..).mp hid
  obtain ⟨node, hname⟩ := Option.isSome_iff_exists.mp hsome
  obtain ⟨cell, hcell, hwrapper, rfl⟩ := wrapper?_eq_some.mp hname
  have huntouched := hplaced.cells id cell (of_decide_eq_true hsince) (hcomponents ▸ hcell)
  refine ⟨cell, hcell, hwrapper, ?_, ?_⟩
  · rw [Component.admits, huntouched.kept, Component.isBusy, huntouched.idle]
    rfl
  · exact (huntouched.comes hwrapper).mem_idsIn hlinked htops hplaced hgarden hfragment hroots

/-- **Wrappers are unwrapped.** A fragment whose tops have no parent and are held is extracted. Its wrappers
are rendered in any order, some of them more than once if need be. Every one of the renders is done at
once, and then the fragment is written as if each wrapper that had a parent were not there and its
children stood in its place. All other nodes are where they were, each of them once, and rendering one
of the wrappers again changes nothing. -/
theorem wrappers_unwrapped {page extracted : Page} {collection : CollectionId} {count : Nat}
    {trees : List Plot} {order : List (ComponentId × Option Source)}
    (hlinked : page.markup.Linked) (hgarden : Garden page.markup trees) (hwhole : AreWhole trees)
    (htops : ∀ top ∈ trees.map root, page.markup.parent? top = none ∧ top ∈ page.heldNodes)
    (hextract : page.extract collection (trees.map root) = (extracted, .ok count))
    (horder : ∀ id, id ∈ order.map Prod.fst ↔ id ∈ extracted.wrappersSince page.components.size) :
    ∃ fragment : List Plot, fragment.map root = trees.map root ∧ AreWhole fragment ∧
      Garden extracted.markup fragment ∧
      (∀ before entry after, order = before ++ entry :: after →
        ((extracted.renderAll before).render entry.1 entry.2).2 = .done) ∧
      Stripped extracted (extracted.renderAll order) fragment
        (extracted.wrappersSince page.components.size) := by
  obtain ⟨registry, placed, hplaced, hmarkup, hcomponents, hheld⟩ := extract_placed hlinked hextract
  have hthins := hplaced.left.saves.thins
  have hafter := hplaced.left.saves.linked
  obtain ⟨fragment, hroots, hfragment, hstands⟩ := hgarden.thinned hwhole (fun top htop => (htops top htop).1)
    hlinked hafter hthins hplaced.barren
  have hfree : ∀ top ∈ fragment.map root,
      extracted.markup.parent? top = none ∧ top ∈ extracted.heldNodes := by
    intro top htop
    rw [hroots] at htop
    have hlt := hgarden.stands.lt_size top (roots_subset_idsIn trees htop)
    rw [hmarkup, hheld]
    exact ⟨hthins.parent?_eq_none hlinked hafter hlt (htops top htop).1, (htops top htop).2⟩
  have hmade : ∀ id ∈ extracted.wrappersSince page.components.size, ∃ cell,
      Wraps extracted fragment id cell := fun id hid =>
    wraps_of_placed hplaced hlinked (fun top htop => (htops top htop).1) hcomponents hroots hfragment
      hstands hid
  have hcells : ∀ entry ∈ order, ∃ cell, Wraps extracted fragment entry.1 cell := fun entry hentry =>
    hmade entry.1 ((horder entry.1).mp (List.mem_map_of_mem hentry))
  rw [← hmarkup] at hstands hafter
  have hstart := Unwrapped.start hafter hstands
  refine ⟨fragment, hroots, hfragment, hstands, fun before entry after hsplit => ?_, ?_⟩
  · subst hsplit
    obtain ⟨cell, hwraps⟩ := hcells entry (by simp)
    have hbefore := hstart.run hfragment hfree fun other hother =>
      hcells other (List.mem_append_left _ hother)
    exact (hbefore.step hfragment hfree hwraps entry.2).1
  · have hrun := hstart.run hfragment hfree hcells
    rw [List.nil_append] at hrun
    exact (hrun.congr horder).stripped hstands hfragment (fun top htop => (hfree top htop).1) hmade

/-- A fragment with wrappers side by side, one inside another, and an empty one. -/
def wrapped : Markup :=
  [(2, 3), (1, 2), (1, 4), (0, 1), (5, 6), (0, 5)].foldl
    (fun markup (edge : NodeId × NodeId) => markup.append edge.1 edge.2)
    (List.foldl (fun markup kind => (Markup.create markup kind).1) .empty
      [.element "div" [], .element "basis" [], .element "b" [], .text "x", .element "basis" [],
        .element "basis" [], .text "y"])

/-- The fragment as a tree. -/
def wrappedTree : Plot :=
  .tree 0 (.element "div" []) [
    .tree 1 (.element "basis" []) [
      .tree 2 (.element "b" []) [.tree 3 (.text "x") []], .tree 4 (.element "basis" []) []],
    .tree 5 (.element "basis" []) [.tree 6 (.text "y") []]]

theorem linked_wrapped : wrapped.Linked := by
  refine Markup.Linked.append (Markup.Linked.append (Markup.Linked.append (Markup.Linked.append
    (Markup.Linked.append (Markup.Linked.append ?_ ?_ ?_) ?_ ?_) ?_ ?_) ?_ ?_) ?_ ?_) ?_ ?_
  · exact ((((((Markup.Linked.empty.create _).create _).create _).create _).create _).create _).create _
  all_goals decide +kernel

/-- The wrappers of the fragment, the last of them rendered first. -/
def wrappedOrder : List (ComponentId × Option Source) := [(2, none), (0, none), (1, none)]

/-- Whether the wrappers of the fragment are these, and what they leave reads as it should. -/
def unwraps (page : Page) : Bool :=
  match ((holding wrapped page).holdNode 0).extract page.collections.size [0] with
  | (extracted, .ok _) =>
    page.components.size == 0 && extracted.wrappersSince 0 == [0, 1, 2] &&
      (extracted.renderAll wrappedOrder).markup.html [0] == "<div><b>x</b>y</div>"
  | _ => false

/-- Two wrappers side by side and an empty one inside the first. -/
theorem three_wrappers_unwrapped : ∃ (page extracted : Page) (count : Nat) (fragment : List Plot),
    Page.ofOptions {} = .ok page ∧
    ((holding wrapped page).holdNode 0).extract page.collections.size [0] = (extracted, .ok count) ∧
    fragment.map root = [0] ∧
    Stripped extracted (extracted.renderAll wrappedOrder) fragment [0, 1, 2] ∧
    (extracted.renderAll wrappedOrder).markup.html [0] = "<div><b>x</b>y</div>" := by
  have hunwraps : (Page.ofOptions {}).toOption.any unwraps = true := by decide +kernel
  have hgarden : Garden wrapped [wrappedTree] := by
    refine ⟨?_, by decide +kernel⟩
    simp only [wrappedTree, StandAll, Stands]
    decide +kernel
  have hwhole : AreWhole [wrappedTree] := by simp [wrappedTree, AreWhole, IsWhole]
  have hfree : wrapped.parent? 0 = none := by decide +kernel
  cases hpage : Page.ofOptions {} with
  | error error =>
      rw [hpage] at hunwraps
      cases hunwraps
  | ok page =>
      rw [hpage, Except.toOption, Option.any_some, unwraps] at hunwraps
      cases hextract : ((holding wrapped page).holdNode 0).extract page.collections.size [0] with
      | mk extracted result =>
          rw [hextract] at hunwraps
          cases result with
          | error error => cases hunwraps
          | ok count =>
              obtain ⟨hids, hhtml⟩ := (Bool.and_eq_true ..).mp hunwraps
              obtain ⟨hempty, hids⟩ := (Bool.and_eq_true ..).mp hids
              have hsince : extracted.wrappersSince page.components.size = [0, 1, 2] := by
                rw [eq_of_beq hempty]
                exact eq_of_beq hids
              have hperm : (wrappedOrder.map Prod.fst).Perm [0, 1, 2] := by decide
              have hall : ∀ id, id ∈ wrappedOrder.map Prod.fst ↔
                  id ∈ extracted.wrappersSince page.components.size := fun id => by
                rw [hsince]
                exact hperm.mem_iff
              obtain ⟨fragment, hroots, -, -, -, hstripped⟩ :=
                @wrappers_unwrapped ((holding wrapped page).holdNode 0) extracted _ _ [wrappedTree] wrappedOrder
                  linked_wrapped hgarden hwhole
                  (fun top htop => by
                    rw [List.mem_singleton.mp htop]
                    exact ⟨hfree, List.mem_cons_self⟩) hextract hall
              have hwrappers :
                  extracted.wrappersSince ((holding wrapped page).holdNode 0).components.size = [0, 1, 2] :=
                hsince
              rw [hwrappers] at hstripped
              exact ⟨page, extracted, count, fragment, rfl, hextract, hroots, hstripped, eq_of_beq hhtml⟩

end Page

end ReactiveMarkup
