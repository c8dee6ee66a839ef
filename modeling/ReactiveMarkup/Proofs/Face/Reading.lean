import ReactiveMarkup.Proofs.Face.Refresh
import ReactiveMarkup.Proofs.Markup.Detach

/-!
# What reading a command leaves

A command is read from an element that stands as a tree. While it is read, the children of the element
lose their content to templates, and some of them are taken out of the element; which of them are still
below it does not matter, as the first output replaces them all. `Planted` says what is kept all the
way: the element itself, its children each as a tree of its own, and the templates, side by side.

Reading can fail in the middle, so the steps are put together with a triple that speaks of results
only: what holds before a step that gives a result holds after it in the form the next step needs.
-/

namespace ReactiveMarkup

open Plot

/-- What comes after a first step that gives a result. -/
theorem run_bind {σ α β : Type} (first : ExceptT Error (StateM σ) α)
    (next : α → ExceptT Error (StateM σ) β) (state : σ) :
    (first >>= next).run state =
      match first.run state with
      | (.ok result, changed) => (next result).run changed
      | (.error error, changed) => (.error error, changed) := by
  change (match first.run state with
    | (result, changed) => ExceptT.bindCont next result changed) = _
  rcases first.run state with ⟨result | result, changed⟩
  · rfl
  · rfl

namespace Reading

/-- From markup of which `P` holds, a reading that gives a result gives one of which `Q` holds. -/
def Triple {α : Type} (P : Markup → Prop) (reading : Reading α) (Q : α → Markup → Prop) : Prop :=
  ∀ markup, P markup → ∀ result, (reading.run markup).1 = .ok result →
    Q result (reading.run markup).2

variable {α β : Type} {P : Markup → Prop} {Q : α → Markup → Prop} {R : β → Markup → Prop}

theorem Triple.pure {result : α} (h : ∀ markup, P markup → Q result markup) :
    Triple P (Pure.pure result) Q := by
  intro markup hmarkup other heq
  cases heq
  exact h markup hmarkup

theorem Triple.bind {reading : Reading α} {next : α → Reading β} (h : Triple P reading Q)
    (hnext : ∀ result, Triple (Q result) (next result) R) : Triple P (reading >>= next) R := by
  intro markup hmarkup final hfinal
  rw [run_bind] at hfinal ⊢
  rcases hfirst : reading.run markup with ⟨result | result, changed⟩
  · rw [hfirst] at hfinal
    cases hfinal
  · rw [hfirst] at hfinal
    have hq := h markup hmarkup result (by rw [hfirst])
    rw [hfirst] at hq
    exact hnext result changed hq final hfinal

/-- What holds besides may be assumed of the reading. -/
theorem Triple.assume {p : Prop} {reading : Reading α} (h : p → Triple P reading Q) :
    Triple (fun markup => P markup ∧ p) reading Q :=
  fun markup hmarkup => h hmarkup.2 markup hmarkup.1

theorem Triple.get : Triple P MonadState.get fun markup changed => changed = markup ∧ P markup := by
  intro markup hmarkup result heq
  cases heq
  exact ⟨rfl, hmarkup⟩

/-- What was read is what there still is. -/
theorem Triple.of_get {read : Markup} {reading : Reading α} (h : P read → Triple P reading Q) :
    Triple (fun markup => markup = read ∧ P read) reading Q :=
  fun markup hmarkup => h hmarkup.2 markup (hmarkup.1 ▸ hmarkup.2)

theorem Triple.modify {Q : Unit → Markup → Prop} {f : Markup → Markup}
    (h : ∀ markup, P markup → Q () (f markup)) : Triple P (modify f) Q := by
  intro markup hmarkup result heq
  exact h markup hmarkup

theorem Triple.change {f : Markup → Markup × α}
    (h : ∀ markup, P markup → Q (f markup).2 (f markup).1) : Triple P (change f) Q := by
  intro markup hmarkup result heq
  obtain rfl : (f markup).2 = result := Except.ok.inj heq
  exact h markup hmarkup

theorem Triple.ofExcept {made : Except Error α}
    (h : ∀ result, made = .ok result → ∀ markup, P markup → Q result markup) :
    Triple P (ofExcept made) Q := by
  cases made with
  | error error =>
      intro markup hmarkup result heq
      cases heq
  | ok result => exact Triple.pure (h result rfl)

theorem Triple.attempt {f : Markup → Except Error (Markup × α)}
    (h : ∀ markup, P markup → ∀ changed result, f markup = .ok (changed, result) →
      Q result changed) : Triple P (attempt f) Q := by
  refine Triple.get.bind fun markup => ?_
  refine Triple.bind (Q := fun made _ => f markup = .ok made ∧ P markup) ?_ fun made => ?_
  · exact Triple.ofExcept fun made hmade _ hread => ⟨hmade, hread.2⟩
  · refine Triple.bind (Q := fun _ changed => Q made.2 changed) ?_ fun _ => ?_
    · intro _ hread _ _
      exact h markup hread.2 made.1 made.2 hread.1
    · exact Triple.pure fun _ hdone => hdone

end Reading

/-- Takes the layout out that a child of a command may be. -/
def Markup.takeLayout (state : Markup × Layout) (child : NodeId) : Markup × Layout :=
  match (state.1.kind child).tag?.map Unicode.lower with
  | some tag =>
    if tag = "layout" then
      ((state.1.detachSectionNode child).1,
        { state.2 with wrapper := (state.1.detachSectionNode child).2 })
    else if tag = "else-layout" then
      ((state.1.detachSectionNode child).1,
        { state.2 with empty := (state.1.detachSectionNode child).2 })
    else state
  | none => state

theorem Markup.detachLayout_eq (markup : Markup) (id : NodeId) :
    markup.detachLayout id = (markup.children id).foldl Markup.takeLayout (markup, {}) := rfl

/-- While a command is read: its element, the elements that were its children, and the templates that
were taken out of them stand side by side, and nothing but such elements is below it. -/
def Planted (node : NodeId) (kind : NodeKind) (elements taken : List NodeId) (markup : Markup) :
    Prop :=
  ∃ parts beds : List Plot, Garden markup (.gap node kind :: (parts ++ beds)) ∧ AreWhole parts ∧
    AreWhole beds ∧ parts.map root = elements ∧ markup.children node ⊆ elements ∧
      taken ⊆ beds.map root

namespace Planted

variable {node : NodeId} {kind : NodeKind} {elements taken : List NodeId} {markup : Markup}

theorem mono {fewer : List NodeId} (h : Planted node kind elements taken markup)
    (hsub : fewer ⊆ taken) : Planted node kind elements fewer markup := by
  obtain ⟨parts, beds, hgarden, hparts, hbeds, hroots, hchildren, htaken⟩ := h
  exact ⟨parts, beds, hgarden, hparts, hbeds, hroots, hchildren,
    List.Subset.trans hsub htaken⟩

theorem children_subset (h : Planted node kind elements taken markup) :
    markup.children node ⊆ elements := h.choose_spec.choose_spec.2.2.2.2.1

/-- An element is taken out of its parent. -/
theorem detach (h : Planted node kind elements taken markup) {element : NodeId}
    (helement : element ∈ elements) :
    Planted node kind elements taken (markup.detach element) := by
  obtain ⟨parts, beds, hgarden, hparts, hbeds, rfl, hchildren, htaken⟩ := h
  obtain ⟨part, hpart, rfl⟩ := List.mem_map.mp helement
  exact ⟨parts, beds, hgarden.detach (by simp [hpart]), hparts, hbeds, rfl,
    List.Subset.trans (Markup.children_detach_sublist part.root node).subset hchildren, htaken⟩

/-- The content of an element becomes a template. -/
theorem detachTemplate (h : Planted node kind elements taken markup) {element : NodeId}
    (helement : element ∈ elements) :
    Planted node kind elements ((markup.detachTemplate element).2 ++ taken)
      (markup.detachTemplate element).1 := by
  obtain ⟨parts, beds, hgarden, hparts, hbeds, rfl, hchildren, htaken⟩ := h
  obtain ⟨part, hpart, rfl⟩ := List.mem_map.mp helement
  obtain ⟨before, after, rfl⟩ := List.append_of_mem hpart
  cases part with
  | gap id other => exact (areWhole_iff.mp hparts _ hpart).elim
  | tree id other content =>
      have hcontent : AreWhole content := areWhole_iff.mp hparts _ hpart
      have hfront : Garden markup
          (.tree id other content :: (.gap node kind :: (before ++ after ++ beds))) := by
        refine hgarden.perm ?_
        rw [List.append_assoc, List.append_assoc, List.cons_append]
        exact (List.perm_middle.cons _).trans (List.Perm.swap _ _ _)
      obtain ⟨template, hnodes, hwhole, htemplate, hspared⟩ := hfront.detachTemplate hcontent
      have hback : (.tree id other [] :: (template ++ .gap node kind :: (before ++ after ++ beds)) :
          List Plot).Perm
          (.gap node kind :: ((before ++ .tree id other [] :: after) ++ (template ++ beds))) := by
        refine (List.perm_middle.cons _).trans ((List.Perm.swap _ _ _).trans (List.Perm.cons _ ?_))
        have hright : (before ++ .tree id other [] :: after) ++ (template ++ beds) =
            before ++ .tree id other [] :: (after ++ (template ++ beds)) := by
          rw [List.append_assoc, List.cons_append]
        rw [hright]
        refine List.Perm.trans (List.Perm.cons _ ?_) List.perm_middle.symm
        rw [← List.append_assoc before, ← List.append_assoc, ← List.append_assoc (before ++ after)]
        exact List.perm_append_comm.append_right beds
      have hbefore := areWhole_iff.mp hparts
      refine ⟨before ++ .tree id other [] :: after, template ++ beds, htemplate.perm hback, ?_,
        hwhole.append hbeds, ?_, ?_, ?_⟩
      · refine areWhole_iff.mpr fun plot hplot => ?_
        rcases List.mem_append.mp hplot with hin | hin
        · exact hbefore plot (List.mem_append_left _ hin)
        · rcases List.mem_cons.mp hin with rfl | hin
          · exact trivial
          · exact hbefore plot (List.mem_append_right _ (List.mem_cons_of_mem _ hin))
      · rw [List.map_append, List.map_append]
        rfl
      · rw [root, hspared node (by simp [idsIn, ids])]
        exact hchildren
      · rw [List.map_append, hnodes]
        exact List.append_subset.mpr ⟨List.subset_append_left _ _,
          List.Subset.trans htaken (List.subset_append_right _ _)⟩

end Planted

namespace Planted

variable {node : NodeId} {kind : NodeKind} {elements taken : List NodeId} {markup : Markup}

/-- An element that stands as a tree can be read. -/
theorem start {children : List Plot} (hwhole : AreWhole children)
    (h : Garden markup [.tree node kind children]) :
    Planted node kind (children.map root) [] markup := by
  obtain ⟨htop, hchildren⟩ := Garden.tree_iff.mp h
  exact ⟨children, [], htop, hwhole, trivial, rfl, hchildren ▸ List.Subset.refl _,
    List.nil_subset _⟩

theorem detachSection (h : Planted node kind elements taken markup) (tag : String) :
    Planted node kind elements ((markup.detachSection node tag).2 ++ taken)
      (markup.detachSection node tag).1 := by
  rw [Markup.detachSection]
  cases hfound : (markup.children node).find? (markup.hasTag tag) with
  | none => exact h
  | some found =>
      have helement : found ∈ elements := h.children_subset (List.mem_of_find?_eq_some hfound)
      exact (h.detach helement).detachTemplate helement

theorem detachSectionNode (h : Planted node kind elements taken markup) {element : NodeId}
    (helement : element ∈ elements) :
    Planted node kind elements ((markup.detachSectionNode element).2 ++ taken)
      (markup.detachSectionNode element).1 :=
  (h.detachTemplate helement).detach helement

theorem takeLayout {state : Markup × Layout} {child : NodeId}
    (h : Planted node kind elements (state.2.wrapper ++ state.2.empty ++ taken) state.1)
    (hchild : child ∈ elements) :
    Planted node kind elements
      ((Markup.takeLayout state child).2.wrapper ++ (Markup.takeLayout state child).2.empty ++ taken)
      (Markup.takeLayout state child).1 := by
  rw [Markup.takeLayout]
  split
  · split
    · refine (h.detachSectionNode hchild).mono ?_
      simp only [List.append_subset]
      exact ⟨⟨by simp, fun id hid => by simp [hid]⟩, fun id hid => by simp [hid]⟩
    · split
      · refine (h.detachSectionNode hchild).mono ?_
        simp only [List.append_subset]
        exact ⟨⟨fun id hid => by simp [hid], by simp⟩, fun id hid => by simp [hid]⟩
      · exact h
  · exact h

theorem detachLayout (h : Planted node kind elements taken markup) :
    Planted node kind elements
      ((markup.detachLayout node).2.wrapper ++ (markup.detachLayout node).2.empty ++ taken)
      (markup.detachLayout node).1 := by
  have hloop : ∀ (children : List NodeId), children ⊆ elements → ∀ state : Markup × Layout,
      Planted node kind elements (state.2.wrapper ++ state.2.empty ++ taken) state.1 →
      Planted node kind elements
        ((children.foldl Markup.takeLayout state).2.wrapper ++ (children.foldl Markup.takeLayout state).2.empty
          ++ taken) (children.foldl Markup.takeLayout state).1 := by
    intro children
    induction children with
    | nil => exact fun _ _ hstate => hstate
    | cons child rest ih =>
        intro hsub state hstate
        exact ih (List.subset_of_cons_subset hsub) _ (hstate.takeLayout (hsub List.mem_cons_self))
  rw [Markup.detachLayout_eq]
  exact hloop (markup.children node) h.children_subset (markup, {}) h

end Planted

/-! ## Commands -/

theorem Face.read_ok {patterns : BindingPatterns} {index : Nat} {markup changed : Markup}
    {id : NodeId} {face : Face} (h : Face.read patterns index markup id = .ok (changed, face)) :
    changed = (markup.detachTemplate id).1 ∧ face.template = (markup.detachTemplate id).2 ∧
      face.index = index := by
  rw [Face.read] at h
  simp only [bind, Except.bind, pure, Except.pure] at h
  repeat' split at h
  all_goals first
    | (cases h; done)
    | (cases h; exact ⟨rfl, rfl, rfl⟩)

namespace ShowCommand

variable {node : NodeId} {kind : NodeKind} {elements taken : List NodeId}

open Reading (Triple)

theorem readFaces_triple {patterns : BindingPatterns} : ∀ (index : Nat) (ids : List NodeId)
    (taken : List NodeId), ids ⊆ elements →
    Triple (Planted node kind elements taken) (readFaces patterns index ids)
      fun faces changed =>
        Planted node kind elements (faces.flatMap Face.template ++ taken) changed ∧
          faces.map Face.index = List.range' index faces.length
  | index, [], taken, _ => by
      rw [readFaces]
      exact Triple.pure fun _ h => ⟨h, rfl⟩
  | index, id :: rest, taken, hsub => by
      rw [readFaces]
      refine Triple.bind (Q := fun _ => Planted node kind elements taken) ?_ fun _ => ?_
      · exact Triple.modify fun _ h => h.detach (hsub List.mem_cons_self)
      refine Triple.bind (Q := fun face changed =>
        Planted node kind elements (face.template ++ taken) changed ∧ face.index = index) ?_
        fun face => ?_
      · refine Triple.attempt fun markup h changed face hread => ?_
        obtain ⟨rfl, htemplate, hindex⟩ := Face.read_ok hread
        rw [htemplate]
        exact ⟨h.detachTemplate (hsub List.mem_cons_self), hindex⟩
      refine Triple.assume fun hindex => Triple.bind (readFaces_triple (index + 1) rest
        (face.template ++ taken) (List.subset_of_cons_subset hsub)) fun faces => ?_
      refine Triple.pure fun markup h => ⟨h.1.mono ?_, ?_⟩
      · simp only [List.flatMap_cons, List.append_subset]
        exact ⟨⟨fun id hid => by simp [hid], fun id hid => by simp [hid]⟩, fun id hid => by simp [hid]⟩
      · rw [List.map_cons, hindex, h.2, List.length_cons, List.range'_succ]

theorem readArrangement_triple {command : ShowKind} {of : NodeKind} :
    Triple (Planted node kind elements taken) (readArrangement command node of)
      fun arrangement => Planted node kind elements (arrangement.sections ++ taken) := by
  cases command with
  | list =>
      rw [readArrangement]
      refine Triple.bind (Q := fun divider => Planted node kind elements (divider ++ taken)) ?_
        fun divider => ?_
      · exact Triple.change fun markup h => h.detachSection "divider"
      refine Triple.bind (Q := fun incomplete =>
        Planted node kind elements (incomplete ++ (divider ++ taken))) ?_ fun incomplete => ?_
      · exact Triple.change fun markup h => h.detachSection "incomplete"
      · refine Triple.pure fun markup h => h.mono ?_
        simp only [Arrangement.sections, List.append_subset]
        exact ⟨⟨fun id hid => by simp [hid], fun id hid => by simp [hid]⟩, fun id hid => by simp [hid]⟩
  | tree =>
      rw [readArrangement]
      exact Triple.pure fun markup h => h
  | view =>
      rw [readArrangement]
      split
      · exact Triple.pure fun markup h => h
      · intro markup _ result heq
        cases heq

/-- What a command that was read stands on: templates beside its element, no cache, and faces that
are told apart by their index. -/
theorem read_triple {patterns : BindingPatterns} {command : ShowKind} :
    Triple (Planted node kind elements []) (read patterns command node)
      fun result changed => Planted node kind elements result.1.templates changed ∧
        result.1.cache = {} ∧
          result.1.faces.map Face.index = List.range' 0 result.1.faces.length := by
  rw [read]
  refine Triple.get.bind fun markup => ?_
  dsimp only
  split
  · intro _ _ result heq
    cases heq
  refine Triple.bind (Q := fun _ => Planted node kind elements []) ?_ fun rowCount => ?_
  · exact Triple.ofExcept fun _ _ changed h => h.1 ▸ h.2
  refine Triple.bind readArrangement_triple fun arrangement => ?_
  refine Triple.bind (Q := fun layout => Planted node kind elements
    (layout.wrapper ++ layout.empty ++ (arrangement.sections ++ []))) ?_ fun layout => ?_
  · exact Triple.change fun markup h => h.detachLayout
  refine Triple.get.bind fun read => ?_
  refine Triple.of_get fun hplanted => ?_
  have hids : (read.children node).filter (read.hasTag "face") ⊆ elements :=
    List.Subset.trans (List.filter_subset_self _) hplanted.children_subset
  refine Triple.bind (readFaces_triple 0 _ _ hids) fun faces => ?_
  refine Triple.pure fun markup h => ⟨h.1.mono ?_, rfl, h.2⟩
  simp only [ShowCommand.templates, List.append_subset]
  refine ⟨⟨⟨?_, ?_⟩, ?_⟩, ?_⟩
  all_goals exact fun id hid => by simp_all

end ShowCommand

end ReactiveMarkup
