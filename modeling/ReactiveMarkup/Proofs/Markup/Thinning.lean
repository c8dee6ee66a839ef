import ReactiveMarkup.Component.LoadCommand
import ReactiveMarkup.Proofs.Face.Reading
import ReactiveMarkup.Proofs.Markup.Kinds

/-!
# Markup that is taken apart

Reading a command takes children out of elements and puts anchors for marks. It makes nothing but
anchors, no node becomes something else, and no node gets a child it did not have, apart from the
anchors. So whoever goes on over the markup meets no node that was not there before.
-/

namespace ReactiveMarkup

namespace Markup

variable {markup before middle after : Markup} {id child other : NodeId}

/-- Nothing was added but anchors, and nobody got other children. -/
structure Thins (before after : Markup) : Prop extends Keeps before after where
  children : ∀ id, ∀ child ∈ after.children id,
    child ∈ before.children id ∨ before.size ≤ child ∧ child < after.size
  fresh : ∀ id, before.size ≤ id → id < after.size → ∃ name, after.kind id = .anchor name

theorem Thins.refl (markup : Markup) : Thins markup markup :=
  ⟨.refl markup, fun _ _ h => .inl h, fun _ hle hlt => absurd hlt (Nat.not_lt.mpr hle)⟩

theorem Thins.trans (h : Thins before middle) (h' : Thins middle after) : Thins before after := by
  refine ⟨h.toKeeps.trans h'.toKeeps, fun id child hchild => ?_, fun id hle hlt => ?_⟩
  · rcases h'.children id child hchild with hmiddle | ⟨hle, hlt⟩
    · exact (h.children id child hmiddle).imp (fun hold => hold) fun ⟨hle, hlt⟩ =>
        ⟨hle, Nat.lt_of_lt_of_le hlt h'.size⟩
    · exact .inr ⟨Nat.le_trans h.size hle, hlt⟩
  · by_cases hmiddle : id < middle.size
    · obtain ⟨name, hname⟩ := h.fresh id hle hmiddle
      exact ⟨name, (h'.kind id hmiddle).trans hname⟩
    · exact h'.fresh id (Nat.le_of_not_lt hmiddle) hlt

/-- Children were taken away, and nothing else. -/
theorem Thins.of_subset (hsize : after.size = before.size)
    (hkind : ∀ id, after.kind id = before.kind id)
    (hchildren : ∀ id, after.children id ⊆ before.children id) : Thins before after :=
  ⟨.of_kind hsize hkind, fun id _ hchild => .inl (hchildren id hchild), fun _ hle hlt =>
    absurd hlt (Nat.not_lt.mpr (hsize ▸ hle))⟩

theorem thins_remove (markup : Markup) (id child : NodeId) :
    Thins markup (markup.remove id child).1 :=
  .of_subset (size_remove id child) (kind_remove id child) fun other => by
    rw [children_remove]
    split
    · exact List.erase_subset
    · exact List.Subset.refl _

theorem thins_detach (markup : Markup) (id : NodeId) : Thins markup (markup.detach id) :=
  .of_subset (size_detach id) (kind_detach id) fun other => (children_detach_sublist id other).subset

theorem thins_takeChildren (markup : Markup) (id : NodeId) :
    Thins markup (markup.takeChildren id).1 :=
  .of_subset (size_takeChildren id) (kind_takeChildren id) fun other => by
    rw [children_takeChildren]
    split
    · exact List.nil_subset _
    · exact List.Subset.refl _

theorem thins_createAnchor (markup : Markup) (name : String) :
    Thins markup (markup.create (.anchor name)).1 := by
  refine ⟨keeps_create markup fun _ => NodeKind.wellnamed_of_none rfl,
    fun id child hchild => .inl ?_, fun id hle hlt => ⟨name, ?_⟩⟩
  · rwa [children_create] at hchild
  · rw [size_create] at hlt
    rw [kind_create, if_pos (Nat.le_antisymm (Nat.le_of_lt_succ hlt) hle)]

theorem mem_children_insert {index : Nat} {inner : NodeId}
    (h : child ∈ (markup.insert id index inner).children other) :
    child ∈ markup.children other ∨ child = inner := by
  have hdetached : ∀ {node}, node ∈ (markup.detach inner).children other →
      node ∈ markup.children other := fun hnode => (children_detach_sublist inner other).subset hnode
  rw [insert] at h
  by_cases hlt : id < markup.size
  · rw [children_setChildren (by rw [size_setParent, size_detach]; exact hlt), children_setParent]
      at h
    split at h
    · rw [insertIn] at h
      rcases List.mem_append.mp h with hin | hin
      · exact .inl (hdetached (List.mem_of_mem_take hin))
      · rcases List.mem_cons.mp hin with hnew | hin
        · exact .inr hnew
        · exact .inl (hdetached (List.mem_of_mem_drop hin))
    · exact .inl (hdetached h)
  · by_cases hother : other = id
    · rw [children_of_le (by rw [hother, size_setChildren, size_setParent, size_detach]
                             exact Nat.le_of_not_lt hlt)] at h
      cases h
    · rw [children_setChildren_of_ne hother, children_setParent] at h
      exact .inl (hdetached h)

/-- An anchor in the place of a child. -/
theorem thins_putAnchor (markup : Markup) (id child : NodeId) (index : Nat) (name : String) :
    Thins markup (((markup.remove id child).1.create (.anchor name)).1.insert id index
      ((markup.remove id child).1.create (.anchor name)).2) := by
  have hmade := (thins_remove markup id child).trans
    (thins_createAnchor (markup.remove id child).1 name)
  refine ⟨hmade.toKeeps.trans (.of_kind (size_insert id _ index) fun other =>
    kind_insert id _ other index), fun other inner hinner => ?_, fun other hle hlt => ?_⟩
  · rw [size_insert]
    rcases mem_children_insert hinner with hold | rfl
    · exact hmade.children other inner hold
    · rw [create_snd, size_create, size_remove]
      exact .inr ⟨Nat.le_refl _, Nat.lt_succ_self _⟩
  · rw [size_insert] at hlt
    rw [kind_insert]
    exact hmade.fresh other hle hlt

theorem thins_foldl {α σ : Type} {step : σ → α → σ} (read : σ → Markup)
    (hstep : ∀ state item, Thins (read state) (read (step state item))) (items : List α)
    (state : σ) : Thins (read state) (read (items.foldl step state)) := by
  induction items generalizing state with
  | nil => exact .refl _
  | cons item rest ih => exact (hstep state item).trans (ih (step state item))

theorem thins_markAnchorsTo (depth : Nat) (markup : Markup) (id : NodeId) :
    Thins markup (markup.markAnchorsTo depth id) := by
  induction depth generalizing markup id with
  | zero => exact .refl markup
  | succ depth ih =>
      rw [markAnchorsTo_succ]
      refine thins_foldl Prod.fst (fun state child => ?_) (markup.children id) (markup, 0)
      rw [markChild]
      split
      · exact thins_putAnchor state.1 id child state.2 _
      · exact ih state.1 child

theorem thins_replaceMark (markup : Markup) (id : NodeId) : Thins markup (markup.replaceMark id).1 := by
  rw [replaceMark]
  split
  · exact thins_createAnchor markup _
  · exact .refl markup

theorem thins_mapAccum {step : Markup → NodeId → Markup × NodeId}
    (hstep : ∀ markup id, Thins markup (step markup id).1) (markup : Markup) (ids : List NodeId) :
    Thins markup (mapAccum step markup ids).1 := by
  induction ids generalizing markup with
  | nil => exact .refl markup
  | cons id rest ih => exact (hstep markup id).trans (ih _)

theorem thins_detachTemplate (markup : Markup) (id : NodeId) :
    Thins markup (markup.detachTemplate id).1 := by
  rw [detachTemplate_eq]
  refine (thins_takeChildren markup id).trans (.trans ?_ (thins_mapAccum thins_replaceMark _ _))
  exact thins_foldl (fun markup => markup) (fun markup id =>
    thins_markAnchorsTo markup.size markup id) (markup.children id) (markup.takeChildren id).1

theorem thins_detachSectionNode (markup : Markup) (id : NodeId) :
    Thins markup (markup.detachSectionNode id).1 :=
  (thins_detachTemplate markup id).trans (thins_detach _ id)

theorem thins_detachSection (markup : Markup) (id : NodeId) (tag : String) :
    Thins markup (markup.detachSection id tag).1 := by
  rw [detachSection]
  split
  · exact (thins_detach markup _).trans (thins_detachTemplate _ _)
  · exact .refl markup

theorem thins_detachLayout (markup : Markup) (id : NodeId) :
    Thins markup (markup.detachLayout id).1 := by
  rw [detachLayout_eq]
  refine thins_foldl Prod.fst (fun state child => ?_) (markup.children id) (markup, ({} : Layout))
  rw [takeLayout]
  split
  · split
    · exact thins_detachSectionNode state.1 child
    · split
      · exact thins_detachSectionNode state.1 child
      · exact .refl _
  · exact .refl _

end Markup

/-! ## Readings -/

/-- Whether a reading takes nothing but apart, also when it fails. -/
def Reading.Thinning {α : Type} (reading : Reading α) : Prop :=
  ∀ markup, Markup.Thins markup (reading.run markup).2

namespace Reading

variable {α β : Type}

theorem Thinning.pure (result : α) : Thinning (Pure.pure result) := Markup.Thins.refl

theorem Thinning.throw (error : Error) : Thinning (throw error : Reading α) := Markup.Thins.refl

theorem Thinning.bind {reading : Reading α} {next : α → Reading β} (h : Thinning reading)
    (hnext : ∀ result, Thinning (next result)) : Thinning (reading >>= next) := by
  intro markup
  have hfirst := h markup
  rw [run_bind]
  generalize reading.run markup = reached at hfirst ⊢
  obtain ⟨result | result, changed⟩ := reached
  · exact hfirst
  · exact hfirst.trans (hnext result changed)

theorem Thinning.get : Thinning MonadState.get := Markup.Thins.refl

theorem Thinning.modify {f : Markup → Markup} (h : ∀ markup, Markup.Thins markup (f markup)) :
    Thinning (modify f) := h

theorem Thinning.change {f : Markup → Markup × α}
    (h : ∀ markup, Markup.Thins markup (f markup).1) : Thinning (change f) := h

theorem Thinning.ofExcept (made : Except Error α) : Thinning (ofExcept made) := by
  cases made with
  | ok result => exact .pure result
  | error error => exact .throw error

theorem Thinning.attempt {f : Markup → Except Error (Markup × α)}
    (h : ∀ markup changed result, f markup = .ok (changed, result) →
      Markup.Thins markup changed) : Thinning (attempt f) := by
  intro markup
  have hget : (MonadState.get : Reading Markup).run markup = (.ok markup, markup) := rfl
  rw [Reading.attempt, run_bind, hget]
  dsimp only
  rw [run_bind]
  cases hmade : f markup with
  | ok made => exact h markup made.1 made.2 hmade
  | error error => exact .refl markup

end Reading

open Reading (Thinning)

theorem LoadCommand.thinning_readMembers (ids : List NodeId) : Thinning (readMembers ids) := by
  induction ids with
  | nil => exact .pure _
  | cons id rest ih =>
      rw [readMembers]
      refine Thinning.get.bind fun markup => ?_
      refine (Thinning.modify fun markup => Markup.thins_detach markup id).bind fun _ => ?_
      exact (Thinning.ofExcept _).bind fun _ => ih.bind fun _ => .pure _

theorem LoadCommand.thinning_read (options : Options) (patterns : BindingPatterns)
    (providers : Providers) (id : NodeId) : Thinning (read options patterns providers id) := by
  rw [read]
  refine Thinning.get.bind fun markup => ?_
  dsimp only
  split
  · exact .throw _
  · refine (Thinning.ofExcept _).bind fun _ => (Thinning.ofExcept _).bind fun _ => ?_
    refine Thinning.get.bind fun markup => ?_
    exact (thinning_readMembers _).bind fun _ => (Thinning.ofExcept _).bind fun _ => .pure _

theorem ShowCommand.thinning_readFaces (patterns : BindingPatterns) (index : Nat)
    (ids : List NodeId) : Thinning (readFaces patterns index ids) := by
  induction ids generalizing index with
  | nil => exact .pure _
  | cons id rest ih =>
      rw [readFaces]
      refine (Thinning.modify fun markup => Markup.thins_detach markup id).bind fun _ => ?_
      refine (Thinning.attempt fun markup changed face hread => ?_).bind fun _ =>
        (ih (index + 1)).bind fun _ => .pure _
      obtain ⟨rfl, -, -⟩ := Face.read_ok hread
      exact Markup.thins_detachTemplate markup id

theorem ShowCommand.thinning_readArrangement (command : ShowKind) (id : NodeId) (kind : NodeKind) :
    Thinning (readArrangement command id kind) := by
  cases command with
  | list =>
      rw [readArrangement]
      refine (Thinning.change fun markup => Markup.thins_detachSection markup id _).bind fun _ => ?_
      exact (Thinning.change fun markup => Markup.thins_detachSection markup id _).bind fun _ =>
        .pure _
  | tree =>
      rw [readArrangement]
      exact .pure _
  | view =>
      rw [readArrangement]
      split
      · exact .pure _
      · exact .throw _

theorem ShowCommand.thinning_read (patterns : BindingPatterns) (command : ShowKind) (id : NodeId) :
    Thinning (read patterns command id) := by
  rw [read]
  refine Thinning.get.bind fun markup => ?_
  dsimp only
  split
  · exact .throw _
  · refine (Thinning.ofExcept _).bind fun _ => (thinning_readArrangement _ _ _).bind fun _ => ?_
    refine (Thinning.change fun markup => Markup.thins_detachLayout markup id).bind fun _ => ?_
    exact Thinning.get.bind fun markup => (thinning_readFaces _ _ _).bind fun _ => .pure _

end ReactiveMarkup
