import ReactiveMarkup.Proofs.Markup.Copies

/-!
# What is done to other nodes

What a command does to markup never changes what a node is that was there before: nodes are put
elsewhere, new ones are made, and rows are filled into new ones only. This needs nothing to be known of
the markup. Filling in goes down from a copy that was just made, and below new nodes there are only new
nodes; `Sealed` says so of everything from a number on. Nor does an element get an attribute twice,
because copies have the attributes there were and setting one that is there changes its value.
-/

namespace ReactiveMarkup

namespace NodeKind

/-- Whether an element has every attribute once. -/
def Wellnamed (kind : NodeKind) : Prop :=
  (kind.attributes.map Prod.fst).Pairwise fun name other => Unicode.sameName name other = false

variable {kind : NodeKind}

theorem wellnamed_of_none (h : kind.attributes = []) : kind.Wellnamed := by
  rw [Wellnamed, h]
  exact List.Pairwise.nil

theorem Wellnamed.attribute? (h : kind.Wellnamed) {name value : String}
    (hin : (name, value) ∈ kind.attributes) : kind.attribute? name = some value := by
  rw [Wellnamed] at h
  rw [NodeKind.attribute?]
  generalize kind.attributes = entries at h hin ⊢
  induction entries with
  | nil => cases hin
  | cons entry rest ih =>
      obtain ⟨hfirst, hrest⟩ := List.pairwise_cons.mp h
      rw [List.find?_cons]
      rcases List.mem_cons.mp hin with rfl | hin
      · have hself : Unicode.sameName name name = true := beq_self_eq_true _
        rw [hself]
        rfl
      · rw [hfirst name (List.mem_map.mpr ⟨_, hin, rfl⟩)]
        exact ih hrest hin

theorem mem_names_setIn {name value other : String} {entries : List (String × String)}
    (h : other ∈ (setIn name value entries).map Prod.fst) :
    other = name ∨ other ∈ entries.map Prod.fst := by
  induction entries with
  | nil => exact .inl (List.mem_singleton.mp h)
  | cons entry rest ih =>
      obtain ⟨first, old⟩ := entry
      rw [setIn] at h
      split at h
      · exact .inr h
      · rcases List.mem_cons.mp h with hfirst | hlater
        · exact .inr (hfirst ▸ List.mem_cons_self)
        · exact (ih hlater).imp id (List.mem_cons_of_mem _)

theorem Wellnamed.setAttribute (h : kind.Wellnamed) (name value : String) :
    (kind.setAttribute name value).Wellnamed := by
  cases kind with
  | element tag entries =>
      change ((setIn name value entries).map Prod.fst).Pairwise _
      rw [Wellnamed, attributes] at h
      induction entries with
      | nil => exact List.pairwise_singleton _ _
      | cons entry rest ih =>
          obtain ⟨first, old⟩ := entry
          obtain ⟨hfirst, hrest⟩ := List.pairwise_cons.mp h
          rw [setIn]
          split
          · exact h
          · next hother =>
              refine List.pairwise_cons.mpr ⟨fun other hin => ?_, ih hrest⟩
              rcases mem_names_setIn hin with rfl | hold
              · exact Bool.not_eq_true _ ▸ hother
              · exact hfirst other hold
  | text content => exact h
  | comment content => exact h
  | anchor name => exact h

theorem Wellnamed.removeAttribute (h : kind.Wellnamed) (name : String) :
    (kind.removeAttribute name).Wellnamed := by
  cases kind with
  | element tag entries => exact h.sublist (List.eraseP_sublist.map Prod.fst)
  | text content => exact h
  | comment content => exact h
  | anchor name => exact h

theorem Wellnamed.setContent (h : kind.Wellnamed) (content : String) :
    (kind.setContent content).Wellnamed := by
  cases kind <;> exact h

theorem Wellnamed.fillKind (h : kind.Wellnamed) (pattern : Pattern) (row : Row) :
    (Template.fillKind pattern row kind).Wellnamed := by
  cases kind with
  | element tag entries =>
      rw [Wellnamed, Template.fillKind, attributes, List.map_map]
      exact h
  | text content => exact h
  | comment content => exact h
  | anchor name => exact h

end NodeKind

namespace Markup

/-- Whether all elements have every attribute once. -/
def Wellnamed (markup : Markup) : Prop := ∀ id, (markup.kind id).Wellnamed

variable {markup before middle after : Markup} {id other : NodeId}

theorem Wellnamed.create (h : markup.Wellnamed) {kind : NodeKind} (hkind : kind.Wellnamed) :
    (markup.create kind).1.Wellnamed := by
  intro other
  rw [kind_create]
  split
  · exact hkind
  · exact h other

theorem Wellnamed.setKind (h : markup.Wellnamed) {f : NodeKind → NodeKind}
    (hf : ∀ kind : NodeKind, kind.Wellnamed → (f kind).Wellnamed) (id : NodeId) :
    (markup.setKind id f).Wellnamed := by
  intro other
  by_cases hother : other = id
  · by_cases hid : id < markup.size
    · rw [kind_setKind hid, if_pos hother]
      exact hf _ (h other)
    · have hnone : (markup.setKind id f).get? other = none :=
        get?_eq_none_of_le (by rw [size_setKind, hother]; exact Nat.le_of_not_lt hid)
      rw [kind_eq, hnone]
      exact NodeKind.wellnamed_of_none rfl
  · rw [kind_setKind_of_ne hother]
    exact h other

/-- No node is gone, none is something else, and none has an attribute twice if none had. -/
structure Keeps (before after : Markup) : Prop where
  size : before.size ≤ after.size
  kind : ∀ id < before.size, after.kind id = before.kind id
  named : before.Wellnamed → after.Wellnamed

theorem Keeps.refl (markup : Markup) : Keeps markup markup :=
  ⟨Nat.le_refl _, fun _ _ => rfl, fun h => h⟩

theorem Keeps.trans (h : Keeps before middle) (h' : Keeps middle after) : Keeps before after :=
  ⟨Nat.le_trans h.size h'.size, fun id hid =>
    (h'.kind id (Nat.lt_of_lt_of_le hid h.size)).trans (h.kind id hid), h'.named ∘ h.named⟩

theorem Keeps.of_kind (hsize : after.size = before.size)
    (hkind : ∀ id, after.kind id = before.kind id) : Keeps before after :=
  ⟨Nat.le_of_eq hsize.symm, fun id _ => hkind id, fun h id => hkind id ▸ h id⟩

theorem keeps_create (markup : Markup) {kind : NodeKind}
    (hkind : markup.Wellnamed → kind.Wellnamed) : Keeps markup (markup.create kind).1 :=
  ⟨by rw [size_create]; exact Nat.le_succ _, fun id hid => by
    rw [kind_create, if_neg (Nat.ne_of_lt hid)], fun h => h.create (hkind h)⟩

theorem keeps_append (markup : Markup) (id child : NodeId) : Keeps markup (markup.append id child) :=
  .of_kind (size_append id child) (kind_append id child)

theorem keeps_replaceChildren (markup : Markup) (id : NodeId) (nodes : List NodeId) :
    Keeps markup (markup.replaceChildren id nodes) :=
  .of_kind (size_replaceChildren id nodes) fun other => kind_replaceChildren id other nodes

theorem keeps_unwrap (markup : Markup) (parent id : NodeId) :
    Keeps markup (markup.unwrap parent id) := by
  have hinsert : ∀ (children : List NodeId) (state : Markup × Nat),
      Keeps state.1 (children.foldl (fun (state : Markup × Nat) child =>
        (state.1.insert parent state.2 child, state.2 + 1)) state).1 := by
    intro children
    induction children with
    | nil => exact fun state => .refl state.1
    | cons child rest ih =>
        intro state
        exact (Keeps.of_kind (size_insert parent child state.2)
          fun other => kind_insert parent child other state.2).trans
            (ih (state.1.insert parent state.2 child, state.2 + 1))
  rw [unwrap]
  refine (Keeps.of_kind ?_ ?_).trans (hinsert _ _)
  · rw [size_remove]
    exact size_takeChildren id
  · intro other
    rw [kind_remove]
    exact kind_takeChildren id other

/-! ## Copies -/

/-- Below the nodes from a number on there are only such nodes. -/
def Sealed (first : NodeId) (markup : Markup) : Prop :=
  ∀ id, first ≤ id → ∀ child ∈ markup.children id, first ≤ child

theorem sealed_size (markup : Markup) : Sealed markup.size markup := by
  intro id hid child hchild
  rw [children_of_le hid] at hchild
  cases hchild

theorem mem_children_append {child inner : NodeId}
    (h : child ∈ (markup.append id inner).children other) :
    child ∈ markup.children other ∨ child = inner := by
  have hdetached : ∀ {node}, node ∈ (markup.detach inner).children other →
      node ∈ markup.children other := fun hnode => (children_detach_sublist inner other).subset hnode
  rw [append] at h
  by_cases hlt : id < markup.size
  · rw [children_setChildren (by rw [size_setParent, size_detach]; exact hlt), children_setParent]
      at h
    split at h
    · rcases List.mem_append.mp h with hin | hnew
      · exact .inl (hdetached hin)
      · exact .inr (List.mem_singleton.mp hnew)
    · exact .inl (hdetached h)
  · by_cases hother : other = id
    · rw [children_of_le (by rw [hother, size_setChildren, size_setParent, size_detach]
                             exact Nat.le_of_not_lt hlt)] at h
      cases h
    · rw [children_setChildren_of_ne hother, children_setParent] at h
      exact .inl (hdetached h)

theorem Sealed.append {first inner : NodeId} (h : Sealed first markup) (hinner : first ≤ inner) :
    Sealed first (markup.append id inner) := by
  intro other hother child hchild
  rcases mem_children_append hchild with hold | rfl
  · exact h other hother child hold
  · exact hinner

theorem Sealed.create {first : NodeId} (h : Sealed first markup) (kind : NodeKind) :
    Sealed first (markup.create kind).1 := by
  intro other hother child hchild
  rw [children_create] at hchild
  exact h other hother child hchild

theorem copyTo_snd (depth : Nat) (markup : Markup) (id : NodeId) :
    (markup.copyTo depth id).2 = markup.size := by
  cases depth <;> rfl

/-- What is kept when nodes are doubled, and new nodes put below older new nodes, is kept by copying. -/
theorem copyTo_keeps {P : Markup → Prop} {first : Nat}
    (hcreate : ∀ (markup : Markup) (id : NodeId), P markup → P (markup.create (markup.kind id)).1)
    (happend : ∀ (markup : Markup) (copy inner : Nat), first ≤ copy → copy < inner →
      first ≤ inner → inner < markup.size → P markup → P (markup.append copy inner))
    (depth : Nat) (id : NodeId) (hfirst : first ≤ markup.size) (h : P markup) :
    P (markup.copyTo depth id).1 ∧ markup.size < (markup.copyTo depth id).1.size := by
  induction depth generalizing markup id with
  | zero => exact ⟨hcreate markup id h, by rw [copyTo, size_create]; exact Nat.lt_succ_self _⟩
  | succ depth ih =>
      have hfold : ∀ (copy : Nat) (nodes : List NodeId) (filled : Markup), first ≤ copy →
          copy < filled.size → P filled →
          P (nodes.foldl (fun filled child =>
            (filled.copyTo depth child).1.append copy (filled.copyTo depth child).2) filled) ∧
          filled.size ≤ (nodes.foldl (fun filled child => (filled.copyTo depth child).1.append copy
            (filled.copyTo depth child).2) filled).size := by
        intro copy nodes
        induction nodes with
        | nil => exact fun filled _ _ h => ⟨h, Nat.le_refl _⟩
        | cons node rest ihrest =>
            intro filled hcopy hlt hfilled
            have hin : first ≤ filled.size := by omega
            obtain ⟨hinner, hgrown⟩ := ih node hin hfilled
            rw [List.foldl_cons, copyTo_snd]
            have hput := happend _ copy filled.size hcopy hlt hin hgrown hinner
            obtain ⟨hrest, hsize⟩ := ihrest ((filled.copyTo depth node).1.append copy filled.size)
              hcopy (by rw [size_append]; omega) hput
            rw [size_append] at hsize
            exact ⟨hrest, by omega⟩
      obtain ⟨hall, hsize⟩ := hfold markup.size (markup.children id)
        (markup.create (markup.kind id)).1 hfirst (by rw [size_create]; exact Nat.lt_succ_self _)
        (hcreate markup id h)
      rw [size_create] at hsize
      exact ⟨hall, hsize⟩

/-- A copy is made of new nodes, and what was sealed off stays so. -/
theorem copyTo_new (depth : Nat) (markup : Markup) (id : NodeId) :
    (markup.copyTo depth id).2 = markup.size ∧ Keeps markup (markup.copyTo depth id).1 ∧
      ∀ first ≤ markup.size, Sealed first markup → Sealed first (markup.copyTo depth id).1 := by
  obtain ⟨⟨hkeeps, hsealed⟩, -⟩ := copyTo_keeps
    (P := fun copied => Keeps markup copied ∧
      ∀ first ≤ markup.size, Sealed first markup → Sealed first copied)
    (fun copied node h => ⟨h.1.trans (keeps_create copied fun hnamed => hnamed node),
      fun first hfirst hseal => (h.2 first hfirst hseal).create _⟩)
    (fun copied copy inner _ _ hinner _ h => ⟨h.1.trans (keeps_append copied copy inner),
      fun first hfirst hseal => (h.2 first hfirst hseal).append (Nat.le_trans hfirst hinner)⟩)
    depth id (Nat.le_refl markup.size) ⟨.refl markup, fun _ _ hseal => hseal⟩
  exact ⟨copyTo_snd depth markup id, hkeeps, hsealed⟩

theorem keeps_mapAccum {step : Markup → NodeId → Markup × NodeId}
    (hstep : ∀ markup id, Keeps markup (step markup id).1) (markup : Markup) (ids : List NodeId) :
    Keeps markup (mapAccum step markup ids).1 := by
  induction ids generalizing markup with
  | nil => exact .refl markup
  | cons id rest ih => exact (hstep markup id).trans (ih _)

theorem keeps_copyAll (markup : Markup) (template : List NodeId) :
    Keeps markup (markup.copyAll template).1 :=
  keeps_mapAccum (fun markup id => (copyTo_new markup.size markup id).2.1) markup template

/-! ## Filling in -/

section

variable {pattern : Pattern} {row : Row}

/-- What is kept when a row is filled in at one node is kept by filling in below it. -/
theorem fillTo_keeps {P : Markup → Prop} {first : NodeId}
    (hset : ∀ (markup : Markup) (id : NodeId), first ≤ id → P markup →
      P (markup.setKind id (Template.fillKind pattern row)))
    (depth : Nat) (hsealed : Sealed first markup) (hid : first ≤ id) (h : P markup) :
    P (fillTo pattern row markup depth id) := by
  induction depth generalizing markup id with
  | zero => exact h
  | succ depth ih =>
      have hkept : ∀ filled : Markup, (∀ other, filled.children other = markup.children other) →
          Sealed first filled := by
        intro filled hsame other hother child hchild
        rw [hsame] at hchild
        exact hsealed other hother child hchild
      rw [fillTo]
      split
      · refine (List.foldlRecOn (motive := fun filled => P filled ∧
            ∀ other, filled.children other = markup.children other) _ _
          ⟨hset markup id hid h, fun other => children_setKind id other _⟩ ?_).1
        intro filled hfilled child hchild
        refine ⟨ih (hkept filled hfilled.2) (hsealed id hid child hchild) hfilled.1, fun other => ?_⟩
        rw [children_fillTo, hfilled.2]
      · exact hset markup id hid h

/-- Filling in changes nothing outside of where it begins. -/
theorem fillTo_outside {first : NodeId} (depth : Nat) (h : Sealed first markup) (hid : first ≤ id) :
    (fillTo pattern row markup depth id).size = markup.size ∧
      ∀ other < first, (fillTo pattern row markup depth id).kind other = markup.kind other :=
  fillTo_keeps (P := fun filled => filled.size = markup.size ∧
      ∀ other < first, filled.kind other = markup.kind other)
    (fun filled node hnode hfilled => ⟨(size_setKind node _).trans hfilled.1, fun other hother => by
      rw [kind_setKind_of_ne (Nat.ne_of_lt (Nat.lt_of_lt_of_le hother hnode)),
        hfilled.2 other hother]⟩)
    depth h hid ⟨rfl, fun _ _ => rfl⟩

theorem Wellnamed.fillTo (depth : Nat) (h : markup.Wellnamed) (id : NodeId) :
    (Markup.fillTo pattern row markup depth id).Wellnamed :=
  fillTo_keeps
    (fun _ node _ hfilled =>
      hfilled.setKind (fun _ hkind => NodeKind.Wellnamed.fillKind hkind pattern row) node)
    depth (fun _ _ _ _ => Nat.zero_le _) (Nat.zero_le id) h

theorem keeps_substitute (markup : Markup) (template : List NodeId) (pattern : Pattern) (row : Row) :
    Keeps markup (markup.substitute template pattern row).1 := by
  refine keeps_mapAccum (fun markup id => ?_) markup template
  obtain ⟨hnew, hkeeps, hsealed⟩ := copyTo_new markup.size markup id
  have hcopy : Sealed markup.size (markup.copy id).1 :=
    hsealed markup.size (Nat.le_refl _) (sealed_size markup)
  obtain ⟨hsize, hkind⟩ := @fillTo_outside _ _ pattern row _
    (markup.copy id).1.size hcopy (Nat.le_of_eq hnew.symm)
  exact ⟨Nat.le_trans hkeeps.size (Nat.le_of_eq hsize.symm), fun other hother =>
    (hkind other hother).trans (hkeeps.kind other hother), fun h => (hkeeps.named h).fillTo _ _⟩

end

theorem keeps_nest (markup : Markup) (nodes nested : List NodeId) :
    Keeps markup (markup.nest nodes nested).1 := by
  rw [nest]
  split
  · refine .of_kind ?_ fun other => ?_
    · rw [size_appendAll, size_takeChildren]
    · rw [kind_appendAll, kind_takeChildren]
  · exact .refl markup

end Markup

end ReactiveMarkup
