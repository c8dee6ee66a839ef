import Mathlib.Logic.Relation
import ReactiveMarkup.Proofs.Unicode.Lower
import ReactiveMarkup.Scope.Broadcast

/-!
# Scopes and what is above them

What a change of one scope does to what is read off it: its parent, its sources and whether they came
over a bridge, its bridges and its handlers. A change to one of these leaves the others as they are,
and changes of waits, promises and deliveries leave all of them.

Parents have smaller numbers than their children. That is why the lineage of a scope is what it should
be, the scope and then the lineage of its parent, although it is computed up to a height.
-/

namespace ReactiveMarkup.Scopes

variable {scopes before after : Scopes} {scope other : ScopeId} {id name : String}

/-! ## Changes of one scope -/

section

variable {α : Type} {default : α} {f : Scope → Scope} {g : Scope → α}

theorem look_modify_self (scopes : Scopes) :
    (scopes.modify scope f).look scope default g = scopes.look scope default (g ∘ f) := by
  rw [look, look, modify]
  dsimp only
  rw [Arena.get?_modify, if_pos rfl]
  cases scopes.scopes.get? scope with
  | none => rfl
  | some cell => rfl

theorem look_modify_of_ne (scopes : Scopes) (h : scope ≠ other) :
    (scopes.modify scope f).look other default g = scopes.look other default g := by
  rw [look, look, modify]
  dsimp only
  rw [Arena.get?_modify, if_neg h]

/-- A change is not seen by those who do not look at what it changes. -/
theorem look_modify (scopes : Scopes) (h : ∀ cell, g (f cell) = g cell) :
    (scopes.modify scope f).look other default g = scopes.look other default g := by
  by_cases hscope : scope = other
  · have hsame : g ∘ f = g := funext h
    rw [hscope, look_modify_self, hsame]
  · exact look_modify_of_ne scopes hscope

theorem parent?_modify (h : ∀ cell, (f cell).parent = cell.parent) :
    (scopes.modify scope f).parent? other = scopes.parent? other := look_modify scopes h

theorem stored?_modify (h : ∀ cell, (f cell).sources = cell.sources) :
    (scopes.modify scope f).stored? other id = scopes.stored? other id := by
  rw [stored?, look_modify scopes h, stored?]

theorem isInherited_modify (h : ∀ cell, (f cell).inherited = cell.inherited) :
    (scopes.modify scope f).isInherited other id = scopes.isInherited other id := by
  rw [isInherited, look_modify scopes h, isInherited]

theorem hasBridge_modify (h : ∀ cell, (f cell).bridges = cell.bridges) :
    (scopes.modify scope f).hasBridge other id = scopes.hasBridge other id := by
  rw [hasBridge, look_modify scopes h, hasBridge]

theorem handlers_modify (h : ∀ cell, (f cell).handlers = cell.handlers) :
    (scopes.modify scope f).handlers other id = scopes.handlers other id := by
  rw [handlers, look_modify scopes h, handlers]

end

@[simp] theorem size_modify (f : Scope → Scope) :
    (scopes.modify scope f).scopes.size = scopes.scopes.size := Arena.size_modify _ _ _

theorem get?_of_lt (h : scope < scopes.scopes.size) :
    ∃ cell, scopes.scopes.get? scope = some cell :=
  ⟨scopes.scopes.cells[scope], Array.getElem?_eq_getElem h⟩

theorem look_of_ge {α : Type} {default : α} {g : Scope → α} (h : scopes.scopes.size ≤ scope) :
    scopes.look scope default g = default := by
  rw [look, Arena.get?, Array.getElem?_eq_none h]

theorem lt_size_of_parent? {parent : ScopeId} (h : scopes.parent? scope = some parent) :
    scope < scopes.scopes.size := by
  refine Nat.lt_of_not_le fun hge => ?_
  rw [parent?, look_of_ge hge] at h
  cases h

/-! ## Sources -/

theorem find?_putIn (source : Source) (sources : List Source) :
    (putIn source sources).find? (·.id == id) =
      if source.id = id then some source else sources.find? (·.id == id) := by
  induction sources with
  | nil => by_cases h : source.id = id <;> simp [putIn, h]
  | cons first rest ih =>
      rw [putIn]
      by_cases hfirst : first.id = source.id
      · rw [if_pos hfirst, List.find?_cons, List.find?_cons, hfirst]
        by_cases h : source.id = id
        · rw [if_pos h, h, beq_self_eq_true]
        · rw [if_neg h, beq_false_of_ne h]
      · rw [if_neg hfirst, List.find?_cons, List.find?_cons, ih]
        by_cases h : source.id = id
        · have hne : (first.id == id) = false := beq_false_of_ne (h ▸ hfirst)
          rw [if_pos h, if_pos h, hne]
        · rw [if_neg h, if_neg h]

theorem stored?_put_self {source : Source} (h : scope < scopes.scopes.size) :
    (scopes.put scope source).stored? scope source.id = some source := by
  obtain ⟨cell, hcell⟩ := get?_of_lt h
  rw [stored?, put, look_modify_self, look, hcell]
  exact (find?_putIn source cell.sources).trans (if_pos rfl)

theorem stored?_put_of_ne {source : Source} (h : ¬(scope = other ∧ source.id = id)) :
    (scopes.put scope source).stored? other id = scopes.stored? other id := by
  by_cases hscope : scope = other
  · obtain rfl := hscope
    have hid : source.id ≠ id := fun hid => h ⟨rfl, hid⟩
    rw [stored?, put, look_modify_self, stored?, look, look]
    cases scopes.scopes.get? scope with
    | none => rfl
    | some cell => exact (find?_putIn source cell.sources).trans (if_neg hid)
  · rw [stored?, put, look_modify_of_ne scopes hscope, stored?]

@[simp] theorem isInherited_put {source : Source} :
    (scopes.put scope source).isInherited other id = scopes.isInherited other id :=
  isInherited_modify fun _ => rfl

@[simp] theorem stored?_own :
    (scopes.own scope name).stored? other id = scopes.stored? other id :=
  stored?_modify fun _ => rfl

@[simp] theorem stored?_inherit :
    (scopes.inherit scope name).stored? other id = scopes.stored? other id := by
  rw [inherit]
  split
  · rfl
  · exact stored?_modify fun _ => rfl

theorem stored?_id {source : Source} (h : scopes.stored? scope id = some source) :
    source.id = id := by
  rw [stored?] at h
  simpa using List.find?_some h

theorem isInherited_own_self : (scopes.own scope id).isInherited scope id = false := by
  rw [isInherited, own, look_modify_self, look]
  cases scopes.scopes.get? scope with
  | none => rfl
  | some cell => simp

theorem isInherited_own_of_ne (h : ¬(scope = other ∧ id = name)) :
    (scopes.own scope id).isInherited other name = scopes.isInherited other name := by
  by_cases hscope : scope = other
  · obtain rfl := hscope
    have hid : name ≠ id := fun hid => h ⟨rfl, hid.symm⟩
    rw [isInherited, own, look_modify_self, isInherited, look, look]
    cases scopes.scopes.get? scope with
    | none => rfl
    | some cell =>
        rw [Bool.eq_iff_iff]
        simp [hid]
  · rw [isInherited, own, look_modify_of_ne scopes hscope, isInherited]

theorem isInherited_inherit_self (h : scope < scopes.scopes.size) :
    (scopes.inherit scope id).isInherited scope id = true := by
  rw [inherit]
  split
  · assumption
  · obtain ⟨cell, hcell⟩ := get?_of_lt h
    rw [isInherited, look_modify_self, look, hcell]
    simp

theorem isInherited_inherit_of_ne (h : ¬(scope = other ∧ id = name)) :
    (scopes.inherit scope id).isInherited other name = scopes.isInherited other name := by
  rw [inherit]
  split
  · rfl
  · by_cases hscope : scope = other
    · obtain rfl := hscope
      have hid : name ≠ id := fun hid => h ⟨rfl, hid.symm⟩
      rw [isInherited, look_modify_self, isInherited, look, look]
      cases scopes.scopes.get? scope with
      | none => rfl
      | some cell => simp [hid]
    · rw [isInherited, look_modify_of_ne scopes hscope, isInherited]

/-! ## Handlers and bridges -/

theorem mem_handlers_addLocalHandler {handler added : Handler} :
    handler ∈ (scopes.addLocalHandler scope id added).1.handlers other name ↔
      handler ∈ scopes.handlers other name ∨ scope < scopes.scopes.size ∧
        other = scope ∧ name = Unicode.lower id ∧ handler = added := by
  rw [addLocalHandler]
  split
  · next hcontained =>
      have hmem := List.contains_iff_mem.mp hcontained
      constructor
      · exact .inl
      · rintro (hin | ⟨-, rfl, rfl, rfl⟩)
        · exact hin
        · exact hmem
  · by_cases hscope : scope = other
    · obtain rfl := hscope
      rw [handlers, look_modify_self, handlers]
      by_cases hlt : scope < scopes.scopes.size
      · obtain ⟨cell, hcell⟩ := get?_of_lt hlt
        rw [look, look, hcell]
        by_cases hname : name = Unicode.lower id
        · simp [hname, hlt]
        · have hne : (Unicode.lower id == name) = false := beq_false_of_ne (Ne.symm hname)
          simp [hname, hne]
      · rw [look_of_ge (Nat.le_of_not_lt hlt), look_of_ge (Nat.le_of_not_lt hlt)]
        simp [hlt]
    · rw [handlers, look_modify_of_ne scopes hscope, handlers]
      simp [Ne.symm hscope]

theorem mem_handlers_of_removeHandler {handler removed : Handler}
    (h : handler ∈ (scopes.removeHandler scope id removed).1.handlers other name) :
    handler ∈ scopes.handlers other name := by
  rw [removeHandler] at h
  split at h
  · by_cases hscope : scope = other
    · obtain rfl := hscope
      rw [handlers, look_modify_self, look] at h
      rw [handlers, look]
      cases hcell : scopes.scopes.get? scope with
      | none =>
          rw [hcell] at h
          exact h
      | some cell =>
          rw [hcell] at h
          obtain ⟨entry, hentry, rfl⟩ := List.mem_map.mp h
          obtain ⟨hmem, hid⟩ := List.mem_filter.mp hentry
          exact List.mem_map.mpr
            ⟨entry, List.mem_filter.mpr ⟨List.erase_subset hmem, hid⟩, rfl⟩
    · rw [handlers, look_modify_of_ne scopes hscope] at h
      exact h
  · exact h

theorem mem_handlers_removeHandler {handler removed : Handler} (hne : handler ≠ removed)
    (h : handler ∈ scopes.handlers other name) :
    handler ∈ (scopes.removeHandler scope id removed).1.handlers other name := by
  rw [removeHandler]
  split
  · by_cases hscope : scope = other
    · obtain rfl := hscope
      rw [handlers, look] at h
      rw [handlers, look_modify_self, look]
      cases hcell : scopes.scopes.get? scope with
      | none =>
          rw [hcell] at h
          exact h
      | some cell =>
          rw [hcell] at h
          obtain ⟨entry, hentry, rfl⟩ := List.mem_map.mp h
          obtain ⟨hmem, hid⟩ := List.mem_filter.mp hentry
          refine List.mem_map.mpr ⟨entry, List.mem_filter.mpr ⟨?_, hid⟩, rfl⟩
          refine (List.mem_erase_of_ne ?_).mpr hmem
          rintro rfl
          exact hne rfl
    · rw [handlers, look_modify_of_ne scopes hscope]
      exact h
  · exact h

/-! ## Lineages -/

theorem lineageTo_congr (h : ∀ scope, after.parent? scope = before.parent? scope) (height : Nat)
    (scope : ScopeId) : after.lineageTo height scope = before.lineageTo height scope := by
  induction height generalizing scope with
  | zero => rfl
  | succ height ih =>
      rw [lineageTo, lineageTo, h]
      cases before.parent? scope with
      | none => rfl
      | some parent => exact congrArg _ (ih parent)

/-- Whether every parent has a smaller number than its children. -/
def Ordered (scopes : Scopes) : Prop :=
  ∀ scope parent, scopes.parent? scope = some parent → parent < scope

/-- Beyond the number of a scope, the height does not matter. -/
theorem Ordered.lineageTo_eq (h : scopes.Ordered) {height more : Nat} (hheight : scope < height)
    (hmore : scope < more) : scopes.lineageTo height scope = scopes.lineageTo more scope := by
  induction height generalizing more scope with
  | zero => cases hheight
  | succ height ih =>
      match more, hmore with
      | more + 1, hmore =>
          rw [lineageTo, lineageTo]
          cases hparent : scopes.parent? scope with
          | none => rfl
          | some parent =>
              have hlt := h scope parent hparent
              exact congrArg _ (ih (Nat.lt_of_lt_of_le hlt (Nat.le_of_lt_succ hheight))
                (Nat.lt_of_lt_of_le hlt (Nat.le_of_lt_succ hmore)))

theorem Ordered.lineage_eq (h : scopes.Ordered) (scope : ScopeId) :
    scopes.lineage scope = scope :: match scopes.parent? scope with
      | some parent => scopes.lineage parent
      | none => [] := by
  rw [lineage, lineageTo]
  cases hparent : scopes.parent? scope with
  | none => rfl
  | some parent => exact congrArg _ (h.lineageTo_eq (h scope parent hparent) (Nat.lt_succ_self parent))

/-! ## Looking up -/

/-- What is found is stored under its own id, in whatever case it is asked for. -/
theorem find?_id {source : Source} (h : scopes.find? scope id = some source) :
    source.id = Unicode.lower id := by
  obtain ⟨above, -, hstored⟩ := List.exists_of_findSome?_eq_some h
  exact stored?_id hstored

/-- Looking up depends on nothing but the scopes themselves. -/
theorem find?_of_scopes (h : after.scopes = before.scopes) (scope : ScopeId) (id : String) :
    after.find? scope id = before.find? scope id := by
  have hlook : ∀ {α : Type} (scope : ScopeId) (default : α) (f : Scope → α),
      after.look scope default f = before.look scope default f := by
    intro α scope default f
    rw [look, look, h]
  have hparent : ∀ scope, after.parent? scope = before.parent? scope := fun _ => hlook ..
  have hlocal : ∀ scope, after.local? scope id = before.local? scope id := by
    intro scope
    rw [local?, local?, stored?, stored?, hlook]
  rw [find?, find?, lineage, lineage, lineageTo_congr hparent]
  simp only [hlocal]

end ReactiveMarkup.Scopes
