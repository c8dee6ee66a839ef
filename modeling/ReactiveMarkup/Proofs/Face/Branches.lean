import Mathlib.Data.List.Nodup
import Mathlib.Data.List.Perm.Subperm
import ReactiveMarkup.Proofs.Face.Bookkeeping

/-!
# Walks over the rows of a tree

The rows that name others as their parents form any graph: there may be rows of the same key, rows that
are their own parents, and circles. A walk goes over it depth first. `Branches` is what a walk leaves: the
rows it asked for, each below the row it was first reached through, with what was given for it. A row for
which nothing was given is asked for like any other, but the walk does not go on below it.

`Walks` says when branches are those of a walk, without a bound on its depth: rows that were met are passed
over, so there is always an end. What is asked for is then a least set, whatever the order.
-/

namespace ReactiveMarkup

/-- A row whose parent is empty or no row's key. -/
def Source.IsRoot (source : Source) (parentField keyField : String) (index : Nat) : Prop :=
  ∃ row, source.rows[index]? = some row ∧ ∀ parent, filledField? row parentField = some parent →
    ∀ other ∈ source.rows, filledField? other keyField ≠ some parent

/-- A row whose parent is the key of another one. -/
def Source.IsChild (source : Source) (parentField keyField : String) (index child : Nat) : Prop :=
  ∃ row other key, source.rows[index]? = some row ∧ source.rows[child]? = some other ∧
    filledField? row keyField = some key ∧ filledField? other parentField = some key

/-- The least set of rows with all roots in it and, for each of its rows that is shown, the rows whose
parent that row is. -/
inductive Source.Reached (source : Source) (parentField keyField : String) (shown : Nat → Prop) :
    Nat → Prop
  | root {index : Nat} (root : source.IsRoot parentField keyField index) :
      Reached source parentField keyField shown index
  | child {index other : Nat} (parent : Reached source parentField keyField shown index)
      (seen : shown index) (child : source.IsChild parentField keyField index other) :
      Reached source parentField keyField shown other

namespace TreeShape

variable {source : Source} {parentField keyField : String} {index child : Nat}

theorem parentOf_eq_some {key : String} :
    (ofSource parentField keyField source).parentOf index = some key ↔
      (∃ row, source.rows[index]? = some row ∧ filledField? row parentField = some key) ∧
        ∃ other ∈ source.rows, filledField? other keyField = some key := by
  rw [parentOf, ofSource, List.getElem?_map]
  cases hrow : source.rows[index]? with
  | none => simp
  | some row =>
      rw [Option.map_some]
      cases hparent : filledField? row parentField with
      | none => simp [hparent]
      | some parent =>
          dsimp only
          split
          · next hkey =>
              rw [List.contains_iff_mem, List.mem_map] at hkey
              constructor
              · rintro ⟨⟩
                exact ⟨⟨row, rfl, hparent⟩, hkey⟩
              · rintro ⟨⟨other, hother, hsame⟩, -⟩
                obtain rfl := Option.some.inj hother
                exact hparent.symm.trans hsame
          · next hkey =>
              rw [List.contains_iff_mem, List.mem_map] at hkey
              refine iff_of_false (fun hnone => by cases hnone) ?_
              rintro ⟨⟨other, hother, hsame⟩, hsome⟩
              obtain rfl := Option.some.inj hother
              rw [Option.some.inj (hparent.symm.trans hsame)] at hkey
              exact hkey hsome

theorem lt_size_of_row {row : Row} (h : source.rows[index]? = some row) : index < source.size := by
  rw [Source.size, ← List.length_map Entry.row]
  exact (List.getElem?_eq_some_iff.mp h).1

theorem length_parents : (ofSource parentField keyField source).parents.length = source.size := by
  rw [ofSource, List.length_map, Source.rows, List.length_map]
  rfl

theorem mem_roots :
    index ∈ (ofSource parentField keyField source).roots ↔
      source.IsRoot parentField keyField index := by
  rw [roots, List.mem_filter, List.mem_range, length_parents, beq_iff_eq, Option.eq_none_iff_forall_ne_some]
  constructor
  · rintro ⟨hlt, hnone⟩
    rw [Source.size, ← List.length_map Entry.row] at hlt
    refine ⟨_, List.getElem?_eq_getElem hlt, fun parent hparent other hother hkey => ?_⟩
    exact hnone parent (parentOf_eq_some.mpr
      ⟨⟨_, List.getElem?_eq_getElem hlt, hparent⟩, other, hother, hkey⟩)
  · rintro ⟨row, hrow, hroot⟩
    refine ⟨lt_size_of_row hrow, fun parent hsome => ?_⟩
    obtain ⟨⟨same, hsame, hparent⟩, other, hother, hkey⟩ := parentOf_eq_some.mp hsome
    obtain rfl := Option.some.inj (hrow.symm.trans hsame)
    exact hroot parent hparent other hother hkey

theorem mem_childrenOf :
    child ∈ (ofSource parentField keyField source).childrenOf index ↔
      source.IsChild parentField keyField index child := by
  have hkeys : (ofSource parentField keyField source).keys[index]? =
      source.rows[index]?.map (filledField? · keyField) := List.getElem?_map
  rw [childrenOf, hkeys]
  constructor
  · intro hchild
    split at hchild
    · next key hkey =>
        obtain ⟨row, hrow, hfield⟩ := Option.map_eq_some_iff.mp hkey
        rw [List.mem_filter, beq_iff_eq] at hchild
        obtain ⟨⟨other, hother, hparent⟩, -⟩ := parentOf_eq_some.mp hchild.2
        exact ⟨row, other, key, hrow, hother, hfield, hparent⟩
    · cases hchild
  · rintro ⟨row, other, key, hrow, hother, hkey, hparent⟩
    rw [hrow, Option.map_some, hkey]
    dsimp only
    rw [List.mem_filter, List.mem_range, length_parents, beq_iff_eq]
    exact ⟨lt_size_of_row hother,
      parentOf_eq_some.mpr ⟨⟨other, hother, hparent⟩, row, List.mem_of_getElem? hrow, hkey⟩⟩

theorem lt_size_of_mem_roots (h : index ∈ (ofSource parentField keyField source).roots) :
    index < source.size := by
  obtain ⟨row, hrow, -⟩ := mem_roots.mp h
  exact lt_size_of_row hrow

theorem lt_size_of_mem_childrenOf
    (h : child ∈ (ofSource parentField keyField source).childrenOf index) : child < source.size := by
  obtain ⟨-, row, -, -, hrow, -⟩ := mem_childrenOf.mp h
  exact lt_size_of_row hrow

theorem roots_sorted (shape : TreeShape) : shape.roots.Pairwise (· < ·) :=
  List.pairwise_lt_range.sublist List.filter_sublist

theorem childrenOf_sorted (shape : TreeShape) (index : Nat) :
    (shape.childrenOf index).Pairwise (· < ·) := by
  rw [childrenOf]
  split
  · exact List.pairwise_lt_range.sublist List.filter_sublist
  · exact .nil

/-- The levels that the face of a row is looked for with: how deep the row is, and whether it is the
parent of any row. -/
def levelsAt (shape : TreeShape) (depth index : Nat) : List String :=
  [toString depth, if (shape.childrenOf index).isEmpty then "leaf" else "parent"]

end TreeShape

/-! ## Branches -/

/-- Rows that were asked for: a row with what was given for it, the rows that were first reached through
it, and the rows beside it that came later. -/
inductive Branches where
  | none
  | row (index : Nat) (result : Option Rendering) (below beside : Branches)

namespace Branches

/-- All rows, each before those below it. -/
def rows : Branches → List Nat
  | .none => []
  | .row index _ below beside => index :: (below.rows ++ beside.rows)

/-- The rows that are below no other. -/
def tops : Branches → List Nat
  | .none => []
  | .row index _ _ beside => index :: beside.tops

/-- The rows that something was given for. -/
def shown : Branches → List Nat
  | .none => []
  | .row index result below beside =>
    result.toList.map (fun _ => index) ++ (below.shown ++ beside.shown)

theorem shown_row_some (index : Nat) (rendering : Rendering) (below beside : Branches) :
    (row index (some rendering) below beside).shown = index :: (below.shown ++ beside.shown) := rfl

/-- The calls for the rows, each before those below it; the rows at the top have a depth. -/
def calls (shape : TreeShape) (source : Source) : Nat → Branches → List RowCall
  | _, .none => []
  | depth, .row index result below beside =>
    ⟨"", source, index, shape.levelsAt depth index, result⟩ ::
      (calls shape source (depth + 1) below ++ calls shape source depth beside)

/-- The rows of branches after those met before, the latest first. -/
theorem reverse_rows_row (index : Nat) (result : Option Rendering) (below beside : Branches)
    (met : List Nat) :
    (row index result below beside).rows.reverse ++ met =
      beside.rows.reverse ++ (below.rows.reverse ++ index :: met) := by
  rw [rows, List.reverse_cons, List.reverse_append, List.append_assoc, List.append_assoc]
  rfl

/-- The calls of branches after those made before, the latest first. -/
theorem reverse_calls_row (shape : TreeShape) (source : Source) (depth index : Nat)
    (result : Option Rendering) (below beside : Branches) (earlier : List RowCall) :
    ((row index result below beside).calls shape source depth).reverse ++ earlier =
      (beside.calls shape source depth).reverse ++ ((below.calls shape source (depth + 1)).reverse ++
        ⟨"", source, index, shape.levelsAt depth index, result⟩ :: earlier) := by
  rw [calls, List.reverse_cons, List.reverse_append, List.append_assoc, List.append_assoc]
  rfl

section

variable {index other : Nat} {result : Option Rendering} {below beside : Branches} {met : List Nat}

/-- What is met or asked for below a row. -/
theorem mem_of_below (h : other ∈ index :: met ∨ other ∈ below.rows) :
    other ∈ met ∨ other ∈ (row index result below beside).rows := by
  rw [rows, List.mem_cons, List.mem_append]
  rcases h with hmet | hbelow
  · rcases List.mem_cons.mp hmet with rfl | hin
    · exact .inr (.inl rfl)
    · exact .inl hin
  · exact .inr (.inr (.inl hbelow))

/-- What is met or asked for beside a row. -/
theorem mem_of_beside (h : other ∈ below.rows.reverse ++ index :: met ∨ other ∈ beside.rows) :
    other ∈ met ∨ other ∈ (row index result below beside).rows := by
  rcases h with hmet | hbeside
  · rcases List.mem_append.mp hmet with hbelow | hbefore
    · exact mem_of_below (.inr (List.mem_reverse.mp hbelow))
    · exact mem_of_below (.inl hbefore)
  · rw [rows, List.mem_cons, List.mem_append]
    exact .inr (.inr (.inr hbeside))

end

/-- The rows directly below a row have it as their parent, and are in the order of the source. -/
def Ordered (source : Source) (parentField keyField : String) : Branches → Prop
  | .none => True
  | .row index _ below beside =>
    (below.tops.Pairwise (· < ·) ∧
      ∀ other ∈ below.tops, source.IsChild parentField keyField index other) ∧
    below.Ordered source parentField keyField ∧ beside.Ordered source parentField keyField

theorem map_index_calls (shape : TreeShape) (source : Source) (depth : Nat) (branches : Branches) :
    (branches.calls shape source depth).map RowCall.index = branches.rows := by
  induction branches generalizing depth with
  | none => rfl
  | row index result below beside ihBelow ihBeside =>
      rw [calls, List.map_cons, List.map_append, ihBelow, ihBeside, rows]

/-- Each call is for a row that is there. -/
theorem inRange_of_mem_calls {shape : TreeShape} {source : Source} {depth : Nat} {branches : Branches}
    (hrows : ∀ index ∈ branches.rows, index < source.size) {call : RowCall}
    (h : call ∈ branches.calls shape source depth) : call.inRange = true := by
  induction branches generalizing depth with
  | none => cases h
  | row index result below beside ihBelow ihBeside =>
      rw [rows, List.forall_mem_cons, List.forall_mem_append] at hrows
      obtain ⟨hindex, hbelow, hbeside⟩ := hrows
      rw [calls, List.mem_cons, List.mem_append] at h
      rcases h with rfl | hin | hin
      · exact RowCall.inRange_of_lt hindex
      · exact ihBelow hbelow hin
      · exact ihBeside hbeside hin

theorem mem_shown_iff {shape : TreeShape} {source : Source} {depth index : Nat}
    {branches : Branches} :
    index ∈ branches.shown ↔
      ∃ call ∈ branches.calls shape source depth, call.index = index ∧ call.result.isSome = true := by
  induction branches generalizing depth with
  | none => simp [shown, calls]
  | row other result below beside ihBelow ihBeside =>
      have hfirst : index ∈ result.toList.map (fun _ => other) ↔
          other = index ∧ result.isSome = true := by
        cases result <;> simp [eq_comm]
      rw [shown, List.mem_append, List.mem_append, hfirst, @ihBelow (depth + 1), @ihBeside depth,
        calls]
      simp only [List.mem_cons, List.mem_append, or_and_right, exists_or, exists_eq_left]

end Branches

/-! ## Walks -/

/-- The branches of a walk: `met` are the rows that were met before, `pending` the rows that are walked
over. A row that was met is passed over. Any other is asked for, and if something is given for it, the
rows whose parent it is are walked over before those behind it. -/
inductive Walks (shape : TreeShape) : List Nat → List Nat → Branches → Prop
  | done {met : List Nat} : Walks shape met [] .none
  | again {met behind : List Nat} {index : Nat} {branches : Branches} (known : index ∈ met)
      (rest : Walks shape met behind branches) : Walks shape met (index :: behind) branches
  | refused {met behind : List Nat} {index : Nat} {beside : Branches} (unmet : index ∉ met)
      (rest : Walks shape (index :: met) behind beside) :
      Walks shape met (index :: behind) (.row index none .none beside)
  | shown {met behind : List Nat} {index : Nat} {rendering : Rendering} {below beside : Branches}
      (unmet : index ∉ met) (inside : Walks shape (index :: met) (shape.childrenOf index) below)
      (rest : Walks shape (below.rows.reverse ++ index :: met) behind beside) :
      Walks shape met (index :: behind) (.row index (some rendering) below beside)

namespace Walks

variable {shape : TreeShape} {met pending : List Nat} {branches : Branches}

/-- No row is asked for that was met, and none twice. -/
theorem nodup (h : Walks shape met pending branches) :
    branches.rows.Nodup ∧ ∀ index ∈ branches.rows, index ∉ met := by
  induction h with
  | done => exact ⟨List.nodup_nil, List.forall_mem_nil _⟩
  | again _ _ ih => exact ih
  | @refused met behind index beside unmet rest ih =>
      obtain ⟨hnodup, hmet⟩ := ih
      simp only [List.mem_cons, not_or] at hmet
      refine ⟨List.nodup_cons.mpr ⟨fun hin => (hmet _ hin).1 rfl, hnodup⟩, ?_⟩
      exact List.forall_mem_cons.mpr ⟨unmet, fun other hother => (hmet other hother).2⟩
  | @shown met behind index rendering below beside unmet inside rest ihInside ihRest =>
      obtain ⟨hbelow, hbelowMet⟩ := ihInside
      obtain ⟨hbeside, hbesideMet⟩ := ihRest
      simp only [List.mem_append, List.mem_reverse, List.mem_cons, not_or] at hbelowMet hbesideMet
      refine ⟨List.nodup_cons.mpr ⟨?_, ?_⟩, ?_⟩
      · rw [List.mem_append, not_or]
        exact ⟨fun hin => (hbelowMet _ hin).1 rfl, fun hin => (hbesideMet _ hin).2.1 rfl⟩
      · exact List.nodup_append.mpr ⟨hbelow, hbeside, fun other hother another hanother heq =>
          (hbesideMet another hanother).1 (heq ▸ hother)⟩
      · refine List.forall_mem_cons.mpr ⟨unmet, List.forall_mem_append.mpr ⟨?_, ?_⟩⟩
        · exact fun other hother => (hbelowMet other hother).2
        · exact fun other hother => (hbesideMet other hother).2.2

/-- What is closed under the rows below those that are shown holds of all rows asked for. -/
theorem closed {holds : Nat → Prop} (h : Walks shape met pending branches)
    (hpending : ∀ index ∈ pending, holds index)
    (hchild : ∀ index ∈ branches.shown, holds index → ∀ other ∈ shape.childrenOf index, holds other) :
    ∀ index ∈ branches.rows, holds index := by
  induction h with
  | done => exact List.forall_mem_nil _
  | again _ _ ih => exact ih (List.forall_mem_cons.mp hpending).2 hchild
  | refused _ _ ih =>
      obtain ⟨hfirst, hbehind⟩ := List.forall_mem_cons.mp hpending
      exact List.forall_mem_cons.mpr ⟨hfirst, ih hbehind hchild⟩
  | @shown met behind index rendering below beside _ _ _ ihInside ihRest =>
      obtain ⟨hfirst, hbehind⟩ := List.forall_mem_cons.mp hpending
      rw [Branches.shown_row_some, List.forall_mem_cons, List.forall_mem_append] at hchild
      obtain ⟨hself, hbelow, hbeside⟩ := hchild
      exact List.forall_mem_cons.mpr ⟨hfirst, List.forall_mem_append.mpr
        ⟨ihInside (hself hfirst) hbelow, ihRest hbehind hbeside⟩⟩

/-- Every row that is walked over was met or is asked for, and so is every row below one that is
shown. -/
theorem complete (h : Walks shape met pending branches) :
    (∀ index ∈ pending, index ∈ met ∨ index ∈ branches.rows) ∧
      ∀ index ∈ branches.shown, ∀ other ∈ shape.childrenOf index,
        other ∈ met ∨ other ∈ branches.rows := by
  induction h with
  | done => exact ⟨List.forall_mem_nil _, List.forall_mem_nil _⟩
  | again known _ ih => exact ⟨List.forall_mem_cons.mpr ⟨.inl known, ih.1⟩, ih.2⟩
  | refused _ _ ih =>
      refine ⟨List.forall_mem_cons.mpr ⟨.inr List.mem_cons_self, fun other hother => ?_⟩,
        fun other hother another hanother => ?_⟩
      · exact Branches.mem_of_beside (ih.1 other hother)
      · exact Branches.mem_of_beside (ih.2 other hother another hanother)
  | shown _ _ _ ihInside ihRest =>
      refine ⟨List.forall_mem_cons.mpr ⟨.inr List.mem_cons_self, fun other hother => ?_⟩, ?_⟩
      · exact Branches.mem_of_beside (ihRest.1 other hother)
      · rw [Branches.shown_row_some]
        refine List.forall_mem_cons.mpr ⟨fun other hother => ?_, List.forall_mem_append.mpr
          ⟨fun other hother another hanother => ?_, fun other hother another hanother => ?_⟩⟩
        · exact Branches.mem_of_below (ihInside.1 other hother)
        · exact Branches.mem_of_below (ihInside.2 other hother another hanother)
        · exact Branches.mem_of_beside (ihRest.2 other hother another hanother)

/-- Rows beside each other are in the order in which they are walked over. -/
theorem tops_sublist (h : Walks shape met pending branches) : branches.tops.Sublist pending := by
  induction h with
  | done => exact List.Sublist.slnil
  | again _ _ ih => exact ih.trans (List.sublist_cons_self _ _)
  | refused _ _ ih => exact ih.cons_cons _
  | shown _ _ _ _ ih => exact ih.cons_cons _

theorem ordered {source : Source} {parentField keyField : String}
    (h : Walks (.ofSource parentField keyField source) met pending branches) :
    branches.Ordered source parentField keyField := by
  induction h with
  | done => exact trivial
  | again _ _ ih => exact ih
  | refused _ _ ih => exact ⟨⟨.nil, List.forall_mem_nil _⟩, trivial, ih⟩
  | shown _ inside _ ihInside ihRest =>
      have htops := inside.tops_sublist
      refine ⟨⟨(TreeShape.childrenOf_sorted _ _).sublist htops, fun other hother => ?_⟩, ihInside, ihRest⟩
      exact TreeShape.mem_childrenOf.mp (htops.subset hother)

/-- The rows that a walk from the roots asks for. -/
theorem mem_rows_iff_reached {source : Source} {parentField keyField : String}
    (h : Walks (.ofSource parentField keyField source) []
      (TreeShape.ofSource parentField keyField source).roots branches) (index : Nat) :
    index ∈ branches.rows ↔
      source.Reached parentField keyField (fun other => other ∈ branches.shown) index := by
  constructor
  · refine h.closed (fun root hroot => .root (TreeShape.mem_roots.mp hroot)) ?_ index
    exact fun parent hshown hparent other hother =>
      .child hparent hshown (TreeShape.mem_childrenOf.mp hother)
  · obtain ⟨hroots, hbelow⟩ := h.complete
    intro hreached
    induction hreached with
    | root root =>
        exact (hroots _ (TreeShape.mem_roots.mpr root)).resolve_left List.not_mem_nil
    | child _ seen child _ =>
        exact (hbelow _ seen _ (TreeShape.mem_childrenOf.mpr child)).resolve_left List.not_mem_nil

end Walks

end ReactiveMarkup
