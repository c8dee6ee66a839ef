import Mathlib.Data.List.Induction
import Mathlib.Data.List.Nodup
import ReactiveMarkup.Face.Arrangement

/-!
# Groups of rows

A view goes over the rows of its source once and puts each into the group of its text, which it looks up
in a list that grows at the end. `groupRows_eq` says what comes of that without the loop: the groups are
the different texts in the order in which they first appear, and the group of a text has the rows of that
text in the order of the source. So the groups are a partition of the rows.
-/

namespace ReactiveMarkup

/-- Where a text stands in a list, in ascending order. -/
def positions (texts : List String) (text : String) : List Nat :=
  (List.range texts.length).filter fun index => texts[index]? == some text

/-- The rows of a source whose text in a column is a given one, in the order of the source. -/
def Source.rowsOf (source : Source) (groupField text : String) : List Nat :=
  positions (source.rows.map (groupName groupField)) text

/-! ## Positions -/

section

variable {texts names : List String} {text name : String} {index : Nat}

theorem mem_positions : index ∈ positions texts text ↔ texts[index]? = some text := by
  rw [positions, List.mem_filter, List.mem_range, beq_iff_eq, and_iff_right_iff_imp]
  exact fun hat => (List.getElem?_eq_some_iff.mp hat).1

theorem positions_ne_nil (h : text ∈ texts) : positions texts text ≠ [] := by
  obtain ⟨index, hat⟩ := List.mem_iff_getElem?.mp h
  exact List.ne_nil_of_mem (mem_positions.mpr hat)

theorem positions_sorted (texts : List String) (text : String) :
    (positions texts text).Pairwise (· < ·) :=
  List.pairwise_lt_range.sublist List.filter_sublist

/-- A text that is added stands at the end, and no other one stands there. -/
theorem positions_concat (texts : List String) (name text : String) :
    positions (texts ++ [name]) text =
      positions texts text ++ if text = name then [texts.length] else [] := by
  have hbefore : ∀ index ∈ List.range texts.length,
      ((texts ++ [name])[index]? == some text) = (texts[index]? == some text) := by
    intro index hindex
    rw [List.getElem?_append_left (List.mem_range.mp hindex)]
  rw [positions, List.length_append, List.length_singleton, List.range_succ, List.filter_append,
    List.filter_congr hbefore, List.filter_singleton, List.getElem?_concat_length]
  by_cases hsame : text = name
  · subst hsame
    rw [beq_self_eq_true, if_pos rfl]
    rfl
  · rw [if_neg hsame, beq_false_of_ne fun heq => hsame (Option.some.inj heq).symm]
    rfl

theorem nodup_eraseDups : ∀ texts : List String, texts.eraseDups.Nodup
  | [] => List.nodup_nil
  | text :: rest => by
      have hshorter : (rest.filter fun other => !other == text).length < rest.length + 1 :=
        Nat.lt_succ_of_le (List.length_filter_le _ _)
      rw [List.eraseDups_cons, List.nodup_cons]
      refine ⟨fun hin => ?_, nodup_eraseDups _⟩
      have hother := (List.mem_filter.mp (List.mem_eraseDups.mp hin)).2
      rw [beq_self_eq_true] at hother
      cases hother
termination_by texts => texts.length

/-- Every position is the position of one text. -/
theorem positions_perm (texts : List String) :
    (texts.eraseDups.flatMap (positions texts)).Perm (List.range texts.length) := by
  refine (List.perm_ext_iff_of_nodup (List.nodup_flatMap.mpr ⟨fun text _ => ?_, ?_⟩)
    List.nodup_range).mpr fun index => ?_
  · exact (positions_sorted texts text).imp Nat.ne_of_lt
  · refine (nodup_eraseDups texts).imp fun {text other} hne index htext hother => hne ?_
    exact Option.some.inj ((mem_positions.mp htext).symm.trans (mem_positions.mp hother))
  · rw [List.mem_flatMap, List.mem_range]
    constructor
    · rintro ⟨text, -, hindex⟩
      exact (List.getElem?_eq_some_iff.mp (mem_positions.mp hindex)).1
    · intro hlt
      refine ⟨texts[index], List.mem_eraseDups.mpr (List.getElem_mem hlt), ?_⟩
      exact mem_positions.mpr (List.getElem?_eq_getElem hlt)

/-! ## Groups -/

variable {members : String → List Nat}

/-- A row of a text that there is a group for comes to the end of that group. -/
theorem addToGroup_of_mem (hnodup : names.Nodup) (hname : name ∈ names) :
    addToGroup name index (names.map fun text => (text, members text)) =
      names.map fun text => (text, members text ++ if text = name then [index] else []) := by
  induction names with
  | nil => cases hname
  | cons first rest ih =>
      obtain ⟨hfirst, hrest⟩ := List.nodup_cons.mp hnodup
      rw [List.map_cons, List.map_cons, addToGroup]
      by_cases hsame : first = name
      · subst hsame
        have hothers : ∀ text ∈ rest, (text, members text) =
            (text, members text ++ if text = first then [index] else []) := by
          intro text htext
          rw [if_neg fun heq => hfirst (by rwa [← heq]), List.append_nil]
        rw [if_pos rfl, if_pos rfl, List.map_congr_left hothers]
      · rw [if_neg hsame, if_neg hsame, List.append_nil,
          ih hrest ((List.mem_cons.mp hname).resolve_left fun heq => hsame heq.symm)]

/-- A row of a new text opens a group at the end. -/
theorem addToGroup_of_not_mem (hname : name ∉ names) :
    addToGroup name index (names.map fun text => (text, members text)) =
      (names.map fun text => (text, members text)) ++ [(name, [index])] := by
  induction names with
  | nil => rfl
  | cons first rest ih =>
      rw [List.mem_cons, not_or] at hname
      rw [List.map_cons, addToGroup, if_neg fun heq => hname.1 heq.symm, ih hname.2]
      rfl

/-- One row more: what is told of the groups stays true. -/
theorem addToGroup_positions (texts : List String) (name : String) :
    addToGroup name texts.length (texts.eraseDups.map fun text => (text, positions texts text)) =
      (texts ++ [name]).eraseDups.map fun text => (text, positions (texts ++ [name]) text) := by
  have hnew : [name].removeAll texts = if name ∈ texts then [] else [name] := by
    by_cases hin : name ∈ texts
    · simp [List.removeAll, hin]
    · simp [List.removeAll, hin]
  simp only [List.eraseDups_append, hnew, positions_concat]
  by_cases hin : name ∈ texts
  · rw [if_pos hin, addToGroup_of_mem (nodup_eraseDups texts) (List.mem_eraseDups.mpr hin),
      List.eraseDups_nil, List.append_nil]
  · have hold : ∀ text ∈ texts.eraseDups, (text, positions texts text) =
        (text, positions texts text ++ if text = name then [texts.length] else []) := by
      intro text htext
      rw [if_neg fun heq => hin (by rwa [← heq, ← List.mem_eraseDups]), List.append_nil]
    have hnone : positions texts name = [] :=
      List.eq_nil_iff_forall_not_mem.mpr fun index hindex =>
        hin (List.mem_of_getElem? (mem_positions.mp hindex))
    rw [if_neg hin, addToGroup_of_not_mem fun hmem => hin (List.mem_eraseDups.mp hmem),
      List.map_append, List.map_congr_left hold]
    have hlast : [name].eraseDups = [name] := rfl
    rw [hlast, List.map_singleton, hnone, if_pos rfl]
    rfl

end

/-- The groups of a view are the different texts of its column in the order in which they first appear,
each with the rows of that text. -/
theorem groupRows_eq (groupField : String) (source : Source) :
    groupRows groupField source =
      (source.rows.map (groupName groupField)).eraseDups.map fun text =>
        (text, source.rowsOf groupField text) := by
  rw [groupRows]
  simp only [Source.rowsOf]
  induction source.rows using List.reverseRecOn with
  | nil => rfl
  | append_singleton rows row ih =>
      rw [List.zipIdx_append, List.foldl_append, ih, List.map_append, List.map_singleton]
      have hadd := addToGroup_positions (rows.map (groupName groupField)) (groupName groupField row)
      rw [List.length_map] at hadd
      rw [← hadd, Nat.zero_add]
      rfl

theorem Source.lt_size_of_mem_rowsOf {source : Source} {groupField text : String} {index : Nat}
    (h : index ∈ source.rowsOf groupField text) : index < source.size := by
  have hat := (List.getElem?_eq_some_iff.mp (mem_positions.mp h)).1
  rwa [List.length_map, Source.rows, List.length_map] at hat

/-- The rows of all groups are the rows of the source. -/
theorem rowsOf_perm (groupField : String) (source : Source) :
    ((source.rows.map (groupName groupField)).eraseDups.flatMap (source.rowsOf groupField)).Perm
      (List.range source.size) := by
  have hperm := positions_perm (source.rows.map (groupName groupField))
  rw [List.length_map, Source.rows, List.length_map] at hperm
  exact hperm

end ReactiveMarkup
