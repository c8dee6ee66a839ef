import ReactiveMarkup.Proofs.Markup.Edits
import ReactiveMarkup.Proofs.Markup.Escapes
import ReactiveMarkup.Proofs.Pattern.Sweep

/-!
# Substitution

A template is filled in on a copy. Copying puts new nodes below new nodes, and filling in goes down from
the copy, so neither comes to a node that was there before: its kind, its children and its parent are
the same in the table afterwards. What is returned consists of new nodes only, each found once.

Nothing else is needed for a template to be used again and again. Whatever is done to other nodes in
between, the template stands as it stood, and substituting a row says the same as the first time.
-/

namespace ReactiveMarkup

open Plot

/-! ## What a substitution says -/

namespace Shape

mutual

/-- A shape is another one with a row filled in: in the values of attributes and in texts, but neither
in comments nor below texts and comments. -/
inductive Fills (pattern : Pattern) (row : Row) : Shape → Shape → Prop
  | element {tag : String} {attributes filled : List (String × String)}
      {children copies : List Shape}
      (values : List.Forall₂
        (fun entry copy => copy.1 = entry.1 ∧ Template.FilledIn pattern row entry.2 copy.2)
        attributes filled)
      (below : FillsAll pattern row children copies) :
      Fills pattern row (.node (.element tag attributes) children) (.node (.element tag filled) copies)
  | text {content filled : String} {children : List Shape}
      (said : Template.FilledIn pattern row content filled) :
      Fills pattern row (.node (.text content) children) (.node (.text filled) children)
  | comment {content : String} {children : List Shape} :
      Fills pattern row (.node (.comment content) children) (.node (.comment content) children)
  | anchor {name : String} {children copies : List Shape}
      (below : FillsAll pattern row children copies) :
      Fills pattern row (.node (.anchor name) children) (.node (.anchor name) copies)

/-- Shapes are other ones with a row filled in, one by one. -/
inductive FillsAll (pattern : Pattern) (row : Row) : List Shape → List Shape → Prop
  | nil : FillsAll pattern row [] []
  | cons {shape copy : Shape} {rest copies : List Shape} (first : Fills pattern row shape copy)
      (more : FillsAll pattern row rest copies) :
      FillsAll pattern row (shape :: rest) (copy :: copies)

end

mutual

theorem fills_fill (pattern : Pattern) (row : Row) : ∀ shape : Shape,
    Fills pattern row shape (shape.fill pattern row)
  | .node (.element tag attributes) children => by
      refine .element ?_ (fillsAll_fillAll pattern row children)
      rw [List.forall₂_map_right_iff, List.forall₂_same]
      exact fun entry _ => ⟨rfl, Template.filledIn_iff.mpr rfl⟩
  | .node (.text _) _ => .text (Template.filledIn_iff.mpr rfl)
  | .node (.comment _) _ => .comment
  | .node (.anchor name) children => .anchor (fillsAll_fillAll pattern row children)

theorem fillsAll_fillAll (pattern : Pattern) (row : Row) : ∀ shapes : List Shape,
    FillsAll pattern row shapes (fillAll pattern row shapes)
  | [] => .nil
  | shape :: rest => .cons (fills_fill pattern row shape) (fillsAll_fillAll pattern row rest)

end

end Shape

/-! ## What was there before -/

namespace Markup

variable {markup changed : Markup} {first id other : NodeId} {pattern : Pattern} {row : Row}

theorem get?_setKind_of_ne (h : other ≠ id) (f : NodeKind → NodeKind) :
    (markup.setKind id f).get? other = markup.get? other := by
  rw [setKind, Arena.get?_modify, if_neg h.symm]

theorem get?_setChildren_of_ne (h : other ≠ id) (f : List NodeId → List NodeId) :
    (markup.setChildren id f).get? other = markup.get? other := by
  rw [setChildren, Arena.get?_modify, if_neg h.symm]

theorem get?_setParent_of_ne (h : other ≠ id) (parent : Option NodeId) :
    (markup.setParent id parent).get? other = markup.get? other := by
  rw [setParent, Arena.get?_modify, if_neg h.symm]

/-- The nodes below a number are as they were, and no other node has one of them as its parent or among
its children. -/
structure Untouched (first : NodeId) (markup changed : Markup) : Prop where
  size : first ≤ changed.size
  cells : ∀ id < first, changed.get? id = markup.get? id
  parents : ∀ id, first ≤ id → ∀ parent ∈ changed.parent? id, first ≤ parent
  below : Sealed first changed

namespace Untouched

theorem refl (markup : Markup) : Untouched markup.size markup markup where
  size := Nat.le_refl _
  cells _ _ := rfl
  parents id hid parent hparent := by
    rw [parent?_of_le hid] at hparent
    cases hparent
  below := sealed_size markup

theorem create (h : Untouched first markup changed) (kind : NodeKind) :
    Untouched first markup (changed.create kind).1 where
  size := by
    rw [size_create]
    exact Nat.le_succ_of_le h.size
  cells id hid := by
    rw [Markup.create, Arena.get?_push, if_neg (Nat.ne_of_lt (Nat.lt_of_lt_of_le hid h.size))]
    exact h.cells id hid
  parents id hid parent hparent := by
    rw [parent?_create] at hparent
    exact h.parents id hid parent hparent
  below := h.below.create kind

theorem setKind (h : Untouched first markup changed) (hid : first ≤ id)
    (f : NodeKind → NodeKind) : Untouched first markup (changed.setKind id f) where
  size := by
    rw [size_setKind]
    exact h.size
  cells other hother := by
    rw [get?_setKind_of_ne (Nat.ne_of_lt (Nat.lt_of_lt_of_le hother hid)), h.cells other hother]
  parents other hother parent hparent := by
    rw [parent?_setKind] at hparent
    exact h.parents other hother parent hparent
  below other hother child hchild := by
    rw [children_setKind] at hchild
    exact h.below other hother child hchild

theorem get?_detach (h : Untouched first markup changed) (hid : first ≤ id) (hother : other < first) :
    (changed.detach id).get? other = changed.get? other := by
  have hne : ∀ {node : Nat}, first ≤ node → other ≠ node := fun hnode =>
    Nat.ne_of_lt (Nat.lt_of_lt_of_le hother hnode)
  rw [detach]
  split
  · next parent hparent =>
      rw [remove]
      split
      · rw [get?_setParent_of_ne (hne hid),
          get?_setChildren_of_ne (hne (h.parents id hid parent hparent))]
      · rfl
  · rfl

theorem parent?_detach_mem {parent : NodeId} (hparent : parent ∈ (changed.detach id).parent? other) :
    parent ∈ changed.parent? other := by
  rw [detach] at hparent
  split at hparent
  · rw [parent?_remove] at hparent
    split at hparent
    · cases hparent
    · exact hparent
  · exact hparent

/-- A new node is put below a new node. It may have to be taken from a third one, which is new too. -/
theorem append {copy inner : NodeId} (h : Untouched first markup changed) (hcopy : first ≤ copy)
    (hinner : first ≤ inner) (hlt : inner < changed.size) :
    Untouched first markup (changed.append copy inner) where
  size := by
    rw [size_append]
    exact h.size
  cells id hid := by
    rw [Markup.append, get?_setChildren_of_ne (Nat.ne_of_lt (Nat.lt_of_lt_of_le hid hcopy)),
      get?_setParent_of_ne (Nat.ne_of_lt (Nat.lt_of_lt_of_le hid hinner)), h.get?_detach hinner hid,
      h.cells id hid]
  parents id hid parent hparent := by
    rw [Markup.append, parent?_setChildren, parent?_setParent (by rwa [size_detach])] at hparent
    split at hparent
    · rwa [← Option.some.inj hparent]
    · exact h.parents id hid parent (parent?_detach_mem hparent)
  below := h.below.append hinner

theorem copy (h : Untouched first markup changed) (id : NodeId) :
    Untouched first markup (changed.copy id).1 :=
  (copyTo_keeps (P := Untouched first markup) (fun _ _ hcopied => hcopied.create _)
    (fun _ _ _ hcopy _ hinner hlt hcopied => hcopied.append hcopy hinner hlt)
    changed.size id h.size h).1

theorem fillTo (h : Untouched first markup changed) (depth : Nat) (hid : first ≤ id) :
    Untouched first markup (fillTo pattern row changed depth id) :=
  fillTo_keeps (P := Untouched first markup) (fun _ _ hnode hfilled => hfilled.setKind hnode _) depth
    h.below hid h

/-- What is made node by node, of new nodes only, touches nothing that was there. -/
theorem mapAccum {step : Markup → NodeId → Markup × NodeId}
    (hstep : ∀ {changed : Markup} (id : NodeId), Untouched first markup changed →
      Untouched first markup (step changed id).1 ∧ first ≤ (step changed id).2)
    (h : Untouched first markup changed) (template : List NodeId) :
    Untouched first markup (ReactiveMarkup.mapAccum step changed template).1 ∧
      ∀ id ∈ (ReactiveMarkup.mapAccum step changed template).2, first ≤ id := by
  induction template generalizing changed with
  | nil => exact ⟨h, fun id hid => (List.not_mem_nil hid).elim⟩
  | cons id rest ih =>
      obtain ⟨hfirst, hnew⟩ := hstep id h
      obtain ⟨hrest, hids⟩ := ih hfirst
      exact ⟨hrest, List.forall_mem_cons.mpr ⟨hnew, hids⟩⟩

theorem le_copy (h : Untouched first markup changed) (id : NodeId) : first ≤ (changed.copy id).2 := by
  rw [Markup.copy, copyTo_snd]
  exact h.size

/-- A substitution touches nothing that was there, and what it returns is new. -/
theorem substitute (h : Untouched first markup changed) (template : List NodeId) (pattern : Pattern)
    (row : Row) :
    Untouched first markup (changed.substitute template pattern row).1 ∧
      ∀ id ∈ (changed.substitute template pattern row).2, first ≤ id := by
  rw [Markup.substitute]
  refine h.mapAccum (fun id hchanged => ?_) template
  exact ⟨(hchanged.copy id).fillTo _ (hchanged.le_copy id), hchanged.le_copy id⟩

theorem copyAll (h : Untouched first markup changed) (template : List NodeId) :
    Untouched first markup (changed.copyAll template).1 ∧
      ∀ id ∈ (changed.copyAll template).2, first ≤ id :=
  h.mapAccum (fun id hchanged => ⟨hchanged.copy id, hchanged.le_copy id⟩) template

end Untouched

theorem length_mapAccum {step : Markup → NodeId → Markup × NodeId} (markup : Markup)
    (template : List NodeId) : (mapAccum step markup template).2.length = template.length := by
  induction template generalizing markup with
  | nil => rfl
  | cons id rest ih => exact congrArg Nat.succ (ih _)

/-- A substitution gives one node for each of its template. -/
theorem length_substitute (markup : Markup) (template : List NodeId) (pattern : Pattern) (row : Row) :
    (markup.substitute template pattern row).2.length = template.length := length_mapAccum _ _

end Markup

namespace Plot

mutual

/-- Below a new node there are new nodes. -/
theorem Stands.le_ids {markup : Markup} {first : NodeId} (hsealed : Markup.Sealed first markup) :
    ∀ {plot : Plot}, Stands markup plot → first ≤ plot.root → ∀ id ∈ plot.ids, first ≤ id
  | .tree root kind children, h, hroot, id, hid => by
      rcases List.mem_cons.mp hid with rfl | hin
      · exact hroot
      · refine StandAll.le_ids hsealed h.2.2.2 (fun child hchild => ?_) id hin
        exact hsealed root hroot child (h.2.2.1 ▸ hchild)
  | .gap root kind, _, hroot, id, hid => by
      rw [ids, List.mem_singleton] at hid
      rwa [hid]

theorem StandAll.le_ids {markup : Markup} {first : NodeId} (hsealed : Markup.Sealed first markup) :
    ∀ {plots : List Plot}, StandAll markup plots → (∀ id ∈ plots.map root, first ≤ id) →
      ∀ id ∈ idsIn plots, first ≤ id
  | [], _, _, id, hid => by cases hid
  | plot :: rest, h, hroots, id, hid => by
      rw [List.map_cons, List.forall_mem_cons] at hroots
      rcases List.mem_append.mp hid with hin | hin
      · exact Stands.le_ids hsealed h.1 hroots.1 id hin
      · exact StandAll.le_ids hsealed h.2 hroots.2 id hin

end

end Plot

/-! ## What is done in between -/

namespace Garden

variable {markup changed : Markup} {plots : List Plot} {template : List NodeId}

theorem untouched (h : Garden markup plots) (hsame : Markup.Untouched markup.size markup changed) :
    Garden changed plots := by
  have hcells : ∀ id ∈ idsIn plots, changed.get? id = markup.get? id := fun id hid =>
    hsame.cells id (StandAll.lt_size h.stands id hid)
  refine h.frame hsame.size (fun id hid => ?_) (fun id hid => ?_)
  · rw [Markup.kind_eq, hcells id hid, ← Markup.kind_eq]
  · rw [Markup.children_eq, hcells id (toldIn_subset_idsIn plots hid), ← Markup.children_eq]

/-- Plots stand on when an edit names none of their nodes. -/
theorem edit (h : Garden markup plots) (edit : Edit) (hnodes : ∀ id ∈ edit.nodes, id ∉ idsIn plots) :
    Garden (edit.apply markup) plots := by
  have htold : ∀ {id : NodeId}, id ∉ idsIn plots → ∀ other ∈ toldIn plots, other ≠ id :=
    fun hid other hother heq => hid (toldIn_subset_idsIn plots (heq ▸ hother))
  have hlisted : ∀ {id : NodeId}, id ∉ idsIn plots → ∀ other ∈ toldIn plots,
      id ∉ markup.children other :=
    fun hid other hother hmem => hid (StandAll.children_subset h.stands other hother hmem)
  have hset : ∀ {id : NodeId} (f : NodeKind → NodeKind), id ∉ idsIn plots →
      Garden (markup.setKind id f) plots := by
    intro id f hid
    refine h.frame (Nat.le_of_eq (Markup.size_setKind id f).symm) (fun other hother => ?_)
      fun other _ => Markup.children_setKind id other f
    exact Markup.kind_setKind_of_ne fun heq => hid (heq ▸ hother)
  cases edit with
  | create kind bare => exact h.untouched ((Markup.Untouched.refl markup).create kind)
  | copy id => exact h.untouched ((Markup.Untouched.refl markup).copy id)
  | setAttribute id name value => exact hset _ (hnodes id List.mem_cons_self)
  | removeAttribute id name => exact hset _ (hnodes id List.mem_cons_self)
  | setContent id content => exact hset _ (hnodes id List.mem_cons_self)
  | append id child =>
      simp only [Edit.nodes, List.forall_mem_cons] at hnodes
      exact h.frame (Nat.le_of_eq (Markup.size_append id child).symm)
        (fun other _ => Markup.kind_append id child other) fun other hother =>
          Markup.children_append_of_ne (htold hnodes.1 other hother) (hlisted hnodes.2.1 other hother)
  | insert id index child =>
      simp only [Edit.nodes, List.forall_mem_cons] at hnodes
      exact h.frame (Nat.le_of_eq (Markup.size_insert id child index).symm)
        (fun other _ => Markup.kind_insert id child other index) fun other hother =>
          Markup.children_insert_of_ne (htold hnodes.1 other hother) (hlisted hnodes.2.1 other hother)
  | remove id child =>
      simp only [Edit.nodes, List.forall_mem_cons] at hnodes
      refine h.frame (Nat.le_of_eq (Markup.size_remove id child).symm)
        (fun other _ => Markup.kind_remove id child other) fun other hother => ?_
      rw [Edit.apply, Markup.children_remove, if_neg (htold hnodes.1 other hother)]
  | detach id =>
      exact h.frame (Nat.le_of_eq (Markup.size_detach id).symm)
        (fun other _ => Markup.kind_detach id other) fun other hother =>
          Markup.children_detach_of_not_mem (hlisted (hnodes id List.mem_cons_self) other hother)
  | takeChildren id =>
      refine h.frame (Nat.le_of_eq (Markup.size_takeChildren id).symm)
        (fun other _ => Markup.kind_takeChildren id other) fun other hother => ?_
      rw [Edit.apply, Markup.children_takeChildren,
        if_neg (htold (hnodes id List.mem_cons_self) other hother)]
  | replaceChildren id nodes =>
      simp only [Edit.nodes, List.forall_mem_cons] at hnodes
      exact h.frame (Nat.le_of_eq (Markup.size_replaceChildren id nodes).symm)
        (fun other _ => Markup.kind_replaceChildren id other nodes) fun other hother =>
          Markup.children_replaceChildren_of_ne (htold hnodes.1 other hother)
            fun node hnode => hlisted (hnodes.2 node hnode) other hother

end Garden

/-- A forest after any number of substitutions, of any templates, and of edits that name no node of some
plots. -/
inductive Handled (plots : List Plot) (markup : Markup) : Markup → Prop
  | start : Handled plots markup markup
  | substitute {changed : Markup} (template : List NodeId) (pattern : Pattern) (row : Row)
      (earlier : Handled plots markup changed) :
      Handled plots markup (changed.substitute template pattern row).1
  | edit {changed : Markup} (edit : Edit) (named : ∀ id ∈ edit.nodes, id ∉ idsIn plots)
      (earlier : Handled plots markup changed) : Handled plots markup (edit.apply changed)

theorem Handled.garden {markup later : Markup} {plots : List Plot} (h : Handled plots markup later)
    (hgarden : Garden markup plots) : Garden later plots := by
  induction h with
  | start => exact hgarden
  | substitute template pattern row earlier ih =>
      exact ih.untouched ((Markup.Untouched.refl _).substitute template pattern row).1
  | edit edit named earlier ih => exact ih.edit edit named

/-! ## Substituting -/

section

variable {markup : Markup} {plots : List Plot} {template : List NodeId}

/-- A substitution is told by the shapes of the template. -/
theorem Garden.substituted (h : Garden markup plots)
    (htemplate : ∀ id ∈ template, ∃ plot ∈ plots, plot.IsWhole ∧ plot.root = id)
    (pattern : Pattern) (row : Row) :
    ((markup.substitute template pattern row).2.flatMap
        (markup.substitute template pattern row).1.nodes).Nodup ∧
      (∀ id ∈ (markup.substitute template pattern row).2.flatMap
          (markup.substitute template pattern row).1.nodes,
        markup.size ≤ id ∧ id < (markup.substitute template pattern row).1.size) ∧
      (markup.substitute template pattern row).2.map
          (markup.substitute template pattern row).1.shape =
        Shape.fillAll pattern row (template.map markup.shape) ∧
      (markup.substitute template pattern row).1.html (markup.substitute template pattern row).2 =
        Fragment.html (Shape.fragments (Shape.fillAll pattern row (template.map markup.shape))) := by
  obtain ⟨hsame, hnew⟩ := (Markup.Untouched.refl markup).substitute template pattern row
  obtain ⟨copies, hnodes, hshapes, hwhole, hgarden⟩ :=
    h.substitute pattern row (h.rooted_shape htemplate)
  have hcopies := hgarden.left
  rw [← hnodes] at hnew ⊢
  rw [hcopies.nodes_eq hwhole, hcopies.shapes_eq hwhole, hcopies.html_eq hwhole, hshapes]
  refine ⟨hcopies.apart, fun id hid => ⟨?_, StandAll.lt_size hcopies.stands id hid⟩, rfl, rfl⟩
  exact StandAll.le_ids hsame.below hcopies.stands hnew id hid

/-- Substitution is a pure copy. Every node that was there keeps its kind, its children and its parent,
so a template is not changed. What is returned are new nodes, no node is in it twice, and it has the
shapes of the template with the row filled in. And whatever is done in between, as long as no node of
the template is named, substituting the row again gives the same HTML. -/
theorem substitute_copies (h : Garden markup plots)
    (htemplate : ∀ id ∈ template, ∃ plot ∈ plots, plot.IsWhole ∧ plot.root = id)
    (pattern : Pattern) (row : Row) :
    (∀ id < markup.size, (markup.substitute template pattern row).1.get? id = markup.get? id) ∧
    ((markup.substitute template pattern row).2.flatMap
      (markup.substitute template pattern row).1.nodes).Nodup ∧
    (∀ id ∈ (markup.substitute template pattern row).2.flatMap
        (markup.substitute template pattern row).1.nodes,
      markup.size ≤ id ∧ id < (markup.substitute template pattern row).1.size) ∧
    Shape.FillsAll pattern row (template.map markup.shape)
      ((markup.substitute template pattern row).2.map
        (markup.substitute template pattern row).1.shape) ∧
    ∀ later, Handled plots markup later →
      (later.substitute template pattern row).1.html (later.substitute template pattern row).2 =
        (markup.substitute template pattern row).1.html
          (markup.substitute template pattern row).2 := by
  obtain ⟨hnodup, hfresh, hshapes, hhtml⟩ := h.substituted htemplate pattern row
  refine ⟨((Markup.Untouched.refl markup).substitute template pattern row).1.cells, hnodup, hfresh,
    ?_, fun later hlater => ?_⟩
  · rw [hshapes]
    exact Shape.fillsAll_fillAll pattern row _
  · have hstands := hlater.garden h
    have hsame : template.map later.shape = template.map markup.shape := by
      refine List.map_congr_left fun id hid => ?_
      obtain ⟨plot, hplot, hwhole, rfl⟩ := htemplate id hid
      rw [hstands.shape_eq hplot hwhole, h.shape_eq hplot hwhole]
    rw [(hstands.substituted htemplate pattern row).2.2.2, hhtml, hsame]

end

/-- The badge filled in, changed, and filled in again. The column says what looks like another slot. -/
theorem badge_filled_again :
    let row : Row := [("v", .string "@v & @v")]
    let filled := badge.substitute [0] signPattern row
    let changed := (Edit.setContent 4 "gone").apply filled.1
    Garden badge [.tree 0 (.element "b" [("title", "@v")])
      [.tree 1 (.text "@v") [], .tree 2 (.comment "@v") []]] ∧
    filled.2 = [3] ∧ changed.html [3] = "<b title=\"@v &amp; @v\">gone<!--@v--></b>" ∧
    (changed.substitute [0] signPattern row).1.html (changed.substitute [0] signPattern row).2 =
      "<b title=\"@v &amp; @v\">@v &amp; @v<!--@v--></b>" := by
  intro row filled changed
  have hgarden : Garden badge [.tree 0 (.element "b" [("title", "@v")])
      [.tree 1 (.text "@v") [], .tree 2 (.comment "@v") []]] := by
    refine ⟨?_, by decide⟩
    simp only [Plot.StandAll, Plot.Stands]
    decide
  have htemplate : ∀ id ∈ [0], ∃ plot ∈ [Plot.tree 0 (.element "b" [("title", "@v")])
      [.tree 1 (.text "@v") [], .tree 2 (.comment "@v") []]], plot.IsWhole ∧ plot.root = id := by
    intro id hid
    exact ⟨_, List.mem_singleton_self _, by simp [Plot.IsWhole, Plot.AreWhole],
      (List.mem_singleton.mp hid).symm⟩
  have hagain := (substitute_copies hgarden htemplate signPattern row).2.2.2.2 changed
    (.edit (.setContent 4 "gone") (fun id hid => by rw [List.mem_singleton.mp hid]; decide)
      (.substitute [0] signPattern row .start))
  refine ⟨hgarden, rfl, by decide +kernel, hagain.trans (by decide +kernel)⟩

/-- A text with another one below it. -/
def caption : Markup := ⟨#[
  { kind := .text "@v", children := [1] },
  { kind := .text "@v", parent := some 0 }]⟩

/-- A sign with a column behind it or without. -/
def looseSign : Pattern :=
  .ofRule (.sequence (.one (.single '@')) (.optional (.group 1 (.one (.single 'v'))) true))

/-- A text below a text is copied as it is, although no comment is near. And a match in which the group
took no part is replaced by the column without a name. -/
theorem text_below_text_unfilled :
    Garden caption [.tree 0 (.text "@v") [.tree 1 (.text "@v") []]] ∧
    (caption.substitute [0] signPattern [("v", .string "x")]).2 = [2] ∧
    (caption.substitute [0] signPattern [("v", .string "x")]).1.kind 2 = .text "x" ∧
    (caption.substitute [0] signPattern [("v", .string "x")]).1.children 2 = [3] ∧
    (caption.substitute [0] signPattern [("v", .string "x")]).1.kind 3 = .text "@v" ∧
    ¬Template.FilledIn signPattern [("v", .string "x")] "@v" "@v" ∧
    (looseSign.findAll "@ v".toList).map (·.group? "@ v".toList 1) = [none] ∧
    Template.FilledIn looseSign [("", .string "x")] "@ v" "x v" := by
  refine ⟨⟨?_, by decide⟩, rfl, by decide +kernel, by decide +kernel, by decide +kernel, ?_,
    by decide +kernel, ?_⟩
  · simp only [Plot.StandAll, Plot.Stands]
    decide
  · rw [Template.filledIn_iff]
    decide +kernel
  · rw [Template.filledIn_iff]
    decide +kernel

end ReactiveMarkup
