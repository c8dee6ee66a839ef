import ReactiveMarkup.Proofs.Markup.Plot

/-!
# Gardens

A garden is a forest with some plots that stand in it and have no node in common. Each operation of
the forest is a lemma here about the plots it works on, which are named first, with all other plots
behind them: these are the same before and after. A node that comes from nowhere is one that the
plots do not have yet, and a node that is put somewhere is the top of a plot of its own, so it is in
no list of children that any plot tells.

`Covers` compares plots without looking at a forest: wherever the one list stands, so does the other.
This is how plots are forgotten, cut in two, or opened where nested content has been put into them.
-/

namespace ReactiveMarkup

open Plot

/-- Plots that stand in a forest side by side. -/
structure Garden (markup : Markup) (plots : List Plot) : Prop where
  stands : StandAll markup plots
  apart : (idsIn plots).Nodup

/-- Some plots stand wherever others do, whatever stands beside them. -/
def Covers (plots others : List Plot) : Prop :=
  ∀ (markup : Markup) (rest : List Plot), Garden markup (plots ++ rest) → Garden markup (others ++ rest)

namespace Plot

theorem idsIn_perm {plots others : List Plot} (h : plots.Perm others) :
    (idsIn plots).Perm (idsIn others) := by
  rw [idsIn_eq_flatMap, idsIn_eq_flatMap]
  exact h.flatMap_right _

theorem idsIn_sublist {plots others : List Plot} (h : plots.Sublist others) :
    (idsIn plots).Sublist (idsIn others) := by
  induction h with
  | slnil => exact List.Sublist.refl _
  | cons plot _ ih => exact ih.trans (List.sublist_append_right _ _)
  | cons_cons plot _ ih => exact (List.Sublist.refl _).append ih

end Plot

namespace Garden

variable {markup changed : Markup} {plots others rest : List Plot}

theorem perm (h : Garden markup plots) (hperm : plots.Perm others) : Garden markup others where
  stands := standAll_iff.mpr fun plot hmem => standAll_iff.mp h.stands plot (hperm.mem_iff.mpr hmem)
  apart := (idsIn_perm hperm).nodup_iff.mp h.apart

theorem sublist (h : Garden markup plots) (hsub : others.Sublist plots) : Garden markup others where
  stands := standAll_iff.mpr fun plot hmem => standAll_iff.mp h.stands plot (hsub.subset hmem)
  apart := h.apart.sublist (idsIn_sublist hsub)

/-- Which of the plots comes first does not count. -/
theorem swap (h : Garden markup (plots ++ (others ++ rest))) :
    Garden markup (others ++ (plots ++ rest)) := by
  refine h.perm ?_
  rw [← List.append_assoc, ← List.append_assoc]
  exact List.perm_append_comm.append_right rest

theorem swap_cons {plot : Plot} (h : Garden markup (plot :: (others ++ rest))) :
    Garden markup (others ++ plot :: rest) :=
  h.perm List.perm_middle.symm

theorem cons_swap {plot : Plot} (h : Garden markup (others ++ plot :: rest)) :
    Garden markup (plot :: (others ++ rest)) :=
  h.perm List.perm_middle

theorem tail {plot : Plot} (h : Garden markup (plot :: rest)) : Garden markup rest :=
  h.sublist (List.sublist_cons_self _ _)

theorem right (h : Garden markup (plots ++ rest)) : Garden markup rest :=
  h.sublist (List.sublist_append_right _ _)

theorem left (h : Garden markup (plots ++ rest)) : Garden markup plots :=
  h.sublist (List.sublist_append_left _ _)

theorem roots_nodup (h : Garden markup plots) : (plots.map root).Nodup :=
  h.apart.sublist (roots_sublist_idsIn plots)

/-- Plots go on standing when the forest only grows, their nodes stay what they are, and the lists
of children they tell stay the same. -/
theorem frame (h : Garden markup plots) (hsize : markup.size ≤ changed.size)
    (hkind : ∀ id ∈ idsIn plots, changed.kind id = markup.kind id)
    (hchildren : ∀ id ∈ toldIn plots, changed.children id = markup.children id) :
    Garden changed plots :=
  ⟨StandAll.frame hsize h.stands hkind hchildren, h.apart⟩

/-- A tree is its top together with the trees below it, as far as the top has them as its children. -/
theorem tree_iff {id : NodeId} {kind : NodeKind} {children : List Plot} :
    Garden markup (.tree id kind children :: rest) ↔
      Garden markup (.gap id kind :: (children ++ rest)) ∧
        markup.children id = children.map root := by
  have hids : idsIn (.tree id kind children :: rest) = idsIn (.gap id kind :: (children ++ rest)) := by
    simp only [idsIn, ids, idsIn_append, List.cons_append, List.nil_append]
  constructor
  · rintro ⟨⟨⟨hlt, hkind, hchildren, hbelow⟩, hrest⟩, hapart⟩
    exact ⟨⟨⟨⟨hlt, hkind⟩, standAll_append.mpr ⟨hbelow, hrest⟩⟩, hids ▸ hapart⟩, hchildren⟩
  · rintro ⟨⟨⟨⟨hlt, hkind⟩, hall⟩, hapart⟩, hchildren⟩
    obtain ⟨hbelow, hrest⟩ := standAll_append.mp hall
    exact ⟨⟨⟨hlt, hkind, hchildren, hbelow⟩, hrest⟩, hids ▸ hapart⟩

theorem head_not_mem {plot : Plot} (h : Garden markup (plot :: rest)) : plot.root ∉ idsIn rest := by
  have hapart := h.apart
  rw [idsIn, ids_eq, List.cons_append, List.nodup_cons] at hapart
  exact fun hmem => hapart.1 (List.mem_append_right _ hmem)

/-- The top of a plot is in no list of children that is told. -/
theorem root_not_mem_children (h : Garden markup plots) {plot : Plot} (hplot : plot ∈ plots) :
    ∀ id ∈ toldIn plots, plot.root ∉ markup.children id := by
  intro id hid hmem
  obtain ⟨before, after, rfl⟩ := List.append_of_mem hplot
  have hperm : (before ++ plot :: after).Perm (plot :: (before ++ after)) := List.perm_middle
  obtain ⟨hstands, hapart⟩ := h.perm hperm
  rw [toldIn_eq_flatMap, (hperm.flatMap_right told).mem_iff, ← toldIn_eq_flatMap] at hid
  rw [idsIn, ids_eq, List.cons_append, List.nodup_cons] at hapart
  rcases List.mem_append.mp hid with hin | hin
  · exact hapart.1 (List.mem_append_left _ (Stands.children_subset hstands.1 id hin hmem))
  · exact hapart.1 (List.mem_append_right _ (StandAll.children_subset hstands.2 id hin hmem))

/-! ## Operations -/

/-- A new node is a tree of its own. -/
theorem create (h : Garden markup rest) (kind : NodeKind) :
    Garden (markup.create kind).1 (.tree markup.size kind [] :: rest) := by
  have hlt := StandAll.lt_size h.stands
  have hrest : Garden (markup.create kind).1 rest :=
    h.frame (by rw [Markup.size_create]; exact Nat.le_succ _)
      (fun id hid => by rw [Markup.kind_create, if_neg (Nat.ne_of_lt (hlt id hid))])
      (fun id _ => Markup.children_create kind id)
  refine ⟨⟨⟨?_, ?_, ?_, trivial⟩, hrest.stands⟩, ?_⟩
  · rw [Markup.size_create]
    exact Nat.lt_succ_self _
  · rw [Markup.kind_create, if_pos rfl]
  · rw [Markup.children_create, Markup.children_of_le (Nat.le_refl _)]
    rfl
  · rw [idsIn]
    exact List.nodup_cons.mpr ⟨fun hmem => Nat.lt_irrefl _ (hlt _ hmem), hrest.apart⟩

/-- A node becomes something else. -/
theorem setKind {id : NodeId} {kind : NodeKind} (h : Garden markup (.gap id kind :: rest))
    (f : NodeKind → NodeKind) : Garden (markup.setKind id f) (.gap id (f kind) :: rest) := by
  have hne : ∀ other ∈ idsIn rest, other ≠ id := fun other hmem heq =>
    h.head_not_mem (heq ▸ hmem)
  have hrest : Garden (markup.setKind id f) rest :=
    h.tail.frame (Nat.le_of_eq (Markup.size_setKind id f).symm)
      (fun other hmem => Markup.kind_setKind_of_ne (hne other hmem))
      (fun other _ => Markup.children_setKind id other f)
  refine ⟨⟨⟨?_, ?_⟩, hrest.stands⟩, h.apart⟩
  · rw [Markup.size_setKind]
    exact h.stands.1.1
  · rw [Markup.kind_setKind h.stands.1.1, if_pos rfl, h.stands.1.2]

/-- All children are taken out of a node. -/
theorem takeChildren {id : NodeId} {kind : NodeKind} (h : Garden markup (.gap id kind :: rest)) :
    Garden (markup.takeChildren id).1 (.tree id kind [] :: rest) := by
  refine tree_iff.mpr ⟨?_, ?_⟩
  · refine h.frame (Nat.le_of_eq (Markup.size_takeChildren id).symm)
      (fun other _ => Markup.kind_takeChildren id other) (fun other hmem => ?_)
    rw [Markup.children_takeChildren, if_neg]
    exact fun heq => h.head_not_mem (toldIn_subset_idsIn rest (heq ▸ hmem))
  · rw [Markup.children_takeChildren, if_pos rfl]
    rfl

/-- A tree is put behind the trees below a node. -/
theorem append {id : NodeId} {kind : NodeKind} {children : List Plot} {plot : Plot}
    (h : Garden markup (.tree id kind children :: plot :: rest)) :
    Garden (markup.append id plot.root) (.tree id kind (children ++ [plot]) :: rest) := by
  obtain ⟨htop, hchildren⟩ := tree_iff.mp h
  have hnew := h.root_not_mem_children (List.mem_cons_of_mem _ List.mem_cons_self)
  have hsame : Garden (markup.append id plot.root) (.gap id kind :: (children ++ plot :: rest)) := by
    refine htop.frame (Nat.le_of_eq (Markup.size_append id plot.root).symm)
      (fun other _ => Markup.kind_append id plot.root other) (fun other hmem => ?_)
    refine Markup.children_append_of_ne
      (fun heq => htop.head_not_mem (toldIn_subset_idsIn _ (heq ▸ hmem))) (hnew other ?_)
    rw [toldIn, told, List.nil_append, toldIn_eq_flatMap, List.flatMap_append] at hmem
    simp only [toldIn_eq_flatMap, List.flatMap_cons, told, List.mem_append, List.mem_cons] at hmem ⊢
    rcases hmem with hin | hin | hin
    · exact .inl (.inr hin)
    · exact .inr (.inl hin)
    · exact .inr (.inr hin)
  refine tree_iff.mpr ⟨by simpa using hsame, ?_⟩
  rw [Markup.children_append_self h.stands.1.1
    (hnew id (by simp [toldIn, told])), hchildren, List.map_append]
  rfl

/-- Trees are put behind the trees below a node. -/
theorem appendAll {id : NodeId} {kind : NodeKind} {children plots : List Plot}
    (h : Garden markup (.tree id kind children :: (plots ++ rest))) :
    Garden (markup.appendAll id (plots.map root)) (.tree id kind (children ++ plots) :: rest) := by
  induction plots generalizing markup children with
  | nil =>
      rw [List.append_nil]
      exact h
  | cons plot more ih =>
      rw [List.map_cons, Markup.appendAll_cons]
      simpa using ih h.append

/-- The trees below a node are replaced. -/
theorem replaceChildren {id : NodeId} {kind : NodeKind} {plots : List Plot}
    (h : Garden markup (.gap id kind :: (plots ++ rest))) :
    Garden (markup.replaceChildren id (plots.map root)) (.tree id kind plots :: rest) :=
  h.takeChildren.appendAll

/-- Trees beside a node come to stand below it. -/
theorem put_below {id : NodeId} {kind : NodeKind} (h : Garden markup (plots ++ .gap id kind :: rest)) :
    (markup.replaceChildren id (plots.map root)).children id = plots.map root ∧
      Garden (markup.replaceChildren id (plots.map root)) (.gap id kind :: (plots ++ rest)) :=
  (tree_iff.mp h.cons_swap.replaceChildren).symm

end Garden

namespace Covers

variable {plots others more rest : List Plot}

theorem refl (plots : List Plot) : Covers plots plots := fun _ _ h => h

theorem trans (h : Covers plots others) (hmore : Covers others more) : Covers plots more :=
  fun markup rest hg => hmore markup rest (h markup rest hg)

theorem of_perm (h : plots.Perm others) : Covers plots others :=
  fun _ rest hg => hg.perm (h.append_right rest)

theorem of_sublist (h : others.Sublist plots) : Covers plots others :=
  fun _ rest hg => hg.sublist (h.append (List.Sublist.refl rest))

theorem append {nexts afters : List Plot} (h : Covers plots others) (hnext : Covers nexts afters) :
    Covers (plots ++ nexts) (others ++ afters) := by
  intro markup rest hg
  rw [List.append_assoc] at hg ⊢
  exact (hnext markup _ (h markup _ hg).swap).swap

end Covers

end ReactiveMarkup
