import ReactiveMarkup.Proofs.Markup.Parts

/-!
# What is left of trees

Reading a command takes nodes out of their parents and puts anchors for marks. What is left of a tree
by then is a tree: every node has fewer children than before, apart from anchors, and a new anchor has
none. That nothing grows into a circle needs the last of these, so it is kept track of here: whatever
holds of markup and is kept by the two things a reading does is kept by all readings.

That the trees which are left have no node in common comes from the links alone. A node that is in two
trees has its parent in both of them, and so on up to the tops.
-/

namespace ReactiveMarkup

namespace Markup

/-! ## New nodes are leaves -/

variable {start : Nat} {markup : Markup} {id : NodeId}

/-- The nodes that were made since there were so many have no children. -/
def Barren (start : Nat) (markup : Markup) : Prop := ∀ id, start ≤ id → markup.children id = []

theorem Barren.refl (markup : Markup) : Barren markup.size markup := fun _ => children_of_le

theorem Barren.detach (h : Barren start markup) (id : NodeId) : Barren start (markup.detach id) := by
  intro other hother
  have hsub := @children_detach_sublist markup id other
  rw [h other hother] at hsub
  exact List.sublist_nil.mp hsub

theorem Barren.remove (h : Barren start markup) (id child : NodeId) :
    Barren start (markup.remove id child).1 := by
  intro other hother
  rw [children_remove, h other hother]
  exact ite_self _

theorem Barren.takeChildren (h : Barren start markup) (id : NodeId) :
    Barren start (markup.takeChildren id).1 := by
  intro other hother
  rw [children_takeChildren, h other hother]
  exact ite_self _

theorem Barren.create (h : Barren start markup) (kind : NodeKind) :
    Barren start (markup.create kind).1 := by
  intro other hother
  rw [children_create, h other hother]

/-- An anchor is put for a child, so it is put below a node that was there before. -/
theorem Barren.putAnchor (h : Barren start markup) (hid : id < start) (child : NodeId) (index : Nat)
    (kind : NodeKind) :
    Barren start (((markup.remove id child).1.create kind).1.insert id index
      ((markup.remove id child).1.create kind).2) := by
  have hmade := (h.remove id child).create kind
  intro other hother
  rw [children_insert_of_ne (Nat.ne_of_gt (Nat.lt_of_lt_of_le hid hother)), hmade other hother]
  rw [hmade other hother]
  exact List.not_mem_nil

theorem Barren.markAnchorsTo (h : Barren start markup) (depth : Nat) (id : NodeId) :
    Barren start (markup.markAnchorsTo depth id) := by
  induction depth generalizing markup id with
  | zero => exact h
  | succ depth ih =>
      rw [markAnchorsTo_succ]
      refine List.foldlRecOn (motive := fun state : Markup × Nat => Barren start state.1) _ _ h
        fun state hstate child hchild => ?_
      have hid : id < start := by
        by_contra hge
        rw [h id (Nat.le_of_not_lt hge)] at hchild
        cases hchild
      rw [markChild]
      split
      · exact hstate.putAnchor hid child state.2 _
      · exact ih hstate child

theorem Barren.replaceMarks (h : Barren start markup) (ids : List NodeId) :
    Barren start (mapAccum replaceMark markup ids).1 := by
  induction ids generalizing markup with
  | nil => exact h
  | cons id rest ih =>
      have hfirst : Barren start (markup.replaceMark id).1 := by
        rw [replaceMark]
        split
        · exact h.create _
        · exact h
      exact ih hfirst

theorem Barren.detachTemplate (h : Barren start markup) (id : NodeId) :
    Barren start (markup.detachTemplate id).1 := by
  rw [detachTemplate_eq]
  refine Barren.replaceMarks ?_ _
  exact List.foldlRecOn (motive := Barren start) _ _ (h.takeChildren id)
    fun state hstate child _ => hstate.markAnchorsTo state.size child

end Markup

/-! ## What all readings keep -/

/-- Kept when a node is taken out of its parent, or its content as a template. -/
structure Markup.Lasting (holds : Markup → Prop) : Prop where
  detach : ∀ markup id, holds markup → holds (markup.detach id)
  template : ∀ markup id, holds markup → holds (markup.detachTemplate id).1

theorem Markup.lasting_barren (start : Nat) : Markup.Lasting (Barren start) :=
  ⟨fun _ id h => h.detach id, fun _ id h => h.detachTemplate id⟩

open Reading (Upholds)

section

variable {holds : Markup → Prop}

theorem LoadCommand.upholds_readMembers (h : Markup.Lasting holds) (ids : List NodeId) :
    Upholds holds (readMembers ids) := by
  induction ids with
  | nil => exact .pure _
  | cons first rest ih =>
      rw [readMembers]
      refine .read fun _ _ => (Upholds.modify fun markup => h.detach markup first).bind fun _ => ?_
      exact (Upholds.ofExcept _).bind fun _ => ih.bind fun _ => .pure _

theorem LoadCommand.upholds_read (h : Markup.Lasting holds) (options : Options)
    (patterns : BindingPatterns) (providers : Providers) (id : NodeId) :
    Upholds holds (read options patterns providers id) := by
  rw [read]
  refine .read fun markup _ => ?_
  dsimp only
  split
  · exact .throw _
  · refine (Upholds.ofExcept _).bind fun _ => (Upholds.ofExcept _).bind fun _ => ?_
    refine .read fun markup _ => ?_
    exact (upholds_readMembers h _).bind fun _ => (Upholds.ofExcept _).bind fun _ => .pure _

theorem Markup.Lasting.detachSection (h : Markup.Lasting holds) {markup : Markup}
    (hmarkup : holds markup) (id : NodeId) (tag : String) : holds (markup.detachSection id tag).1 := by
  rw [Markup.detachSection]
  split
  · exact h.template _ _ (h.detach _ _ hmarkup)
  · exact hmarkup

theorem Markup.Lasting.detachLayout (h : Markup.Lasting holds) {markup : Markup}
    (hmarkup : holds markup) (id : NodeId) : holds (markup.detachLayout id).1 := by
  rw [Markup.detachLayout_eq]
  refine List.foldlRecOn (motive := fun state : Markup × Layout => holds state.1) _ _ hmarkup
    fun state hstate child _ => ?_
  have hsection : holds (state.1.detachSectionNode child).1 :=
    h.detach _ _ (h.template _ _ hstate)
  rw [Markup.takeLayout]
  split
  · split
    · exact hsection
    · split
      · exact hsection
      · exact hstate
  · exact hstate

theorem ShowCommand.upholds_readFaces (h : Markup.Lasting holds) (patterns : BindingPatterns)
    (index : Nat) (ids : List NodeId) : Upholds holds (readFaces patterns index ids) := by
  induction ids generalizing index with
  | nil => exact .pure _
  | cons first rest ih =>
      rw [readFaces]
      refine (Upholds.modify fun markup => h.detach markup first).bind fun _ => ?_
      refine (Upholds.attempt fun markup changed face hmarkup hread => ?_).bind fun _ =>
        (ih (index + 1)).bind fun _ => .pure _
      obtain ⟨rfl, -, -⟩ := Face.read_ok hread
      exact h.template markup first hmarkup

theorem ShowCommand.upholds_readArrangement (h : Markup.Lasting holds) (kind : ShowKind)
    (id : NodeId) (of : NodeKind) : Upholds holds (readArrangement kind id of) := by
  cases kind with
  | list =>
      rw [readArrangement]
      exact (Upholds.change fun markup hmarkup => h.detachSection hmarkup id _).bind fun _ =>
        (Upholds.change fun markup hmarkup => h.detachSection hmarkup id _).bind fun _ => .pure _
  | tree =>
      rw [readArrangement]
      exact .pure _
  | view =>
      rw [readArrangement]
      split
      · exact .pure _
      · exact .throw _

theorem ShowCommand.upholds_read (h : Markup.Lasting holds) (patterns : BindingPatterns)
    (kind : ShowKind) (id : NodeId) : Upholds holds (read patterns kind id) := by
  rw [read]
  refine .read fun markup _ => ?_
  dsimp only
  split
  · exact .throw _
  · refine (Upholds.ofExcept _).bind fun _ => (upholds_readArrangement h _ _ _).bind fun _ => ?_
    refine (Upholds.change fun markup hmarkup => h.detachLayout hmarkup id).bind fun _ => ?_
    exact .read fun markup _ => (upholds_readFaces h _ _ _).bind fun _ => .pure _

end

/-! ## Trees in linked markup -/

namespace Plot

variable {markup : Markup}

mutual

/-- A node of a plot that is not its top has its parent in the plot. -/
theorem Stands.exists_parent (hlinked : markup.Linked) : ∀ {plot : Plot}, Stands markup plot →
    ∀ id ∈ plot.inner, ∃ parent ∈ plot.ids, markup.parent? id = some parent
  | .tree top kind children, h, id, hid => by
      rcases StandAll.exists_parent hlinked h.2.2.2 id hid with hroot | ⟨parent, hin, hparent⟩
      · rw [← h.2.2.1, hlinked.mem_iff] at hroot
        exact ⟨top, List.mem_cons_self, hroot⟩
      · exact ⟨parent, List.mem_cons_of_mem _ hin, hparent⟩

theorem StandAll.exists_parent (hlinked : markup.Linked) : ∀ {plots : List Plot},
    StandAll markup plots → ∀ id ∈ idsIn plots,
      id ∈ plots.map root ∨ ∃ parent ∈ idsIn plots, markup.parent? id = some parent
  | plot :: rest, h, id, hid => by
      rcases List.mem_append.mp hid with hin | hin
      · rw [ids_eq] at hin
        rcases List.mem_cons.mp hin with rfl | hinner
        · exact .inl List.mem_cons_self
        · obtain ⟨parent, hparentIn, hparent⟩ := Stands.exists_parent hlinked h.1 id hinner
          exact .inr ⟨parent, List.mem_append_left _ hparentIn, hparent⟩
      · rcases StandAll.exists_parent hlinked h.2 id hin with hroot | ⟨parent, hparentIn, hparent⟩
        · exact .inl (List.mem_cons_of_mem _ hroot)
        · exact .inr ⟨parent, List.mem_append_right _ hparentIn, hparent⟩

end

theorem mem_idsIn {plots : List Plot} {id : NodeId} : id ∈ idsIn plots ↔ ∃ plot ∈ plots, id ∈ plot.ids := by
  rw [idsIn_eq_flatMap, List.mem_flatMap]

mutual

/-- Of two plots with a node in common, one has the top of the other. -/
theorem Stands.nested (hlinked : markup.Linked) {other : Plot} (hother : Stands markup other) :
    ∀ {plot : Plot}, Stands markup plot → ∀ id ∈ plot.ids, id ∈ other.ids →
      plot.root ∈ other.ids ∨ other.root ∈ plot.ids
  | .tree top kind children, h, id, hid, hin => by
      rcases List.mem_cons.mp hid with rfl | hbelow
      · exact .inl hin
      · obtain ⟨child, hchild, hnested⟩ := StandAll.nested hlinked hother h.2.2.2 id hbelow hin
        rcases hnested with hroot | hroot
        · rw [ids_eq] at hroot
          rcases List.mem_cons.mp hroot with hsame | hinner
          · refine .inr (List.mem_cons_of_mem _ (hsame ▸ ?_))
            exact roots_subset_idsIn children (List.mem_map_of_mem hchild)
          · obtain ⟨parent, hparentIn, hparent⟩ := hother.exists_parent hlinked _ hinner
            have htop : markup.parent? child.root = some top := by
              rw [← hlinked.mem_iff, h.2.2.1]
              exact List.mem_map_of_mem hchild
            rw [htop] at hparent
            exact .inl (Option.some.inj hparent ▸ hparentIn)
        · exact .inr (List.mem_cons_of_mem _ (ids_subset_idsIn hchild hroot))
  | .gap top kind, _, id, hid, hin => by
      rw [ids, List.mem_singleton] at hid
      exact .inl (hid ▸ hin)

theorem StandAll.nested (hlinked : markup.Linked) {other : Plot} (hother : Stands markup other) :
    ∀ {plots : List Plot}, StandAll markup plots → ∀ id ∈ idsIn plots, id ∈ other.ids →
      ∃ plot ∈ plots, plot.root ∈ other.ids ∨ other.root ∈ plot.ids
  | plot :: rest, h, id, hid, hin => by
      rcases List.mem_append.mp hid with hfirst | hrest
      · exact ⟨plot, List.mem_cons_self, Stands.nested hlinked hother h.1 id hfirst hin⟩
      · obtain ⟨found, hfound, hnested⟩ := StandAll.nested hlinked hother h.2 id hrest hin
        exact ⟨found, List.mem_cons_of_mem _ hfound, hnested⟩

end

/-- Two plots whose tops differ and have their parents elsewhere have no node in common. -/
theorem Stands.disjoint (hlinked : markup.Linked) {plot other : Plot} (h : Stands markup plot)
    (hother : Stands markup other) (hne : plot.root ≠ other.root)
    (hplot : ∀ parent, markup.parent? plot.root = some parent → parent ∉ other.ids)
    (hback : ∀ parent, markup.parent? other.root = some parent → parent ∉ plot.ids) :
    plot.ids.Disjoint other.ids := by
  have hout : ∀ {first second : Plot}, Stands markup second → first.root ≠ second.root →
      (∀ parent, markup.parent? first.root = some parent → parent ∉ second.ids) →
      first.root ∉ second.ids := by
    intro first second hsecond hne hfirst hroot
    rw [ids_eq] at hroot
    rcases List.mem_cons.mp hroot with hsame | hinner
    · exact hne hsame
    · obtain ⟨parent, hin, hparent⟩ := hsecond.exists_parent hlinked _ hinner
      exact hfirst parent hparent hin
  intro id hid hin
  rcases hother.nested hlinked h id hid hin with hroot | hroot
  · exact hout hother hne hplot hroot
  · exact hout h (Ne.symm hne) hback hroot

mutual

/-- A plot whose top has its parent elsewhere has no node twice. -/
theorem Stands.nodup (hlinked : markup.Linked) : ∀ {plot : Plot}, Stands markup plot →
    (∀ parent, markup.parent? plot.root = some parent → parent ∉ plot.ids) → plot.ids.Nodup
  | .tree top kind children, h, hparent => by
      have htop : top ∉ idsIn children := fun hin => by
        obtain ⟨parent, hparentIn, habove⟩ := h.exists_parent hlinked top hin
        exact hparent parent habove hparentIn
      refine List.nodup_cons.mpr ⟨htop, StandAll.nodup hlinked h.2.2.2 ?_ fun child hchild parent habove => ?_⟩
      · rw [← h.2.2.1]
        exact hlinked.nodup top
      · have hsame : markup.parent? child.root = some top := by
          rw [← hlinked.mem_iff, h.2.2.1]
          exact List.mem_map_of_mem hchild
        rw [hsame] at habove
        exact Option.some.inj habove ▸ htop
  | .gap top kind, _, _ => List.nodup_singleton top

theorem StandAll.nodup (hlinked : markup.Linked) : ∀ {plots : List Plot}, StandAll markup plots →
    (plots.map root).Nodup →
    (∀ plot ∈ plots, ∀ parent, markup.parent? plot.root = some parent → parent ∉ idsIn plots) →
    (idsIn plots).Nodup
  | [], _, _, _ => List.nodup_nil
  | plot :: rest, h, hroots, hparents => by
      obtain ⟨hnew, hrest⟩ := List.nodup_cons.mp hroots
      refine List.nodup_append'.mpr ⟨?_, ?_, ?_⟩
      · exact Stands.nodup hlinked h.1 fun parent hparent hin =>
          hparents plot List.mem_cons_self parent hparent (List.mem_append_left _ hin)
      · exact StandAll.nodup hlinked h.2 hrest fun other hother parent hparent hin =>
          hparents other (List.mem_cons_of_mem _ hother) parent hparent (List.mem_append_right _ hin)
      · intro id hid hin
        obtain ⟨other, hother, hotherId⟩ := mem_idsIn.mp hin
        refine h.1.disjoint hlinked (standAll_iff.mp h.2 other hother) ?_ ?_ ?_ hid hotherId
        · exact fun hsame => hnew (hsame ▸ List.mem_map_of_mem hother)
        · exact fun parent hparent hmem => hparents plot List.mem_cons_self parent hparent
            (List.mem_append_right _ (ids_subset_idsIn hother hmem))
        · exact fun parent hparent hmem => hparents other (List.mem_cons_of_mem _ hother) parent hparent
            (List.mem_append_left _ hmem)

end

/-! ## Thinned trees -/

section

variable {before after : Markup}

theorem exists_plots {P : Plot → Prop} {nodes : List NodeId}
    (h : ∀ node ∈ nodes, ∃ plot : Plot, plot.root = node ∧ P plot) :
    ∃ plots : List Plot, plots.map root = nodes ∧ ∀ plot ∈ plots, P plot := by
  induction nodes with
  | nil => exact ⟨[], rfl, fun _ hplot => absurd hplot List.not_mem_nil⟩
  | cons node rest ih =>
      obtain ⟨plot, hroot, hplot⟩ := h node List.mem_cons_self
      obtain ⟨plots, hroots, hplots⟩ := ih fun other hother => h other (List.mem_cons_of_mem _ hother)
      exact ⟨plot :: plots, by rw [List.map_cons, hroot, hroots],
        List.forall_mem_cons.mpr ⟨hplot, hplots⟩⟩

mutual

/-- What is left of a tree when its markup was taken apart and anchors came as leaves. -/
theorem Stands.thinned (hthins : Markup.Thins before after) (hbarren : after.Barren before.size) :
    ∀ {plot : Plot}, Stands before plot → plot.IsWhole →
      ∃ left : Plot, left.root = plot.root ∧ left.IsWhole ∧ Stands after left
  | .tree top kind children, h, hwhole => by
      have hbelow := StandAll.thinned hthins hbarren h.2.2.2 hwhole
      have hall : ∀ node ∈ after.children top, ∃ left : Plot,
          left.root = node ∧ left.IsWhole ∧ Stands after left := fun node hnode => by
        rcases hthins.children top node hnode with hold | ⟨hle, hlt⟩
        · exact hbelow node (h.2.2.1 ▸ hold)
        · exact ⟨.tree node (after.kind node) [], rfl, trivial, hlt, rfl, hbarren node hle, trivial⟩
      obtain ⟨lefts, hroots, hlefts⟩ := exists_plots hall
      refine ⟨.tree top kind lefts, rfl, areWhole_iff.mpr fun left hleft => (hlefts left hleft).1, ?_⟩
      exact ⟨Nat.lt_of_lt_of_le h.1 hthins.size, (hthins.kind top h.1).trans h.2.1, hroots.symm,
        standAll_iff.mpr fun left hleft => (hlefts left hleft).2⟩

theorem StandAll.thinned (hthins : Markup.Thins before after) (hbarren : after.Barren before.size) :
    ∀ {plots : List Plot}, StandAll before plots → AreWhole plots →
      ∀ id ∈ plots.map root, ∃ left : Plot, left.root = id ∧ left.IsWhole ∧ Stands after left
  | [], _, _, _, hid => absurd hid List.not_mem_nil
  | first :: rest, h, hwhole, id, hid => by
      rcases List.mem_cons.mp hid with hsame | hrest
      · obtain ⟨left, hroot, hleft⟩ := Stands.thinned hthins hbarren h.1 hwhole.1
        exact ⟨left, hroot.trans hsame.symm, hleft⟩
      · exact StandAll.thinned hthins hbarren h.2 hwhole.2 id hrest

end

end

end Plot

/-- A node without a parent gets none when markup is taken apart. -/
theorem Markup.Thins.parent?_eq_none {before after : Markup} {id : NodeId}
    (hthins : Markup.Thins before after) (hbefore : before.Linked) (hafter : after.Linked)
    (hid : id < before.size) (hnone : before.parent? id = none) : after.parent? id = none := by
  cases hparent : after.parent? id with
  | none => rfl
  | some parent =>
      rcases hthins.children parent id ((hafter.mem_iff parent id).mpr hparent) with hold | ⟨hle, -⟩
      · exact absurd hold (hbefore.not_mem hnone parent)
      · exact absurd hid (Nat.not_lt.mpr hle)

/-- Trees whose tops have no parent are still trees after markup was taken apart. -/
theorem Garden.thinned {before after : Markup} {trees : List Plot} (h : Garden before trees)
    (hwhole : Plot.AreWhole trees) (htops : ∀ root ∈ trees.map Plot.root, before.parent? root = none)
    (hbefore : before.Linked) (hafter : after.Linked) (hthins : Markup.Thins before after)
    (hbarren : after.Barren before.size) :
    ∃ left : List Plot, left.map Plot.root = trees.map Plot.root ∧ Plot.AreWhole left ∧
      Garden after left := by
  obtain ⟨left, hroots, hleft⟩ := Plot.exists_plots (h.stands.thinned hthins hbarren hwhole)
  have hstands : Plot.StandAll after left :=
    Plot.standAll_iff.mpr fun tree htree => (hleft tree htree).2
  refine ⟨left, hroots, Plot.areWhole_iff.mpr fun tree htree => (hleft tree htree).1, hstands, ?_⟩
  refine hstands.nodup hafter (hroots ▸ h.roots_nodup) fun tree htree parent hparent => ?_
  have htop : tree.root ∈ trees.map Plot.root := hroots ▸ List.mem_map_of_mem htree
  have hlt : tree.root < before.size := h.stands.lt_size _ (Plot.roots_subset_idsIn trees htop)
  rw [hthins.parent?_eq_none hbefore hafter hlt (htops _ htop)] at hparent
  cases hparent

end ReactiveMarkup
