import ReactiveMarkup.Proofs.Face.Asking
import ReactiveMarkup.Proofs.Face.Kinds
import ReactiveMarkup.Proofs.Face.Views

/-!
# Layouts

The layout of a command is chosen after the rows are laid out, and by their nodes: without any, a copy of
the else layout is shown, and otherwise a copy of the layout with the nodes in its first place. What the
nodes are was found out in the pass; here it is put around them.

The rows stand in the layout as they came, and that layout is a new one in every pass, while the rows may
still hang in the layout of the pass before. They are taken from there one by one, and nothing else of
what was there is moved.
-/

namespace ReactiveMarkup

open Plot Pot

/-! ## Copies around rows -/

/-- Markup in which nothing hangs in the first place of some nodes. -/
def Markup.cleared (markup : Markup) (nodes : List NodeId) : Markup :=
  match markup.childAnchor? nodes with
  | some place => (markup.takeChildren place).1
  | none => markup

/-- A new copy of a template with rows as the whole content of its first place. -/
structure Framed (before after : Markup) (template rows frame : List NodeId) : Prop where
  shapes : frame.map (after.cleared frame).shape = Shape.plantIn [] (template.map before.shape)
  fresh : ∀ id ∈ frame.flatMap (after.cleared frame).nodes, before.size ≤ id
  content : ∀ place ∈ after.childAnchor? frame, after.children place = rows

/-- The nodes that rows come to in a copy of a layout: behind it when it has no place for them. -/
def framedOutput (markup : Markup) (frame rows : List NodeId) : List NodeId :=
  if (markup.childAnchor? frame).isSome then frame else frame ++ rows

variable {markup before after : Markup} {copies outs rest plots : List Plot}
  {form : NodeId → Shape} {template rows frame : List NodeId}

/-- Rows in a copy of nothing are alone. -/
theorem Framed.alone (h : Framed before after template rows frame) (hnone : template = []) :
    framedOutput after frame rows = rows := by
  have hnil := h.shapes
  rw [hnone, List.map_nil, Shape.plantIn, List.map_eq_nil_iff] at hnil
  rw [hnil]
  rfl

/-- Copies of a template consist of nodes that were not there. -/
theorem Garden.copyAll_fresh (h : Garden markup plots) (hroots : Rooted form plots template) :
    ∃ copies : List Plot, copies.map root = (markup.copyAll template).2 ∧
      Plot.shapes copies = template.map form ∧ AreWhole copies ∧
      Garden (markup.copyAll template).1 (copies ++ plots) ∧
      ∀ id ∈ idsIn copies, markup.size ≤ id := by
  obtain ⟨copies, hnodes, hshapes, hwhole, hgarden⟩ := h.copyAll hroots
  obtain ⟨hafter, hnew⟩ := (Markup.Untouched.refl markup).copyAll template
  rw [← hnodes] at hnew
  exact ⟨copies, hnodes, hshapes, hwhole, hgarden,
    StandAll.le_ids hafter.below hgarden.left.stands hnew⟩

/-- Copies in which rows are nested are a frame for them. -/
theorem Garden.framed (h : Garden after (Plot.nest copies outs ++ rest)) (hwhole : AreWhole copies)
    (hshapes : Plot.shapes copies = template.map before.shape)
    (hfresh : ∀ id ∈ idsIn copies, before.size ≤ id) :
    Framed before after template (outs.map root) (copies.map root) ∧
      (Plot.nest copies outs).map root =
        framedOutput after (copies.map root) (outs.map root) := by
  have hopen := Covers.nest copies outs _ _ h
  rw [List.append_assoc] at hopen
  have hfound := hopen.childAnchor?_opened hwhole
  cases hplace : placeIn? copies with
  | none =>
      rw [hplace] at hfound
      rw [openIn_of_none hplace] at hopen
      have hcleared : after.cleared (copies.map root) = after := by rw [Markup.cleared, hfound]
      have hsame : Shape.plantIn [] (Plot.shapes copies) = Plot.shapes copies := by
        have hplanted := shapes_plantIn [] copies
        rw [plantIn, swapIn_of_none _ hplace] at hplanted
        exact hplanted.symm
      refine ⟨⟨?_, ?_, ?_⟩, ?_⟩
      · rw [hcleared, hopen.left.shapes_eq hwhole, ← hshapes, hsame]
      · rw [hcleared, hopen.left.nodes_eq hwhole]
        exact hfresh
      · rw [hfound]
        exact fun _ hnone => by cases hnone
      · rw [framedOutput, hfound, Plot.nest, hplace]
        exact List.map_append
  | some place =>
      rw [hplace] at hfound
      have hcleared : after.cleared (copies.map root) = after.replaceChildren place [] := by
        rw [Markup.cleared, hfound]
        rfl
      have hempty : Garden (after.replaceChildren place []) (plantIn [] copies ++ (outs ++ rest)) :=
        (show Garden after (openIn copies ++ ([] ++ (outs ++ rest))) from hopen).plant hplace
      have hput : ∀ id, (Plot.tree id (.anchor Template.childAnchor) []).IsWhole := fun _ => trivial
      have hbare : AreWhole (plantIn [] copies) := AreWhole.swapIn hput hwhole
      refine ⟨⟨?_, ?_, ?_⟩, ?_⟩
      · rw [hcleared, ← roots_plantIn [] copies, hempty.left.shapes_eq hbare, shapes_plantIn, hshapes]
        rfl
      · rw [hcleared, ← roots_plantIn [] copies, hempty.left.nodes_eq hbare]
        intro id hid
        have hin := (idsIn_planted_perm hplace).subset hid
        rw [idsIn, List.append_nil] at hin
        exact hfresh id ((idsIn_openIn_sublist copies).subset hin)
      · rw [hfound]
        rintro other hother
        obtain rfl := Option.some.inj hother
        rw [Plot.nest, hplace, Option.isSome_some, if_pos rfl] at h
        exact (((standAll_planted_iff outs copies).mp h.left.stands).2 place hplace).2.2.1
      · rw [framedOutput, hfound, Plot.nest, hplace, Option.isSome_some, if_pos rfl, if_pos rfl,
          roots_plantIn]

/-- What is nested in copies is found in them. -/
theorem idsIn_subset_nest (copies outs : List Plot) : idsIn outs ⊆ idsIn (Plot.nest copies outs) := by
  rw [Plot.nest]
  cases hplace : placeIn? copies with
  | none =>
      rw [if_neg (by simp), idsIn_append]
      exact List.subset_append_right _ _
  | some place =>
      rw [Option.isSome_some, if_pos rfl]
      exact List.Subset.trans (List.subset_append_right _ _) (idsIn_planted_perm hplace).symm.subset

/-! ## What is moved -/

namespace Markup

/-- Nesting moves what is nested, when the place for it is a new one. -/
theorem keepsOrder_nest {copied : Markup} {nodes rows : List NodeId} (hsize : markup.size ≤ copied.size)
    (hsame : ∀ id < markup.size, copied.children id = markup.children id)
    (hplace : ∀ place ∈ copied.childAnchor? nodes, markup.size ≤ place) :
    KeepsOrder rows markup (copied.nest nodes rows).1 := by
  rw [nest]
  cases hfound : copied.childAnchor? nodes with
  | none => exact ⟨hsize, fun id hid => by rw [hsame id hid]⟩
  | some place =>
      have htaken : KeepsOrder [] markup (copied.takeChildren place).1 := by
        refine .of_children (by rwa [size_takeChildren]) fun id hid => ?_
        have hne : id ≠ place := Nat.ne_of_lt (Nat.lt_of_lt_of_le hid (hplace place hfound))
        rw [children_takeChildren, if_neg hne, hsame id hid]
      exact htaken.trans (KeepsOrder.appendAll _ place rows)

/-- What was moved before nodes come into the place of others, and these nodes, are all that was moved. -/
theorem KeepsOrder.unmoved_replaceChildren {moved : List NodeId} {before changed : Markup}
    (h : KeepsOrder moved before changed) (node : NodeId) (shown : List NodeId) :
    ∀ id < before.size, id ≠ node →
      unmoved (moved ++ shown) ((changed.replaceChildren node shown).children id) =
        unmoved (moved ++ shown) (before.children id) := by
  intro id hid hne
  have hsize : id < (changed.takeChildren node).1.size := by
    rw [size_takeChildren]
    exact Nat.lt_of_lt_of_le hid h.size
  have happended := (KeepsOrder.appendAll (changed.takeChildren node).1 node shown).order id hsize
  rw [children_takeChildren, if_neg hne] at happended
  rw [unmoved_append, unmoved_comm, Markup.replaceChildren, happended, unmoved_comm, h.order id hid,
    ← unmoved_append]

theorem Untouched.children_eq {changed : Markup} (h : Untouched markup.size markup changed) :
    ∀ id < markup.size, changed.children id = markup.children id := by
  intro id hid
  rw [Markup.children_eq, h.cells id hid, ← Markup.children_eq]

end Markup

/-! ## Rows in a layout -/

/-- Rows are given in a new copy of the layout, and nothing else is moved. -/
theorem Layout.render_framed (layout : Layout) (hrows : outs ≠ [])
    (hwrapper : Rooted form rest layout.wrapper) (h : Garden markup (outs ++ rest)) :
    ∃ copies, AreWhole copies ∧ Plot.shapes copies = layout.wrapper.map form ∧
      (∀ id ∈ idsIn copies, markup.size ≤ id) ∧
      (layout.render markup (outs.map root)).2 = (Plot.nest copies outs).map root ∧
      Garden (layout.render markup (outs.map root)).1 (Plot.nest copies outs ++ rest) ∧
      Markup.KeepsOrder (outs.map root) markup (layout.render markup (outs.map root)).1 := by
  have hfilled : (outs.map root).isEmpty = false :=
    List.isEmpty_eq_false_iff.mpr fun hnil => hrows (List.map_eq_nil_iff.mp hnil)
  rw [Layout.render, hfilled]
  cases hwrap : layout.wrapper with
  | nil => exact ⟨[], trivial, rfl, List.forall_mem_nil _, rfl, h, Nat.le_refl _, fun _ _ => rfl⟩
  | cons first more =>
      rw [← hwrap]
      have hsome : layout.wrapper.isEmpty = false := by rw [hwrap]; rfl
      obtain ⟨copies, hnodes, hshapes, hcopies, hgarden, hfresh⟩ :=
        h.copyAll_fresh (hwrapper.mono (List.subset_append_right _ _))
      obtain ⟨hafter, -⟩ := (Markup.Untouched.refl markup).copyAll layout.wrapper
      have hopened := Covers.openIn copies _ _ hgarden
      have hfound := hopened.childAnchor?_opened hcopies
      obtain ⟨hroots, hnested⟩ := Garden.nest hcopies hopened
      rw [hnodes] at hfound hroots hnested
      rw [hsome]
      refine ⟨copies, hcopies, hshapes, hfresh, hroots, hnested,
        Markup.keepsOrder_nest hafter.size hafter.children_eq fun place hplace => ?_⟩
      have hin := place_mem_idsIn (fun _ => rfl : ∀ id, (hole id).root = id) copies
        (hfound.symm.trans hplace)
      exact hfresh place ((idsIn_openIn_sublist copies).subset hin)

/-! ## Courses -/

theorem ShowCommand.Kept.filled {pattern : Pattern} {command : ShowCommand} {pots : List Pot}
    (h : Kept pattern form rest command markup pots) (hnumbered : (command.faces.map Face.index).Nodup)
    (hknown : ∀ pot ∈ pots, pot.showing.face ∈ command.faces) {find : String → Option Source}
    {source : Source} {faces : List ResolvedFace}
    (hfaces : command.faces.mapM (Face.resolve · find source) = .ok faces) :
    Pass.Filled faces command.cache.slots := by
  intro slot hslot resolved hresolved hsame
  obtain ⟨pot, hpot, hholds⟩ := pot_of_slot h.slots hslot
  have hmem : resolved.face ∈ command.faces := by
    rw [← mapM_resolve_face hfaces]
    exact List.mem_map_of_mem hresolved
  have hface : pot.showing.face = resolved.face :=
    List.inj_on_of_nodup_map hnumbered (hknown pot hpot) hmem (hholds.face.symm.trans hsame)
  have hlength := congrArg List.length hholds.shapes
  rw [shapes_eq_map, List.length_map, Showing.shapes, Shape.fillAll_eq_map, List.length_map,
    List.length_map, hface] at hlength
  rw [hholds.nodes, List.length_map, hlength]

variable {site : Site} {start scene : Scene} {seen : List Source}

/-- In any course of passes, a pass begins with what is kept and comes to a stretch of plots, which are
whole unless the command is a view. -/
theorem Course.stretches (hopened : Opened site start) (h : Course site start scene seen)
    {source : Source} {faces : List ResolvedFace}
    (hfaces : scene.command.faces.mapM (Face.resolve · (scene.find site) source) = .ok faces)
    (rowCount : Nat) :
    let begun := Pass.start faces site.pattern scene.markup scene.command.cache
    let laid := begun.arrange scene.command.arrangement rowCount source
    ∃ (pots : List Pot) (kind : NodeKind) (beds : List Plot) (new left : List Pot) (outs : List Plot),
      scene.command.Kept site.pattern start.markup.shape (.gap site.node kind :: beds) scene.markup
        pots ∧
      (∀ pot ∈ pots, pot.showing.face ∈ scene.command.faces) ∧
      Stretch ⟨faces, site.pattern, start.markup.shape, source⟩ [] pots (.gap site.node kind :: beds)
        laid.1 laid.2 new left outs ∧
      ((∀ field, scene.command.arrangement ≠ .view field) → AreWhole outs) := by
  intro begun laid
  obtain ⟨cache, hcommand⟩ := h.command
  have hsame : scene.command.arrangement = start.command.arrangement := by rw [hcommand]
  have hstartFaces : scene.command.faces = start.command.faces := by rw [hcommand]
  have hnumbered : (scene.command.faces.map Face.index).Nodup := hstartFaces ▸ hopened.faces_nodup
  by_cases hview : ∀ field, scene.command.arrangement ≠ .view field
  · obtain ⟨last, ⟨pots, kind, beds, hkept, -, rfl⟩, hnative⟩ := h.standing hopened (hsame ▸ hview)
    rw [← hstartFaces, ← hsame] at hnative
    have hpots := fun pot (hpot : pot ∈ pots) => hnative pot.showing (List.mem_map_of_mem hpot)
    obtain ⟨new, left, outs, hgrows⟩ := hkept.grows hnumbered hview hpots hfaces rowCount
    exact ⟨pots, kind, beds, new, left, outs, hkept, fun pot hpot => (hpots pot hpot).face,
      hgrows.yield.stretch, fun _ => hgrows.yield.whole⟩
  · obtain ⟨field, hfield⟩ := not_forall_not.mp hview
    obtain ⟨last, ⟨pots, kind, beds, hkept, -, rfl⟩, hknown⟩ :=
      h.tilled_view hopened (hsame.symm.trans hfield)
    rw [← hstartFaces] at hknown
    have hpots := fun pot (hpot : pot ∈ pots) => hknown pot.showing (List.mem_map_of_mem hpot)
    obtain ⟨groups, nodes, new, left, outs, after, hpass, -, -, hstretch, -⟩ :=
      (hkept.ready hnumbered hpots hfaces).viewGroups (groupRows field source) (Pass.called_start begun)
    have hlaid : laid = (after, nodes) := by
      rw [← hpass]
      simp only [laid, begun]
      rw [hfield]
      rfl
    rw [hlaid]
    exact ⟨pots, kind, beds, new, left, outs, hkept, hpots, hstretch, fun hnot => absurd hnot hview⟩

/-- What a pass leaves: what the layout gives stands in the node of the command. -/
theorem pass_markup {source : Source} {faces : List ResolvedFace}
    (hsource : scene.snapshot? site = some source)
    (hfaces : scene.command.faces.mapM (Face.resolve · (scene.find site) source) = .ok faces) :
    let laid := (Pass.start faces site.pattern scene.markup scene.command.cache).arrange
      scene.command.arrangement (scene.command.resolveRowCount (scene.find site)) source
    let given := scene.command.layout.render laid.1.markup laid.2
    (scene.pass site).markup = given.1.replaceChildren site.node given.2 := by
  rw [Scene.pass, hsource]
  dsimp only
  rw [ShowCommand.refresh, hfaces]
  rfl

/-- When what a layout gives comes into a node, nothing is moved but the rows and what is given. -/
theorem Layout.unmoved_shown (layout : Layout) {rows : List NodeId} (node : NodeId)
    (horder : Markup.KeepsOrder rows markup (layout.render markup rows).1) :
    let given := layout.render markup rows
    let after := given.1.replaceChildren node given.2
    ∀ id < markup.size, id ≠ node → after.kind id = markup.kind id ∧
      Markup.unmoved (rows ++ given.2) (after.children id) =
        Markup.unmoved (rows ++ given.2) (markup.children id) := by
  intro given after id hid hne
  refine ⟨?_, horder.unmoved_replaceChildren node given.2 id hid hne⟩
  rw [Markup.kind_replaceChildren, (layout.keeps_render markup rows).kind id hid]

section

variable {node : NodeId} {kind : NodeKind} {beds : List Plot}

/-- Nothing gives a new copy of the else layout. -/
theorem Layout.shown_nothing (layout : Layout)
    (hempty : Rooted form (.gap node kind :: beds) layout.empty)
    (h : Garden markup (.gap node kind :: beds)) :
    let given := layout.render markup []
    let after := given.1.replaceChildren node given.2
    after.children node = given.2 ∧ FreshCopies markup after layout.empty given.2 ∧
      Markup.KeepsOrder [] markup given.1 ∧ (given.2.flatMap after.nodes).Nodup := by
  intro given after
  obtain ⟨copies, hnodes, hshapes, hcopies, hgarden, hfresh⟩ := h.copyAll_fresh hempty
  obtain ⟨hcopied, -⟩ := (Markup.Untouched.refl markup).copyAll layout.empty
  obtain ⟨hshown, hput⟩ := hgarden.put_below
  have hcopy : copies.map root = given.2 := hnodes
  rw [hcopy] at hshown hput
  have hids := hput.tail.left.nodes_eq hcopies
  have hstand := hput.tail.left.shapes_eq hcopies
  rw [hcopy] at hids hstand
  refine ⟨hshown, ⟨?_, fun id hid => hfresh id (hids ▸ hid)⟩,
    .of_children hcopied.size hcopied.children_eq, ?_⟩
  · refine (hstand.trans hshapes).trans ?_
    exact (List.map_congr_left (h.shape_template hempty)).symm
  · exact hids ▸ hput.tail.left.apart

/-- Rows come to stand in a new copy of the layout. -/
theorem Layout.shown_rows (layout : Layout)
    (hwrapper : Rooted form (.gap node kind :: beds) layout.wrapper)
    (h : Garden markup (outs ++ .gap node kind :: beds)) (houts : outs ≠ []) :
    let given := layout.render markup (outs.map root)
    let after := given.1.replaceChildren node given.2
    after.children node = given.2 ∧ ¬FreshCopies markup after layout.empty given.2 ∧
      (∃ frame, Framed markup after layout.wrapper (outs.map root) frame ∧
        given.2 = framedOutput after frame (outs.map root)) ∧
      Markup.KeepsOrder (outs.map root) markup given.1 ∧
      (AreWhole outs → (outs.map root).map after.shape = (outs.map root).map markup.shape ∧
        (given.2.flatMap after.nodes).Nodup) := by
  intro given after
  obtain ⟨copies, hcopies, hshapes, hfresh, hnodes, hgarden, horder⟩ :=
    layout.render_framed houts hwrapper h
  obtain ⟨hshown, hput⟩ := hgarden.put_below
  rw [← hnodes] at hshown hput
  have hafter : Garden after (Plot.nest copies outs ++ beds) := hput.tail
  rw [← List.map_congr_left (h.right.shape_template hwrapper)] at hshapes
  obtain ⟨hframed, houtput⟩ := hafter.framed hcopies hshapes hfresh
  refine ⟨hshown, fun hcopy => ?_, ⟨copies.map root, hframed, hnodes.trans houtput⟩, horder,
    fun hwhole => ⟨?_, ?_⟩⟩
  · -- The top of a row was there before, and is found in what is shown.
    obtain ⟨plot, more, rfl⟩ := List.exists_cons_of_ne_nil houts
    have hin : plot.root ∈ idsIn (plot :: more) := roots_subset_idsIn _ List.mem_cons_self
    have hold := StandAll.lt_size h.left.stands plot.root hin
    refine Nat.not_le.mpr hold (hcopy.fresh plot.root ?_)
    rw [hnodes]
    exact idsIn_subset_nodesTo hafter.left.stands hafter.left.heightIn_le_size
      (idsIn_subset_nest copies _ hin)
  · have hrows := (Covers.nest copies outs _ _ hafter).left.right
    exact (hrows.shapes_eq hwhole).trans (h.left.shapes_eq hwhole).symm
  · rw [hnodes, hafter.left.nodes_eq (AreWhole.nest hcopies hwhole)]
    exact hafter.left.apart

/-- Nothing gives a new copy of the else layout, and rows come to stand in a new copy of the layout. They
are taken from where they were, and nothing else that was there is moved. -/
theorem Layout.shown_cases (layout : Layout)
    (hwrapper : Rooted form (.gap node kind :: beds) layout.wrapper)
    (hempty : Rooted form (.gap node kind :: beds) layout.empty)
    (h : Garden markup (outs ++ .gap node kind :: beds)) {rows : List NodeId}
    (hrows : rows = outs.map root) (hafter : after = (layout.render markup rows).1.replaceChildren node
      (layout.render markup rows).2) :
    let shown := after.children node
    (FreshCopies markup after layout.empty shown ↔ rows = []) ∧
      (rows ≠ [] → ∃ frame, Framed markup after layout.wrapper rows frame ∧
        shown = framedOutput after frame rows) ∧
      (∀ id < markup.size, id ≠ node → after.kind id = markup.kind id ∧
        Markup.unmoved (rows ++ shown) (after.children id) =
          Markup.unmoved (rows ++ shown) (markup.children id)) ∧
      (AreWhole outs → rows.map after.shape = rows.map markup.shape ∧
        (shown.flatMap after.nodes).Nodup) := by
  intro shown
  subst hrows hafter
  by_cases houts : outs = []
  · subst houts
    obtain ⟨hshown, hcopy, horder, hapart⟩ := layout.shown_nothing hempty h
    simp only [shown]
    rw [List.map_nil, hshown]
    exact ⟨iff_of_true hcopy rfl, fun hnot => absurd rfl hnot, layout.unmoved_shown node horder,
      fun _ => ⟨rfl, hapart⟩⟩
  · obtain ⟨hshown, hother, hframed, horder, hwhole⟩ := layout.shown_rows hwrapper h houts
    simp only [shown]
    rw [hshown]
    exact ⟨iff_of_false hother fun hnil => houts (List.map_eq_nil_iff.mp hnil), fun _ => hframed,
      layout.unmoved_shown node horder, hwhole⟩

end

/-- The layout of a pass follows the rows. A pass of a list, a tree or a view, after any passes, asks for
rows, the leading ones first; no face fits any row exactly if none fits a leading row. As long as faces that
fit are not all without content, the pass shows a new copy of the else layout exactly if no face fits, and
something comes of the rows otherwise. What comes of them is shown as the whole content of the first place
in a new copy of the layout, behind the copy when it has no such place, and alone without a layout. No row
is there twice, and nothing that was there is changed or moved but for the rows. In a list or a tree no node
is found twice in what is shown, and the rows look as they did before they were put there. -/
theorem layout_follows_rows (hopened : Opened site start) (hcourse : Course site start scene seen)
    {source : Source} {faces : List ResolvedFace} (hsource : scene.snapshot? site = some source)
    (hfaces : scene.command.faces.mapM (Face.resolve · (scene.find site) source) = .ok faces) :
    let begun := Pass.start faces site.pattern scene.markup scene.command.cache
    let laid := begun.arrange scene.command.arrangement
      (scene.command.resolveRowCount (scene.find site)) source
    let before := laid.1.markup
    let after := (scene.pass site).markup
    let shown := after.children site.node
    ∃ calls, begun.Called calls laid.1 ∧
      (RowCall.chosen faces calls = [] ↔ ∀ target ∈ scene.command.arrangement.leading source,
        firstFit faces target.2 0 target.1 = none) ∧
      (¬RowCall.Hollow (RowCall.chosen faces calls) →
        (FreshCopies before after scene.command.layout.empty shown ↔ RowCall.chosen faces calls = []) ∧
        (RowCall.chosen faces calls ≠ [] → laid.2 ≠ [])) ∧
      (laid.2 ≠ [] →
        ¬FreshCopies before after scene.command.layout.empty shown ∧
        (∃ frame, Framed before after scene.command.layout.wrapper laid.2 frame ∧
          shown = framedOutput after frame laid.2) ∧
        (scene.command.layout.wrapper = [] → shown = laid.2)) ∧
      laid.2.Nodup ∧
      (∀ id < before.size, id ≠ site.node → after.kind id = before.kind id ∧
        Markup.unmoved (laid.2 ++ shown) (after.children id) =
          Markup.unmoved (laid.2 ++ shown) (before.children id)) ∧
      ((∀ field, scene.command.arrangement ≠ .view field) →
        laid.2.map after.shape = laid.2.map before.shape ∧ (shown.flatMap after.nodes).Nodup) ∧
      ∀ id ∈ scene.command.templates, before.shape id = start.markup.shape id := by
  intro begun laid before after shown
  obtain ⟨pots, kind, beds, new, left, outs, hkept, hknown, hstretch, hwholes⟩ :=
    hcourse.stretches hopened hfaces (scene.command.resolveRowCount (scene.find site))
  obtain ⟨calls, hasks, hleads⟩ := begun.asks_arrange scene.command.arrangement
    (scene.command.resolveRowCount (scene.find site)) source
  have hcalled := hasks.called
  rw [List.append_nil] at hcalled
  obtain ⟨cache, hcommand⟩ := hcourse.command
  have hnumbered : (scene.command.faces.map Face.index).Nodup := by
    rw [hcommand]
    exact hopened.faces_nodup
  have hnothing := hasks.eq_nil_iff rfl (hkept.filled hnumbered hknown hfaces)
  have hgarden : Garden before (outs ++ .gap site.node kind :: beds) := hstretch.garden.sublist
    ((List.Sublist.refl _).append (List.sublist_append_right _ _))
  have hrows : laid.2 = outs.map root := hstretch.nodes
  obtain ⟨hempty, hframed, hmoves, hwhole⟩ := scene.command.layout.shown_cases
    (hkept.templates.of_subset fun id hid => by simp [ShowCommand.templates, hid])
    (hkept.templates.of_subset fun id hid => by simp [ShowCommand.templates, hid]) hgarden hrows
    (pass_markup hsource hfaces)
  refine ⟨calls, hcalled, (hasks.chosen_eq_nil_iff rfl).trans (hasks.none_given_iff hleads rfl),
    fun hollow => ⟨hempty.trans (hnothing hollow), mt (hnothing hollow).mp⟩, fun hfilled => ?_, ?_,
    hmoves, fun hview => hwhole (hwholes hview), hgarden.right.shape_template hkept.templates⟩
  · obtain ⟨frame, hcopy, hshown⟩ := hframed hfilled
    exact ⟨mt hempty.mp hfilled, ⟨frame, hcopy, hshown⟩,
      fun halone => hshown.trans (hcopy.alone halone)⟩
  · rw [hrows]
    exact hgarden.left.roots_nodup

/-- A list with a layout, an else layout and a face that is for rows with a text. -/
def laidOutList : Markup := ⟨#[
  { kind := .element "ul" [("source", "db.items")], children := [1, 4, 6] },
  { kind := .element "layout" [], children := [2], parent := some 0 },
  { kind := .element "ol" [], children := [3], parent := some 1 },
  { kind := .text "@child", parent := some 2 },
  { kind := .element "else-layout" [], children := [5], parent := some 0 },
  { kind := .text "none", parent := some 4 },
  { kind := .element "face" [("filter", "v")], children := [7], parent := some 0 },
  { kind := .element "li" [], children := [8], parent := some 6 },
  { kind := .text "@v", parent := some 7 }]⟩

theorem opened_laidOutList : Opened itemSite (sceneOf .list laidOutList) := by
  let children : List Plot := [
    .tree 1 (.element "layout" []) [.tree 2 (.element "ol" []) [.tree 3 (.text "@child") []]],
    .tree 4 (.element "else-layout" []) [.tree 5 (.text "none") []],
    .tree 6 (.element "face" [("filter", "v")]) [.tree 7 (.element "li" []) [.tree 8 (.text "@v") []]]]
  have hwhole : AreWhole children := by simp [children, AreWhole, IsWhole]
  have hgarden : Garden laidOutList
      [.tree 0 (.element "ul" [("source", "db.items")]) children] := by
    refine ⟨?_, by decide⟩
    simp only [children, StandAll, Stands]
    decide
  exact opened_sceneOf hwhole hgarden (by decide +kernel)

/-- Two items, the first of which has no text and was overwritten once. -/
def secondFilled : Source :=
  ⟨"db.items", [⟨[("id", .string "1"), ("v", .string "")], 1⟩,
    ⟨[("id", .string "2"), ("v", .string "b")], 0⟩], { keyField := none, mergeType := .replace }⟩

/-- The list that shows no item, and then the second one of two. -/
def laidOutItems : Scene :=
  ((((sceneOf .list laidOutList).put (itemSource none .replace [("1", "")])).pass itemSite).put
    (itemSource none .replace [("1", ""), ("2", "b")])).pass itemSite

theorem laid_out_items_framed :
    laidOutItems.html itemSite = "<ol><li>b</li></ol>" ∧
    (laidOutItems.pass itemSite).html itemSite = "<ol><li>b</li></ol>" ∧
    (laidOutItems.pass itemSite).command.cache.slots = laidOutItems.command.cache.slots ∧
    ∃ (faces : List ResolvedFace) (frame : List NodeId),
      laidOutItems.command.faces.mapM (Face.resolve · (laidOutItems.find itemSite) secondFilled) =
        .ok faces ∧
      (let laid := (Pass.start faces itemSite.pattern laidOutItems.markup
        laidOutItems.command.cache).arrange laidOutItems.command.arrangement
          (laidOutItems.command.resolveRowCount (laidOutItems.find itemSite)) secondFilled
      let after := (laidOutItems.pass itemSite).markup
      laid.2 ≠ [] ∧ Framed laid.1.markup after laidOutItems.command.layout.wrapper laid.2 frame ∧
        after.children itemSite.node = framedOutput after frame laid.2) := by
  have hok : (laidOutItems.command.faces.mapM
      (Face.resolve · (laidOutItems.find itemSite) secondFilled)).isOk = true := by decide +kernel
  obtain ⟨faces, hfaces⟩ := exists_ok hok
  have hsource : laidOutItems.snapshot? itemSite = some secondFilled := by with_unfolding_all rfl
  have hcourse : Course itemSite (sceneOf .list laidOutList) laidOutItems _ :=
    .pass (.set 0 _ (.pass (.set 0 _ .start)))
  obtain ⟨calls, -, hleading, hchoice, hrowsFramed, -⟩ :=
    layout_follows_rows opened_laidOutList hcourse hsource hfaces
  have hfits : ((laidOutItems.command.faces.mapM
      (Face.resolve · (laidOutItems.find itemSite) secondFilled)).toOption.map fun faces =>
        (firstFit faces ["1"] 0 1).isSome) = some true := by decide +kernel
  have hfilled : ∀ face ∈ laidOutItems.command.faces, face.template ≠ [] := by decide +kernel
  have hleads : (1, ["1"]) ∈ laidOutItems.command.arrangement.leading secondFilled := by decide +kernel
  have hchosen : RowCall.chosen faces calls ≠ [] := by
    intro hnil
    have hnone : firstFit faces ["1"] 0 1 = none := hleading.mp hnil (1, ["1"]) hleads
    rw [hfaces] at hfits
    have hsome : (firstFit faces ["1"] 0 1).isSome = true := Option.some.inj hfits
    rw [hnone] at hsome
    cases hsome
  have hollow : ¬RowCall.Hollow (RowCall.chosen faces calls) := by
    rintro ⟨-, hempty⟩
    obtain ⟨resolved, hresolved⟩ := List.exists_mem_of_ne_nil _ hchosen
    refine hfilled resolved.face ?_ (hempty resolved hresolved)
    rw [← mapM_resolve_face hfaces]
    exact List.mem_map_of_mem (RowCall.chosen_subset faces calls hresolved)
  have hrows := (hchoice hollow).2 hchosen
  obtain ⟨-, ⟨frame, hframed, hshown⟩, -⟩ := hrowsFramed hrows
  exact ⟨by decide +kernel, by decide +kernel, by decide +kernel, faces, frame, hfaces, hrows, hframed,
    hshown⟩

/-- A list with an else layout and a face without content. -/
def hollowList : Markup := ⟨#[
  { kind := .element "ul" [("source", "db.items")], children := [1, 2] },
  { kind := .element "face" [], parent := some 0 },
  { kind := .element "else-layout" [], children := [3], parent := some 0 },
  { kind := .element "li" [], children := [4], parent := some 2 },
  { kind := .text "none", parent := some 3 }]⟩

theorem opened_hollowList : Opened itemSite (sceneOf .list hollowList) := by
  let children : List Plot := [
    .tree 1 (.element "face" []) [],
    .tree 2 (.element "else-layout" []) [.tree 3 (.element "li" []) [.tree 4 (.text "none") []]]]
  have hwhole : AreWhole children := by simp [children, AreWhole, IsWhole]
  have hgarden : Garden hollowList
      [.tree 0 (.element "ul" [("source", "db.items")]) children] := by
    refine ⟨?_, by decide⟩
    simp only [children, StandAll, Stands]
    decide
  exact opened_sceneOf hwhole hgarden (by decide +kernel)

/-- The list with one item in its source, not shown yet. -/
def hollowItems : Scene := (sceneOf .list hollowList).put (itemSource none .replace [("1", "x")])

/-- The face fits the item, and yet a copy of the else layout is shown. -/
theorem hollow_item_unseen :
    ∃ (start scene : Scene) (seen : List Source) (source : Source) (faces : List ResolvedFace),
      Opened itemSite start ∧ Course itemSite start scene seen ∧
      scene.snapshot? itemSite = some source ∧
      scene.command.faces.mapM (Face.resolve · (scene.find itemSite) source) = .ok faces ∧
      (∃ target ∈ scene.command.arrangement.leading source,
        (firstFit faces target.2 0 target.1).isSome = true) ∧
      scene.markup.html scene.command.layout.empty = "<li>none</li>" ∧
      (scene.pass itemSite).html itemSite = "<li>none</li>" ∧
      (scene.pass itemSite).markup.children itemSite.node = [scene.markup.size] := by
  refine ⟨sceneOf .list hollowList, hollowItems, _, itemSource none .replace [("1", "x")],
    [⟨⟨0, none, none, none, []⟩, none, none, none⟩], opened_hollowList, .set 0 _ .start, ?_, ?_,
    ⟨(0, ["1"]), ?_, ?_⟩, ?_, ?_, ?_⟩
  · with_unfolding_all rfl
  · with_unfolding_all rfl
  · with_unfolding_all exact List.mem_cons_self
  · decide +kernel
  · decide +kernel
  · decide +kernel
  · decide +kernel

end ReactiveMarkup
