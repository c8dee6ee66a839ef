import ReactiveMarkup.Proofs.Face.Lists
import ReactiveMarkup.Proofs.Face.Transparency
import ReactiveMarkup.Proofs.Face.Trees
import ReactiveMarkup.Proofs.Number.Integers

/-!
# Lists and trees after any passes

Passes of a command leave pots that stand, whether or not what they took over was right for the rows they
showed. So in every course of passes a list and a tree can be told what they come to: which rows are asked
for and shown, with which faces, and where their nodes are.
-/

namespace ReactiveMarkup

open Plot Pot

namespace ShowCommand

variable {pattern : Pattern} {form : NodeId → Shape} {rest : List Plot} {command : ShowCommand}
  {markup : Markup} {pots : List Pot}

theorem Kept.underway (h : Kept pattern form rest command markup pots)
    (hnumbered : (command.faces.map Face.index).Nodup) {nesting : String → Bool}
    (hnative : ∀ pot ∈ pots, pot.showing.Native command.faces nesting)
    {find : String → Option Source} {source : Source} {resolved : List ResolvedFace}
    (hresolved : command.faces.mapM (Face.resolve · find source) = .ok resolved) :
    Pass.Underway ⟨resolved, pattern, form, source⟩ nesting [] pots rest
      (Pass.start resolved pattern markup command.cache) := by
  have hfaces : Sketch.plainFaces ⟨resolved, pattern, form, source⟩ = command.faces :=
    mapM_resolve_face hresolved
  refine ⟨h.tended resolved source, h.facesRooted hresolved, ?_, ?_, h.garden⟩
  · rwa [hfaces]
  · rwa [NativeAll, hfaces]

/-- The templates of a command have the shapes they were read with. -/
theorem Kept.map_shape (h : Kept pattern form rest command markup pots) {template : List NodeId}
    (htemplate : template ⊆ command.templates) : template.map markup.shape = template.map form :=
  List.map_congr_left fun id hid => h.garden.right.shape_template h.templates id (htemplate hid)

/-- A row is made from the templates as they stand. -/
theorem Kept.madeFrom (h : Kept pattern form rest command markup pots)
    {find : String → Option Source} {source : Source} {resolved : List ResolvedFace}
    (hresolved : command.faces.mapM (Face.resolve · find source) = .ok resolved)
    {stored : List (SlotName × Rendering)} {index : Nat} {face : ResolvedFace} {rendering : Rendering}
    {shapes : List Shape} (hface : face ∈ resolved)
    (hmade : MadeFrom source pattern form stored index face.face rendering shapes) :
    MadeFrom source pattern markup.shape stored index face.face rendering shapes := by
  have hmem : face.face ∈ command.faces := by
    rw [← mapM_resolve_face hresolved]
    exact List.mem_map_of_mem hface
  exact hmade.mono (h.map_shape (template_subset_templates hmem)).symm (List.Subset.refl _)

/-- Nodes that were picked as copies of a template are copies of it as it stands. -/
theorem Kept.freshCopies (h : Kept pattern form rest command markup pots) {template : List NodeId}
    (htemplate : template ⊆ command.templates) {outs : List Plot} {after : Markup}
    (hwhole : AreWhole outs) (hgarden : Garden after outs) {copies : List NodeId}
    (hpicked : Picked outs markup.size copies (template.map form)) :
    FreshCopies markup after template copies := by
  obtain ⟨hshapes, hfresh⟩ := hpicked.stands hwhole hgarden
  rw [← h.map_shape htemplate] at hshapes
  exact ⟨hshapes, hfresh⟩

/-- A list or a tree grows what its rows come to, whatever is in its cache. -/
theorem Kept.grows (h : Kept pattern form rest command markup pots)
    (hnumbered : (command.faces.map Face.index).Nodup)
    (hview : ∀ field, command.arrangement ≠ .view field)
    (hnative : ∀ pot ∈ pots, pot.showing.Native command.faces fun _ => command.arrangement.nests)
    {find : String → Option Source} {source : Source} {resolved : List ResolvedFace}
    (hresolved : command.faces.mapM (Face.resolve · find source) = .ok resolved) (rowCount : Nat) :
    ∃ new left outs,
      Pass.Grows ⟨resolved, pattern, form, source⟩ (fun _ => command.arrangement.nests) [] pots rest
        ((Pass.start resolved pattern markup command.cache).arrange command.arrangement rowCount
          source).1
        ((Pass.start resolved pattern markup command.cache).arrange command.arrangement rowCount
          source).2 new left outs := by
  have hunderway := h.underway hnumbered hnative hresolved
  cases harrangement : command.arrangement with
  | list levels divider incomplete =>
      obtain ⟨hdivider, hincomplete⟩ := h.sections harrangement
      rw [harrangement] at hunderway
      obtain ⟨rows, padding, new, left, outs, after, hpass, -, -, hgrows, -⟩ :=
        hunderway.arrangeList rfl rowCount hdivider hincomplete (Markup.Untouched.refl markup)
          (List.Subset.refl _)
      refine ⟨new, left, outs, ?_⟩
      rw [Pass.arrange]
      dsimp only at hpass ⊢
      rw [hpass]
      exact hgrows
  | tree parentField keyField =>
      rw [harrangement] at hunderway
      obtain ⟨branches, nodes, new, left, outs, after, hpass, -, -, hgrows, -⟩ :=
        hunderway.arrangeTree rfl parentField keyField
      refine ⟨new, left, outs, ?_⟩
      rw [Pass.arrange]
      dsimp only at hpass ⊢
      rw [hpass]
      exact hgrows
  | view field => exact absurd harrangement (hview field)

end ShowCommand

/-! ## Courses -/

variable {site : Site} {start scene : Scene} {seen : List Source}

/-- A pass keeps what there is to keep, and what is known of its rows if that is known of the rows of any
pass that begins with such rows. -/
theorem Tilled.pass_with {form : NodeId → Shape} {last : List Showing} {P : Showing → Prop}
    (h : Tilled site form scene last) (hlast : ∀ showing ∈ last, P showing)
    (hpass : ∀ {rest : List Plot} {pots : List Pot} {source : Source} {resolved : List ResolvedFace},
      scene.command.Kept site.pattern form rest scene.markup pots → (∀ pot ∈ pots, P pot.showing) →
      scene.command.faces.mapM (Face.resolve · (scene.find site) source) = .ok resolved →
      ∃ new left outs,
        Stretch ⟨resolved, site.pattern, form, source⟩ [] pots rest
          ((Pass.start resolved site.pattern scene.markup scene.command.cache).arrange
            scene.command.arrangement (scene.command.resolveRowCount (scene.find site)) source).1
          ((Pass.start resolved site.pattern scene.markup scene.command.cache).arrange
            scene.command.arrangement (scene.command.resolveRowCount (scene.find site)) source).2
          new left outs ∧
        ∀ pot ∈ new, P pot.showing) :
    ∃ next, Tilled site form (scene.pass site) next ∧ ∀ showing ∈ next, P showing := by
  by_cases hresolved : ∃ source ∈ scene.snapshot? site, ∃ resolved,
      scene.command.faces.mapM (Face.resolve · (scene.find site) source) = .ok resolved
  · obtain ⟨source, hsource, resolved, hresolved⟩ := hresolved
    obtain ⟨pots, kind, beds, hkept, hbeds, rfl⟩ := h
    obtain ⟨new, left, outs, hstretch, hnew⟩ :=
      hpass hkept (fun pot hpot => hlast _ (List.mem_map_of_mem hpot)) hresolved
    obtain ⟨changed, cache, finals, hrefresh, -, -, hgarden, hcovers, hslots⟩ :=
      hkept.refresh_of_stretch hresolved hstretch
    obtain ⟨htilled, -⟩ := tilled_of_refresh hkept hbeds hsource hrefresh hgarden hcovers hslots
    exact ⟨_, htilled, List.forall_mem_map.mpr hnew⟩
  · rw [pass_of_unresolved fun source hsource faces hfaces =>
      hresolved ⟨source, hsource, faces, hfaces⟩]
    exact ⟨last, h, hlast⟩

/-- In any course of passes what is kept stands, and what every pass keeps to is known of its rows. -/
theorem Course.tilled_with {P : Showing → Prop} (hopened : Opened site start)
    (h : Course site start scene seen)
    (hpass : ∀ {scene : Scene} {last : List Showing},
      (∃ cache, scene.command = { start.command with cache }) →
      Tilled site start.markup.shape scene last → (∀ showing ∈ last, P showing) →
      ∃ next, Tilled site start.markup.shape (scene.pass site) next ∧ ∀ showing ∈ next, P showing) :
    ∃ last, Tilled site start.markup.shape scene last ∧ ∀ showing ∈ last, P showing := by
  induction h with
  | start => exact ⟨[], hopened.tilled, List.forall_mem_nil _⟩
  | set scope source _ ih =>
      obtain ⟨last, htilled, hlast⟩ := ih
      exact ⟨last, htilled, hlast⟩
  | elsewhere alone _ ih =>
      obtain ⟨last, htilled, hlast⟩ := ih
      exact ⟨last, htilled.elsewhere alone, hlast⟩
  | pass before ih =>
      obtain ⟨last, htilled, hlast⟩ := ih
      exact hpass before.command htilled hlast

/-- In any course of passes of a list or a tree, the rows of the last one are of the command. -/
theorem Course.standing (hopened : Opened site start) (h : Course site start scene seen)
    (hview : ∀ field, start.command.arrangement ≠ .view field) :
    ∃ last, Tilled site start.markup.shape scene last ∧ ∀ showing ∈ last,
      showing.Native start.command.faces fun _ => start.command.arrangement.nests := by
  refine h.tilled_with hopened fun {scene last} hcommand htilled hlast => ?_
  obtain ⟨cache, hcommand⟩ := hcommand
  have hfaces : scene.command.faces = start.command.faces := by rw [hcommand]
  have harrangement : scene.command.arrangement = start.command.arrangement := by rw [hcommand]
  rw [← hfaces, ← harrangement] at hlast
  rw [← harrangement] at hview
  rw [← hfaces, ← harrangement]
  refine htilled.pass_with hlast fun hkept hpots hresolved => ?_
  obtain ⟨new, left, outs, hyield, hnew⟩ :=
    hkept.grows (hfaces ▸ hopened.faces_nodup) hview hpots hresolved
      (scene.command.resolveRowCount (scene.find site))
  rw [NativeAll, Sketch.plainFaces, mapM_resolve_face hresolved] at hnew
  exact ⟨new, left, outs, hyield.stretch, hnew⟩

/-- A pass of a list or a tree begins with what is kept. -/
theorem Course.underway (hopened : Opened site start) (h : Course site start scene seen)
    (hview : ∀ field, scene.command.arrangement ≠ .view field) {source : Source}
    {faces : List ResolvedFace}
    (hfaces : scene.command.faces.mapM (Face.resolve · (scene.find site) source) = .ok faces) :
    ∃ pots kind beds,
      scene.command.Kept site.pattern start.markup.shape (.gap site.node kind :: beds) scene.markup
        pots ∧
      Pass.Underway ⟨faces, site.pattern, start.markup.shape, source⟩
        (fun _ => scene.command.arrangement.nests) [] pots (.gap site.node kind :: beds)
        (Pass.start faces site.pattern scene.markup scene.command.cache) := by
  obtain ⟨cache, hcommand⟩ := h.command
  have hsame : scene.command.arrangement = start.command.arrangement := by rw [hcommand]
  obtain ⟨last, ⟨pots, kind, beds, hkept, -, rfl⟩, hnative⟩ := h.standing hopened (hsame ▸ hview)
  refine ⟨pots, kind, beds, hkept, hkept.underway ?_ (fun pot hpot => ?_) hfaces⟩
  · rw [hcommand]
    exact hopened.faces_nodup
  · have hpotNative := hnative _ (List.mem_map_of_mem hpot)
    rwa [hcommand]

/-! ## Two commands

The theorems below are tried on a list and on a tree, each read from an element at the top of a forest.
-/

theorem exists_ok {ε α : Type} {made : Except ε α} (h : made.isOk = true) :
    ∃ result, made = .ok result := by
  cases made with
  | error error => cases h
  | ok result => exact ⟨result, rfl⟩

/-- What comes of reading an element at the top of a forest. -/
def readingOf (kind : ShowKind) (markup : Markup) : Except Error (ShowCommand × Priority) × Markup :=
  (ShowCommand.read ⟨columnPattern, columnPattern, columnPattern⟩ kind 0).run markup

/-- The scene at which an element was read. -/
def sceneOf (kind : ShowKind) (markup : Markup) : Scene where
  scopes := (Scopes.create {} none).1.hold 0
  markup := (readingOf kind markup).2
  command := match (readingOf kind markup).1 with
    | .ok (command, _) => command
    | .error _ => default

theorem opened_sceneOf {kind : ShowKind} {markup : Markup} {top : NodeKind} {children : List Plot}
    (hwhole : AreWhole children) (hgarden : Garden markup [.tree 0 top children])
    (hok : (readingOf kind markup).1.isOk = true) : Opened itemSite (sceneOf kind markup) where
  read := by
    obtain ⟨result, hread⟩ := exists_ok hok
    refine ⟨⟨columnPattern, columnPattern, columnPattern⟩, kind, result.2, top, children, markup,
      hwhole, hgarden, ?_⟩
    have hcommand : (sceneOf kind markup).command = result.1 := by rw [sceneOf, hread]
    rw [hcommand]
    exact Prod.ext hread rfl

/-! ## Lists -/

/-- The setting of a list is its row count if it is a positive integer. -/
theorem ShowCommand.resolveRowCount_eq_iff (command : ShowCommand) (find : String → Option Source)
    {count : Nat} (hcount : 0 < count) : command.resolveRowCount find = count ↔
      ∃ token, command.rowCount = some token ∧ token.value find = .number (.int count) := by
  rw [ShowCommand.resolveRowCount]
  cases command.rowCount with
  | none => simp [Nat.ne_of_lt hcount]
  | some token =>
      rw [Option.getD_eq_iff]
      simp [Value.nat?_eq_some_iff, Nat.ne_of_lt hcount]

/-- A list after any passes lays the rows of a source out in their order. Shown are the rows that a face
fits when it is their turn, each with the first such face, filled in for this row or taken over from a
slot; the others fit no face after the rows before them. When the setting is a positive integer, a copy
of the divider stands before every row but the first that begins a group, and the last group is filled up
with copies of the section for missing rows; for any other setting there are no such copies. All copies
consist of new nodes, and no node is found in the output twice. -/
theorem list_lays_out_rows (hopened : Opened site start) (hcourse : Course site start scene seen)
    {source : Source} {faces : List ResolvedFace}
    (hfaces : scene.command.faces.mapM (Face.resolve · (scene.find site) source) = .ok faces)
    {levels : List String} {divider incomplete : List NodeId}
    (hlist : scene.command.arrangement = .list levels divider incomplete) :
    let count := scene.command.resolveRowCount (scene.find site)
    let laid := (Pass.start faces site.pattern scene.markup scene.command.cache).arrange
      scene.command.arrangement count source
    ∃ (rows : List ListedRow) (padding : List (List NodeId)),
      laid.2 = rows.flatMap ListedRow.output ++ padding.flatten ∧
      (rows.map ListedRow.index).Pairwise (· < ·) ∧
      (∀ place row, rows[place]? = some row →
        firstFit faces levels place row.index = some row.face ∧
        MadeFrom source site.pattern scene.markup.shape scene.command.cache.slots row.index
          row.face.face row.rendering (row.rendering.nodes.map laid.1.markup.shape) ∧
        (row.divider.isSome = true ↔ 0 < count ∧ 0 < place ∧ count ∣ place) ∧
        ∀ copies ∈ row.divider, FreshCopies scene.markup laid.1.markup divider copies) ∧
      (∀ index < source.size, index ∉ rows.map ListedRow.index →
        firstFit faces levels (rows.countP (·.index < index)) index = none) ∧
      padding.length = (if count = 0 then 0 else (count - rows.length % count) % count) ∧
      (∀ copies ∈ padding, FreshCopies scene.markup laid.1.markup incomplete copies) ∧
      (laid.2.flatMap laid.1.markup.nodes).Nodup ∧
      ∀ setting : Nat, 0 < setting → (count = setting ↔ ∃ token, scene.command.rowCount = some token ∧
        token.value (scene.find site) = .number (.int setting)) := by
  intro count laid
  obtain ⟨pots, kind, beds, hkept, hunderway⟩ := hcourse.underway hopened
    (fun field hview => by rw [hlist] at hview; cases hview) hfaces
  rw [hlist] at hunderway
  obtain ⟨hdivider, hincomplete⟩ := hkept.sections hlist
  have hsame : Markup.Untouched scene.markup.size scene.markup
      (Pass.start faces site.pattern scene.markup scene.command.cache).markup :=
    Markup.Untouched.refl scene.markup
  have hstored : (Pass.start faces site.pattern scene.markup scene.command.cache).previous ⊆
      scene.command.cache.slots := List.Subset.refl _
  obtain ⟨rows, padding, new, left, outs, after, hpass, hlaid, hlength, hgrows, hrows, hpadding⟩ :=
    hunderway.arrangeList rfl count hdivider hincomplete hsame hstored
  have hsplit : laid = (after, rows.flatMap ListedRow.output ++ padding.flatten) := by
    rw [← hpass]
    simp only [laid]
    rw [hlist]
    rfl
  have hwhole := hgrows.yield.whole
  have hgarden : Garden after.markup outs := hgrows.yield.garden.left
  have hsorted : (List.range source.size).Pairwise (· < ·) := List.pairwise_lt_range
  obtain ⟨hdividers, hincompletes⟩ := ShowCommand.sections_subset_templates hlist
  rw [hsplit]
  refine ⟨rows, padding, rfl, hsorted.sublist hlaid.sublist, fun place row hrow => ?_,
    fun index hindex hnot => ?_, hlength, fun copies hcopies => ?_, ?_, fun setting hsetting => ?_⟩
  · obtain ⟨hchosen, hdivided⟩ := hlaid.at_place hrow
    rw [Nat.zero_add] at hchosen hdivided
    obtain ⟨⟨shapes, hmade, hpicked⟩, hcopied⟩ := hrows row (List.mem_of_getElem? hrow)
    refine ⟨hchosen, ?_, hdivided, fun copies hcopies => ?_⟩
    · rw [(hpicked.stands hwhole hgarden).1]
      exact hkept.madeFrom hfaces (List.mem_of_find?_eq_some hchosen) hmade
    · exact hkept.freshCopies hdividers hwhole hgarden (hcopied copies hcopies)
  · have hout := hlaid.left_out hsorted (List.mem_range.mpr hindex) hnot
    rwa [Nat.zero_add] at hout
  · exact hkept.freshCopies hincompletes hwhole hgarden (hpadding copies hcopies)
  · rw [hgrows.yield.nodes, hgarden.nodes_eq hwhole]
    exact hgarden.apart
  · exact scene.command.resolveRowCount_eq_iff (scene.find site) hsetting

/-- A list in groups of two, with a face for odd rows and one for even ones. Neither is for rows without
a text. -/
def groupedList : Markup := ⟨#[
  { kind := .element "ul" [("source", "db.items"), ("rowcount", "2")], children := [1, 3, 5, 8] },
  { kind := .element "divider" [], children := [2], parent := some 0 },
  { kind := .element "hr" [], parent := some 1 },
  { kind := .element "incomplete" [], children := [4], parent := some 0 },
  { kind := .text "-", parent := some 3 },
  { kind := .element "face" [("rowtype", "odd"), ("filter", "v")], children := [6], parent := some 0 },
  { kind := .element "b" [], children := [7], parent := some 5 },
  { kind := .text "@v", parent := some 6 },
  { kind := .element "face" [("rowtype", "even"), ("filter", "v")], children := [9], parent := some 0 },
  { kind := .element "i" [], children := [10], parent := some 8 },
  { kind := .text "@v", parent := some 9 }]⟩

theorem opened_groupedList : Opened itemSite (sceneOf .list groupedList) := by
  let children : List Plot := [
    .tree 1 (.element "divider" []) [.tree 2 (.element "hr" []) []],
    .tree 3 (.element "incomplete" []) [.tree 4 (.text "-") []],
    .tree 5 (.element "face" [("rowtype", "odd"), ("filter", "v")])
      [.tree 6 (.element "b" []) [.tree 7 (.text "@v") []]],
    .tree 8 (.element "face" [("rowtype", "even"), ("filter", "v")])
      [.tree 9 (.element "i" []) [.tree 10 (.text "@v") []]]]
  have hwhole : AreWhole children := by simp [children, AreWhole, IsWhole]
  have hgarden : Garden groupedList
      [.tree 0 (.element "ul" [("source", "db.items"), ("rowcount", "2")]) children] := by
    refine ⟨?_, by decide⟩
    simp only [children, StandAll, Stands]
    decide
  exact opened_sceneOf hwhole hgarden (by decide +kernel)

/-- Four items, the second of which has no text. -/
def fourItems : Source := itemSource none .replace [("1", "a"), ("2", ""), ("3", "c"), ("4", "d")]

/-- The list that shows two items, and four in their place. -/
def groupedItems : Scene :=
  (((sceneOf .list groupedList).put
    (itemSource none .replace [("1", "a"), ("3", "c")])).pass itemSite).put fourItems

theorem grouped_items_laid_out :
    (groupedItems.pass itemSite).html itemSite = "<b>a</b><i>c</i><hr><b>d</b>-" ∧
    ∃ (faces : List ResolvedFace) (rows : List ListedRow) (padding : List (List NodeId)),
      groupedItems.command.faces.mapM (Face.resolve · (groupedItems.find itemSite) fourItems) =
        .ok faces ∧
      ((Pass.start faces columnPattern groupedItems.markup groupedItems.command.cache).arrange
        groupedItems.command.arrangement 2 fourItems).2 =
          rows.flatMap ListedRow.output ++ padding.flatten ∧
      padding.length = (2 - rows.length % 2) % 2 ∧
      ∀ place row, rows[place]? = some row →
        (row.divider.isSome = true ↔ 0 < place ∧ 2 ∣ place) := by
  have hok : (groupedItems.command.faces.mapM
      (Face.resolve · (groupedItems.find itemSite) fourItems)).isOk = true := by decide +kernel
  obtain ⟨faces, hfaces⟩ := exists_ok hok
  have hcount : groupedItems.command.resolveRowCount (groupedItems.find itemSite) = 2 := by
    decide +kernel
  have hlist : groupedItems.command.arrangement = .list ["1"] [2] [4] := by with_unfolding_all rfl
  have hcourse : Course itemSite (sceneOf .list groupedList) groupedItems _ :=
    .set 0 fourItems (.pass (.set 0 _ .start))
  obtain ⟨rows, padding, houtput, -, hrows, -, hpadding, -⟩ :=
    list_lays_out_rows opened_groupedList hcourse hfaces hlist
  rw [hcount] at houtput hrows hpadding
  refine ⟨by decide +kernel, faces, rows, padding, hfaces, houtput, hpadding, fun place row hrow => ?_⟩
  exact (hrows place row hrow).2.2.1.trans (and_iff_right (Nat.zero_lt_succ 1))

/-! ## Trees -/

/-- A tree after any passes walks over its rows depth first. It asks for a row at its depth, as a parent or
a leaf, once at most, and for no other rows than a least set: the roots, and the rows below each row that
a face fits. Rows beside each other are in the order of the source. The nodes of a row have the nodes of
the rows first reached through it as the whole content of their first place, or behind them when there is
none, and no node is found in the output twice. -/
theorem tree_walks_rows (hopened : Opened site start) (hcourse : Course site start scene seen)
    {source : Source} {faces : List ResolvedFace}
    (hfaces : scene.command.faces.mapM (Face.resolve · (scene.find site) source) = .ok faces)
    {parentField keyField : String}
    (htree : scene.command.arrangement = .tree parentField keyField) (rowCount : Nat) :
    let shape := TreeShape.ofSource parentField keyField source
    let begun := Pass.start faces site.pattern scene.markup scene.command.cache
    let laid := begun.arrange scene.command.arrangement rowCount source
    ∃ branches : Branches,
      Walks shape [] shape.roots branches ∧
      begun.Called (branches.calls shape source 1).reverse laid.1 ∧
      ((branches.calls shape source 1).map RowCall.index).Nodup ∧
      (∀ index, index ∈ (branches.calls shape source 1).map RowCall.index ↔
        source.Reached parentField keyField
          (fun other => ∃ call ∈ branches.calls shape source 1,
            call.index = other ∧ call.result.isSome = true) index) ∧
      (∀ call earlier, call :: earlier <:+ (branches.calls shape source 1).reverse →
        call.result.isSome = (call.face? faces earlier).isSome) ∧
      (branches.tops.Pairwise (· < ·) ∧
        (∀ index ∈ branches.tops, source.IsRoot parentField keyField index) ∧
        branches.Ordered source parentField keyField) ∧
      laid.2 = branches.output laid.1.markup ∧
      branches.Nested (fun index rendering shapes => ∃ face ∈ faces, MadeFrom source site.pattern
        scene.markup.shape scene.command.cache.slots index face.face rendering shapes)
        laid.1.markup ∧
      (laid.2.flatMap laid.1.markup.nodes).Nodup := by
  intro shape begun laid
  obtain ⟨pots, kind, beds, hkept, hunderway⟩ := hcourse.underway hopened
    (fun field hview => by rw [htree] at hview; cases hview) hfaces
  rw [htree] at hunderway
  obtain ⟨branches, nodes, new, left, outs, after, hpass, hwalks, hcalled, hgrows, hbears⟩ :=
    hunderway.arrangeTree rfl parentField keyField
  have hlaid : laid = (after, nodes) := by
    rw [← hpass]
    simp only [laid, begun]
    rw [htree]
    rfl
  have hgarden := hgrows.yield.garden
  obtain ⟨houtput, hnested⟩ := hbears.stands hgarden
  have hshown : (fun other => other ∈ branches.shown) =
      fun other => ∃ call ∈ branches.calls shape source 1,
        call.index = other ∧ call.result.isSome = true :=
    funext fun other => propext Branches.mem_shown_iff
  have hmatched : ∀ call earlier, call :: earlier <:+ (branches.calls shape source 1).reverse →
      call.result.isSome = (call.face? faces earlier).isSome := by
    intro call earlier hsuffix
    obtain ⟨markup, hasked⟩ := hcalled
    refine (hasked.matched rfl).2.2 call earlier hsuffix ?_
    have hin : call ∈ branches.calls shape source 1 :=
      List.mem_reverse.mp (hsuffix.subset List.mem_cons_self)
    exact Branches.inRange_of_mem_calls (hwalks.closed (fun _ => TreeShape.lt_size_of_mem_roots)
      fun _ _ _ _ => TreeShape.lt_size_of_mem_childrenOf) hin
  rw [hlaid]
  refine ⟨branches, hwalks, hcalled, ?_, fun index => ?_, hmatched, ⟨?_, ?_, hwalks.ordered⟩, ?_,
    hnested.mono fun index rendering shapes hmade => ?_, ?_⟩
  · rw [Branches.map_index_calls]
    exact hwalks.nodup.1
  · rw [Branches.map_index_calls, ← hshown]
    exact hwalks.mem_rows_iff_reached index
  · exact (TreeShape.roots_sorted shape).sublist hwalks.tops_sublist
  · exact fun index hindex => TreeShape.mem_roots.mp (hwalks.tops_sublist.subset hindex)
  · rw [houtput]
    exact hgrows.yield.nodes
  · obtain ⟨face, hface, hmade⟩ := hmade
    exact ⟨face, hface, hkept.madeFrom hfaces hface hmade⟩
  · rw [hgrows.yield.nodes, hgarden.left.nodes_eq hgrows.yield.whole]
    exact hgarden.left.apart

/-- A tree whose rows have a place for those below them. -/
def nestedList : Markup := ⟨#[
  { kind := .element "ul" [("source", "db.items"), ("parent-field", "p")], children := [1] },
  { kind := .element "face" [], children := [2], parent := some 0 },
  { kind := .element "li" [], children := [3, 4], parent := some 1 },
  { kind := .text "@v", parent := some 2 },
  { kind := .element "ul" [], children := [5], parent := some 2 },
  { kind := .text "@child", parent := some 4 }]⟩

theorem opened_nestedList : Opened itemSite (sceneOf .tree nestedList) := by
  let children : List Plot := [
    .tree 1 (.element "face" []) [.tree 2 (.element "li" [])
      [.tree 3 (.text "@v") [], .tree 4 (.element "ul" []) [.tree 5 (.text "@child") []]]]]
  have hwhole : AreWhole children := by simp [children, AreWhole, IsWhole]
  have hgarden : Garden nestedList
      [.tree 0 (.element "ul" [("source", "db.items"), ("parent-field", "p")]) children] := by
    refine ⟨?_, by decide⟩
    simp only [children, StandAll, Stands]
    decide
  exact opened_sceneOf hwhole hgarden (by decide +kernel)

/-- Rows with a key, a parent and a text. -/
def familySource (rows : List (String × String × String)) : Source :=
  .make "db.items" (rows.map fun (id, p, v) => [("id", .string id), ("p", .string p), ("v", .string v)])

/-- Two rows of the same key, one of them its own parent, and one that only itself leads to. -/
def tangledRows : Source :=
  familySource [("1", "", "a"), ("2", "1", "b"), ("1", "1", "c"), ("4", "4", "d"), ("5", "2", "e")]

/-- The tree that shows a chain, and the tangled rows in its place. -/
def tangledItems : Scene :=
  (((sceneOf .tree nestedList).put
    (familySource [("5", "", "e"), ("1", "5", "a"), ("2", "1", "b")])).pass itemSite).put tangledRows

/-- The row that only itself leads to is not asked for. -/
theorem lone_circle_unmet :
    ∃ (faces : List ResolvedFace) (branches : Branches),
      tangledItems.command.faces.mapM (Face.resolve · (tangledItems.find itemSite) tangledRows) =
        .ok faces ∧
      (let laid := (Pass.start faces columnPattern tangledItems.markup
        tangledItems.command.cache).arrange tangledItems.command.arrangement 0 tangledRows
      laid.2 = branches.output laid.1.markup) ∧
      (let asked := (branches.calls (.ofSource "p" "id" tangledRows) tangledRows 1).map RowCall.index
      asked.Nodup ∧ 0 ∈ asked ∧ 3 ∉ asked) := by
  have hok : (tangledItems.command.faces.mapM
      (Face.resolve · (tangledItems.find itemSite) tangledRows)).isOk = true := by decide +kernel
  obtain ⟨faces, hfaces⟩ := exists_ok hok
  have htree : tangledItems.command.arrangement = .tree "p" "id" := by with_unfolding_all rfl
  have hcourse : Course itemSite (sceneOf .tree nestedList) tangledItems _ :=
    .set 0 tangledRows (.pass (.set 0 _ .start))
  obtain ⟨branches, -, -, hnodup, hreached, -, -, houtput, -⟩ :=
    tree_walks_rows opened_nestedList hcourse hfaces htree 0
  have hroots : (TreeShape.ofSource "p" "id" tangledRows).roots = [0] := by decide +kernel
  refine ⟨faces, branches, hfaces, houtput, hnodup, ?_, fun hasked => ?_⟩
  · refine (hreached 0).mpr (.root (TreeShape.mem_roots.mp ?_))
    rw [hroots]
    exact List.mem_singleton_self 0
  · -- Only the row itself has the row below it, and it is not a root.
    have hparent : ∀ index < 5,
        3 ∈ (TreeShape.ofSource "p" "id" tangledRows).childrenOf index → index = 3 := by
      decide +kernel
    have hnot : ∀ index, tangledRows.Reached "p" "id" (fun other =>
        ∃ call ∈ branches.calls (.ofSource "p" "id" tangledRows) tangledRows 1,
          call.index = other ∧ call.result.isSome = true) index → index ≠ 3 := by
      intro index hindex
      induction hindex with
      | root root =>
          have hroot := TreeShape.mem_roots.mpr root
          rw [hroots, List.mem_singleton] at hroot
          rw [hroot]
          decide
      | @child index other _ _ child ih =>
          rintro rfl
          have hlt : index < 5 := by
            obtain ⟨row, -, -, hrow, -⟩ := child
            exact TreeShape.lt_size_of_row hrow
          exact ih (hparent index hlt (TreeShape.mem_childrenOf.mpr child))
    exact hnot 3 ((hreached 3).mp hasked) rfl

end ReactiveMarkup
