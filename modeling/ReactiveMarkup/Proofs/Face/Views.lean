import ReactiveMarkup.Proofs.Face.Groups
import ReactiveMarkup.Proofs.Face.Standing

/-!
# Views

A view asks for a header for the first row of every group and then for the rows of the group. Headers and
rows share the slots of a pass, and the group of a row is a text from the source, so a row may be given
what was a header in the pass before, with the rows of that pass still in it, or the other way round. What
hangs in such a place does not matter for where the nodes of this pass come to be: a header gives up what
was in its first place before the rows of its group are put there, and a row that was a header before is
moved as it is.

So a row is told here by the plots its slot keeps, open or not. `Gathers` puts the groups together by
plots, as `Bears` does for the rows of a tree, and where these plots stand it is told by nodes.
-/

namespace ReactiveMarkup

open Plot Pot

/-! ## Groups that were shown -/

/-- The nodes of rows, each with what was given for it. -/
def nodesOf (rows : List (Nat × Option Rendering)) : List NodeId :=
  rows.flatMap fun row => (row.2.map Rendering.nodes).getD []

/-- The calls for the rows of a group. -/
def memberCalls (name : String) (source : Source) (rows : List (Nat × Option Rendering)) :
    List RowCall :=
  rows.map fun row => ⟨name, source, row.1, ["2"], row.2⟩

/-- A group as a view shows it: what was given for its header, and its rows with what was given for
each. -/
structure ShownGroup where
  name : String
  header : Option Rendering
  rows : List (Nat × Option Rendering)

namespace ShownGroup

/-- The rows of a group, whether they are shown or not. -/
def members (group : ShownGroup) : List Nat := group.rows.map Prod.fst

/-- The calls for a group: one for a header with its first row, and one for each of its rows. -/
def calls (source : Source) (group : ShownGroup) : List RowCall :=
  ⟨Pass.headerGroup, source, group.members.headD 0, ["1"], group.header⟩ ::
    memberCalls group.name source group.rows

/-- The nodes that a group comes to: those of its header, and behind them those of its rows when there is
no header with a place for them. -/
def output (markup : Markup) (group : ShownGroup) : List NodeId :=
  match group.header with
  | none => nodesOf group.rows
  | some rendering =>
    if (markup.childAnchor? rendering.nodes).isSome then rendering.nodes
    else rendering.nodes ++ nodesOf group.rows

end ShownGroup

/-- The header and the rows of a group are asked for with rows that are there. -/
theorem ShownGroup.inRange_of_mem_calls {source : Source} {group : ShownGroup}
    (hfilled : group.members ≠ []) (hmembers : ∀ index ∈ group.members, index < source.size)
    {call : RowCall} (hcall : call ∈ group.calls source) : call.inRange = true := by
  rcases List.mem_cons.mp hcall with rfl | hrow
  · obtain ⟨first, more, hmore⟩ := List.exists_cons_of_ne_nil hfilled
    refine RowCall.inRange_of_lt (hmembers _ ?_)
    rw [hmore]
    exact List.mem_cons_self
  · obtain ⟨row, hmem, rfl⟩ := List.mem_map.mp hrow
    exact RowCall.inRange_of_lt (hmembers _ (List.mem_map_of_mem hmem))

/-- Plots that groups come to, one after another. -/
inductive Gathers : List ShownGroup → List Plot → Prop
  | none : Gathers [] []
  | flat {group : ShownGroup} {groups : List ShownGroup} {inner outs : List Plot}
      (header : group.header = Option.none) (nodes : nodesOf group.rows = inner.map root)
      (rest : Gathers groups outs) : Gathers (group :: groups) (inner ++ outs)
  | headed {group : ShownGroup} {groups : List ShownGroup} {rendering : Rendering}
      {plots inner outs : List Plot} (header : group.header = some rendering)
      (top : rendering.nodes = plots.map root) (whole : AreWhole plots)
      (nodes : nodesOf group.rows = inner.map root) (rest : Gathers groups outs) :
      Gathers (group :: groups) (Plot.nest plots inner ++ outs)

/-- Where the plots of groups stand, the nodes are the output, and the first place of every header has the
nodes of the rows of its group. -/
theorem Gathers.stands {groups : List ShownGroup} {outs rest : List Plot} {markup : Markup}
    (h : Gathers groups outs) (hgarden : Garden markup (outs ++ rest)) :
    groups.flatMap (ShownGroup.output markup) = outs.map root ∧
      ∀ group ∈ groups, ∀ rendering ∈ group.header,
        ∀ place ∈ markup.childAnchor? rendering.nodes,
          markup.children place = nodesOf group.rows := by
  induction h generalizing rest with
  | none => exact ⟨rfl, List.forall_mem_nil _⟩
  | @flat group groups inner outs header nodes _ ih =>
      rw [List.append_assoc] at hgarden
      obtain ⟨houtput, hplaces⟩ := ih hgarden.right
      refine ⟨?_, List.forall_mem_cons.mpr ⟨fun rendering hnone => ?_, hplaces⟩⟩
      · rw [List.flatMap_cons, houtput, ShownGroup.output, header, nodes, List.map_append]
      · rw [header] at hnone
        cases hnone
  | @headed group groups rendering plots inner outs header top whole nodes _ ih =>
      rw [List.append_assoc] at hgarden
      obtain ⟨houtput, hplaces⟩ := ih hgarden.right
      have hopen := Covers.nest plots inner _ _ hgarden
      rw [List.append_assoc] at hopen
      have hfound := hopen.childAnchor?_opened whole
      rw [← top] at hfound
      refine ⟨?_, List.forall_mem_cons.mpr ⟨fun other hother place hplace => ?_, hplaces⟩⟩
      · rw [List.flatMap_cons, houtput, ShownGroup.output, header, List.map_append]
        dsimp only
        rw [hfound, Plot.nest, top, nodes]
        split
        · rw [roots_plantIn]
        · rw [List.map_append]
      · rw [header] at hother
        obtain rfl := Option.some.inj hother
        rw [hfound] at hplace
        rw [Plot.nest, hplace, Option.isSome_some, if_pos rfl] at hgarden
        have hplanted := (standAll_planted_iff inner plots).mp hgarden.left.stands
        rw [nodes]
        exact (hplanted.2 place hplace).2.2.1

/-! ## Passes -/

namespace Pass

variable {sketch : Sketch} {begun : Pass}

/-- Pots of rows that are shown with faces of a sketch. -/
def KnownAll (sketch : Sketch) (pots : List Pot) : Prop :=
  ∀ pot ∈ pots, pot.showing.face ∈ sketch.plainFaces

/-- After a part of it, a pass goes on as before, with the plots of the part beside it. -/
theorem Ready.go_on {grown waiting new left : List Pot} {rest outs : List Plot} {pass after : Pass}
    {nodes : List NodeId} (h : Ready sketch grown waiting rest pass)
    (hstretch : Stretch sketch grown waiting rest after nodes new left outs) :
    Ready sketch (new ++ grown) left (outs ++ rest) after where
  tended := hstretch.tended
  rooted := h.rooted.append outs
  numbered := h.numbered
  known pot hpot := h.known pot (hstretch.remaining.subset hpot)
  garden := hstretch.garden.swap

theorem Drawn.known {grown waiting left : List Pot} {rest : List Plot} {pass after : Pass}
    {wanted : Bool} {group : String} {index : Nat} {levels : List String} {rendering : Rendering}
    {resolved : ResolvedFace} {pot : Pot}
    (h : Drawn sketch grown waiting rest pass wanted group index levels after rendering resolved pot
      left) : pot.showing.face ∈ sketch.plainFaces := by
  rw [h.face]
  exact List.mem_map_of_mem (List.mem_of_find?_eq_some h.chosen)

/-- What the rows of a group come to. -/
theorem Ready.memberRows (name : String) (indexes : List Nat) {grown waiting : List Pot}
    {rest : List Plot} {pass : Pass} {calls : List RowCall}
    (h : Ready sketch grown waiting rest pass) (hcalled : begun.Called calls pass) :
    ∃ rows new left outs after,
      Pass.memberRows name sketch.source pass indexes = (after, nodesOf rows) ∧
      rows.map Prod.fst = indexes ∧
      begun.Called ((memberCalls name sketch.source rows).reverse ++ calls) after ∧
      Stretch sketch grown waiting rest after (nodesOf rows) new left outs ∧ KnownAll sketch new := by
  induction indexes generalizing grown waiting rest pass calls with
  | nil =>
      exact ⟨[], [], waiting, [], pass, rfl, rfl, hcalled, Stretch.nothing h.tended h.garden,
        List.forall_mem_nil _⟩
  | cons index behind ih =>
      rw [Pass.memberRows]
      rcases hstep : pass.renderRow name sketch.source index ["2"] with ⟨asked, result⟩
      have hasked := hcalled.call hstep
      rcases h.renderRow false hstep with
        ⟨rfl, -, hnext, -⟩ | ⟨rendering, resolved, pot, left, rfl, hdrawn⟩
      · obtain ⟨rows, new, left, outs, after, hpass, hindexes, hcalls, hfacts⟩ := ih hnext hasked
        refine ⟨(index, none) :: rows, new, left, outs, after, ?_, by rw [List.map_cons, hindexes], ?_,
          hfacts⟩
        · dsimp only
          rw [hpass]
          rfl
        · rw [memberCalls, List.map_cons, List.reverse_cons, List.append_assoc]
          exact hcalls
      · have hrow := hdrawn.shows.stretch
        obtain ⟨rows, new, remaining, outs, after, hpass, hindexes, hcalls, hstretch, hknown⟩ :=
          ih (h.go_on hrow) hasked
        refine ⟨(index, some rendering) :: rows, _, _, _, after, ?_, by rw [List.map_cons, hindexes], ?_,
          hrow.append hstretch, List.forall_mem_append.mpr
            ⟨hknown, List.forall_mem_singleton.mpr hdrawn.known⟩⟩
        · dsimp only
          rw [hpass]
          rfl
        · rw [memberCalls, List.map_cons, List.reverse_cons, List.append_assoc]
          exact hcalls

/-- The calls of groups after those made before, the latest first. -/
theorem reverse_calls_cons (source : Source) (group : ShownGroup) (groups : List ShownGroup)
    (earlier : List RowCall) :
    ((group :: groups).flatMap (ShownGroup.calls source)).reverse ++ earlier =
      (groups.flatMap (ShownGroup.calls source)).reverse ++
        ((memberCalls group.name source group.rows).reverse ++
          ⟨headerGroup, source, group.members.headD 0, ["1"], group.header⟩ :: earlier) := by
  rw [List.flatMap_cons, ShownGroup.calls, List.reverse_append, List.reverse_cons, List.append_assoc,
    List.append_assoc]
  rfl

/-- What groups come to. -/
theorem Ready.viewGroups (groups : List (String × List Nat)) {grown waiting : List Pot}
    {rest : List Plot} {pass : Pass} {calls : List RowCall}
    (h : Ready sketch grown waiting rest pass) (hcalled : begun.Called calls pass) :
    ∃ shown nodes new left outs after,
      Pass.viewGroups sketch.source pass groups = (after, nodes) ∧
      (shown.map fun group => (group.name, group.members)) = groups ∧
      begun.Called ((shown.flatMap (ShownGroup.calls sketch.source)).reverse ++ calls) after ∧
      Stretch sketch grown waiting rest after nodes new left outs ∧ KnownAll sketch new ∧
      Gathers shown outs := by
  induction groups generalizing grown waiting rest pass calls with
  | nil =>
      exact ⟨[], [], [], waiting, [], pass, rfl, rfl, hcalled, Stretch.nothing h.tended h.garden,
        List.forall_mem_nil _, .none⟩
  | cons group behind ih =>
      obtain ⟨name, members⟩ := group
      rw [Pass.viewGroups]
      rcases hstep : pass.renderRow headerGroup sketch.source (members.headD 0) ["1"] with
        ⟨asked, result⟩
      have hasked := hcalled.call hstep
      rcases h.renderRow true hstep with
        ⟨rfl, -, hnext, -⟩ | ⟨rendering, resolved, pot, left, rfl, hdrawn⟩
      · obtain ⟨rows, new, left, outs, inside, hrows, rfl, hcalls, hinner, hknown⟩ :=
          hnext.memberRows name members hasked
        obtain ⟨shown, nodes, next, remaining, afters, after, hpass, hgroups, hmore, hstretch, hothers,
          hgathers⟩ := ih (hnext.go_on hinner) hcalls
        refine ⟨⟨name, none, rows⟩ :: shown, _, _, _, _, after, ?_, by rw [List.map_cons, hgroups]; rfl, ?_,
          hinner.append hstretch, List.forall_mem_append.mpr ⟨hothers, hknown⟩,
          .flat rfl hinner.nodes hgathers⟩
        · dsimp only
          rw [hrows]
          dsimp only
          rw [hpass]
        · rw [reverse_calls_cons]
          exact hmore
      · obtain ⟨rows, new, left', outs, inside, hrows, rfl, hcalls, hinner, hknown⟩ :=
          (h.go_on hdrawn.shows.stretch).memberRows name members hasked
        have hgroup := hdrawn.shows.surround (hdrawn.nested rfl) hinner
        obtain ⟨shown, nodes, next, remaining, afters, after, hpass, hgroups, hmore, hstretch, hothers,
          hgathers⟩ := ih (h.go_on hgroup) (hcalls.setMarkup _)
        refine ⟨⟨name, some rendering, rows⟩ :: shown, _, _, _, _, after, ?_,
          by rw [List.map_cons, hgroups]; rfl, ?_, hgroup.append hstretch,
          List.forall_mem_append.mpr ⟨hothers, List.forall_mem_append.mpr
            ⟨hknown, List.forall_mem_singleton.mpr hdrawn.known⟩⟩,
          .headed rfl hdrawn.shows.nodes hdrawn.shows.whole hinner.nodes hgathers⟩
        · dsimp only
          rw [hrows]
          dsimp only
          rw [hpass]
        · rw [reverse_calls_cons]
          exact hmore

end Pass

/-! ## Courses -/

theorem ShowCommand.Kept.ready {pattern : Pattern} {form : NodeId → Shape} {rest : List Plot}
    {command : ShowCommand} {markup : Markup} {pots : List Pot}
    (h : Kept pattern form rest command markup pots)
    (hnumbered : (command.faces.map Face.index).Nodup)
    (hknown : ∀ pot ∈ pots, pot.showing.face ∈ command.faces) {find : String → Option Source}
    {source : Source} {resolved : List ResolvedFace}
    (hresolved : command.faces.mapM (Face.resolve · find source) = .ok resolved) :
    Pass.Ready ⟨resolved, pattern, form, source⟩ [] pots rest
      (Pass.start resolved pattern markup command.cache) := by
  have hfaces : Sketch.plainFaces ⟨resolved, pattern, form, source⟩ = command.faces :=
    mapM_resolve_face hresolved
  refine ⟨h.tended resolved source, h.facesRooted hresolved, ?_, ?_, h.garden⟩
  · rwa [hfaces]
  · rwa [hfaces]

variable {site : Site} {start scene : Scene} {seen : List Source} {groupField : String}

/-- In any course of passes of a view, what is kept stands. -/
theorem Course.tilled_view (hopened : Opened site start) (h : Course site start scene seen)
    (hview : start.command.arrangement = .view groupField) :
    ∃ last, Tilled site start.markup.shape scene last ∧
      ∀ showing ∈ last, showing.face ∈ start.command.faces := by
  refine h.tilled_with hopened fun {scene last} hcommand htilled hlast => ?_
  obtain ⟨cache, hcommand⟩ := hcommand
  have hfaces : scene.command.faces = start.command.faces := by rw [hcommand]
  have hsame : scene.command.arrangement = .view groupField := by rw [hcommand, ← hview]
  rw [← hfaces] at hlast ⊢
  refine htilled.pass_with hlast fun {rest pots source resolved} hkept hpots hresolved => ?_
  have hready := hkept.ready (hfaces ▸ hopened.faces_nodup) hpots hresolved
  obtain ⟨shown, nodes, new, left, outs, after, hpass, -, -, hstretch, hknown, -⟩ :=
    hready.viewGroups (groupRows groupField source) (Pass.called_start _)
  rw [Pass.KnownAll, Sketch.plainFaces, mapM_resolve_face hresolved] at hknown
  refine ⟨new, left, outs, ?_, hknown⟩
  rw [hsame, Pass.arrange]
  dsimp only at hpass ⊢
  rw [hpass]
  exact hstretch

/-- A pass of a view shows the groups of its source, one after another. -/
theorem Course.shows_groups (hopened : Opened site start) (h : Course site start scene seen)
    {source : Source} {faces : List ResolvedFace}
    (hfaces : scene.command.faces.mapM (Face.resolve · (scene.find site) source) = .ok faces)
    (hview : scene.command.arrangement = .view groupField) (rowCount : Nat) :
    let begun := Pass.start faces site.pattern scene.markup scene.command.cache
    let laid := begun.arrange scene.command.arrangement rowCount source
    ∃ (groups : List ShownGroup) (outs rest : List Plot),
      (groups.map fun group => (group.name, group.members)) = groupRows groupField source ∧
      begun.Called (groups.flatMap (ShownGroup.calls source)).reverse laid.1 ∧
      laid.2 = outs.map root ∧ Garden laid.1.markup (outs ++ rest) ∧ Gathers groups outs := by
  intro begun laid
  obtain ⟨cache, hcommand⟩ := h.command
  have hsame : start.command.arrangement = .view groupField := by rw [← hview, hcommand]
  obtain ⟨last, ⟨pots, kind, beds, hkept, -, rfl⟩, hknown⟩ := h.tilled_view hopened hsame
  have hstartFaces : scene.command.faces = start.command.faces := by rw [hcommand]
  have hready := hkept.ready (hstartFaces ▸ hopened.faces_nodup)
    (fun pot hpot => hstartFaces ▸ hknown _ (List.mem_map_of_mem hpot)) hfaces
  obtain ⟨groups, nodes, new, left, outs, after, hpass, hgroups, hcalled, hstretch, -, hgathers⟩ :=
    hready.viewGroups (groupRows groupField source) (Pass.called_start begun)
  rw [List.append_nil] at hcalled
  have hlaid : laid = (after, nodes) := by
    rw [← hpass]
    simp only [laid, begun]
    rw [hview]
    rfl
  rw [hlaid]
  exact ⟨groups, outs, _, hgroups, hcalled, hstretch.nodes, hstretch.garden, hgathers⟩

/-- A view after any passes puts the rows of a source into groups: one for each text of the column, in
the order in which the texts first appear, with the rows of that text in the order of the source. For
each group it asks for a header, with the first row, and then once for every row; what it asks for is
given exactly if a face fits at that moment. The first place of a header has the nodes of the rows that
were given and nothing else; these are behind the header when it has no such place, and stand for
themselves when there is no header. -/
theorem view_partitions_rows (hopened : Opened site start) (hcourse : Course site start scene seen)
    {source : Source} {faces : List ResolvedFace}
    (hfaces : scene.command.faces.mapM (Face.resolve · (scene.find site) source) = .ok faces)
    (hview : scene.command.arrangement = .view groupField) (rowCount : Nat) :
    let begun := Pass.start faces site.pattern scene.markup scene.command.cache
    let laid := begun.arrange scene.command.arrangement rowCount source
    ∃ groups : List ShownGroup,
      groups.map ShownGroup.name = (source.rows.map (groupName groupField)).eraseDups ∧
      (∀ group ∈ groups,
        group.members = source.rowsOf groupField group.name ∧ group.members ≠ []) ∧
      (groups.flatMap ShownGroup.members).Perm (List.range source.size) ∧
      begun.Called (groups.flatMap (ShownGroup.calls source)).reverse laid.1 ∧
      (∀ call earlier, call :: earlier <:+ (groups.flatMap (ShownGroup.calls source)).reverse →
        call.result.isSome = (call.face? faces earlier).isSome) ∧
      laid.2 = groups.flatMap (ShownGroup.output laid.1.markup) ∧
      ∀ group ∈ groups, ∀ rendering ∈ group.header,
        ∀ place ∈ laid.1.markup.childAnchor? rendering.nodes,
          laid.1.markup.children place = nodesOf group.rows := by
  intro begun laid
  obtain ⟨groups, outs, rest, hgroups, hcalled, hnodes, hgarden, hgathers⟩ :=
    hcourse.shows_groups hopened hfaces hview rowCount
  obtain ⟨houtput, hplaces⟩ := hgathers.stands hgarden
  rw [groupRows_eq] at hgroups
  have hnames : groups.map ShownGroup.name =
      (source.rows.map (groupName groupField)).eraseDups := by
    have hfirst := congrArg (List.map Prod.fst) hgroups
    rwa [List.map_map, List.map_map, Function.comp_def, Function.comp_def, List.map_id'] at hfirst
  have hmembers : ∀ group ∈ groups, group.members = source.rowsOf groupField group.name := by
    intro group hgroup
    have hpair : (group.name, group.members) ∈ groups.map fun group => (group.name, group.members) :=
      List.mem_map_of_mem hgroup
    rw [hgroups] at hpair
    obtain ⟨text, -, heq⟩ := List.mem_map.mp hpair
    obtain ⟨rfl, hrows⟩ := Prod.mk.inj heq
    exact hrows.symm
  have hfilled : ∀ group ∈ groups, group.members ≠ [] := by
    intro group hgroup
    have hname : group.name ∈ groups.map ShownGroup.name := List.mem_map_of_mem hgroup
    rw [hnames, List.mem_eraseDups] at hname
    rw [hmembers group hgroup]
    exact positions_ne_nil hname
  refine ⟨groups, hnames, fun group hgroup => ⟨hmembers group hgroup, hfilled group hgroup⟩, ?_,
    hcalled, fun call earlier hsuffix => ?_, ?_, hplaces⟩
  · have hperm := rowsOf_perm groupField source
    rw [← hnames, List.flatMap_map] at hperm
    rwa [List.flatMap_congr hmembers]
  · obtain ⟨markup, hasked⟩ := hcalled
    refine (hasked.matched rfl).2.2 call earlier hsuffix ?_
    have hin : call ∈ groups.flatMap (ShownGroup.calls source) :=
      List.mem_reverse.mp (hsuffix.subset List.mem_cons_self)
    obtain ⟨group, hgroup, hcall⟩ := List.mem_flatMap.mp hin
    refine ShownGroup.inRange_of_mem_calls (hfilled group hgroup) (fun index hindex => ?_) hcall
    rw [hmembers group hgroup] at hindex
    exact Source.lt_size_of_mem_rowsOf hindex
  · rw [houtput]
    exact hnodes

/-- A view with a face for headers, which have a place for the rows of their group, and one for rows. -/
def shelvedView : Markup := ⟨#[
  { kind := .element "ul" [("source", "db.items"), ("group", "g")], children := [1, 6] },
  { kind := .element "face" [("level", "1")], children := [2], parent := some 0 },
  { kind := .element "li" [], children := [3, 4], parent := some 1 },
  { kind := .text "@g", parent := some 2 },
  { kind := .element "ul" [], children := [5], parent := some 2 },
  { kind := .text "@child", parent := some 4 },
  { kind := .element "face" [("level", "2")], children := [7], parent := some 0 },
  { kind := .element "i" [], children := [8], parent := some 6 },
  { kind := .text "@v", parent := some 7 }]⟩

theorem opened_shelvedView : Opened itemSite (sceneOf .view shelvedView) := by
  let children : List Plot := [
    .tree 1 (.element "face" [("level", "1")]) [.tree 2 (.element "li" [])
      [.tree 3 (.text "@g") [], .tree 4 (.element "ul" []) [.tree 5 (.text "@child") []]]],
    .tree 6 (.element "face" [("level", "2")]) [.tree 7 (.element "i" []) [.tree 8 (.text "@v") []]]]
  have hwhole : AreWhole children := by simp [children, AreWhole, IsWhole]
  have hgarden : Garden shelvedView
      [.tree 0 (.element "ul" [("source", "db.items"), ("group", "g")]) children] := by
    refine ⟨?_, by decide⟩
    simp only [children, StandAll, Stands]
    decide
  exact opened_sceneOf hwhole hgarden (by decide +kernel)

/-- Rows without keys, each with a group and a text. -/
def shelfSource (rows : List (String × String)) : Source :=
  .make "db.items" (rows.map fun (g, v) => [("g", .string g), ("v", .string v)])

/-- Two groups whose rows alternate. -/
def fourShelved : Source := shelfSource [("b", "y"), ("a", "z"), ("b", "w"), ("a", "x")]

/-- The view that shows three rows, and four in their place. -/
def shelvedItems : Scene :=
  (((sceneOf .view shelvedView).put (shelfSource [("a", "x"), ("b", "y"), ("a", "z")])).pass
    itemSite).put fourShelved

theorem shelved_items_partitioned :
    (shelvedItems.pass itemSite).html itemSite =
      "<li>b<ul><i>y</i><i>w</i></ul></li><li>a<ul><i>z</i><i>x</i></ul></li>" ∧
    ∃ (faces : List ResolvedFace) (groups : List ShownGroup),
      shelvedItems.command.faces.mapM (Face.resolve · (shelvedItems.find itemSite) fourShelved) =
        .ok faces ∧
      groups.map ShownGroup.name = ["b", "a"] ∧
      (∀ group ∈ groups, group.members = fourShelved.rowsOf "g" group.name) ∧
      (let laid := (Pass.start faces itemSite.pattern shelvedItems.markup
        shelvedItems.command.cache).arrange shelvedItems.command.arrangement 0 fourShelved
      laid.2 = groups.flatMap (ShownGroup.output laid.1.markup)) ∧
      fourShelved.rowsOf "g" "b" = [0, 2] ∧ fourShelved.rowsOf "g" "a" = [1, 3] := by
  have hok : (shelvedItems.command.faces.mapM
      (Face.resolve · (shelvedItems.find itemSite) fourShelved)).isOk = true := by decide +kernel
  obtain ⟨faces, hfaces⟩ := exists_ok hok
  have hview : shelvedItems.command.arrangement = .view "g" := by with_unfolding_all rfl
  have hcourse : Course itemSite (sceneOf .view shelvedView) shelvedItems _ :=
    .set 0 fourShelved (.pass (.set 0 _ .start))
  obtain ⟨groups, hnames, hmembers, -, -, -, houtput, -⟩ :=
    view_partitions_rows opened_shelvedView hcourse hfaces hview 0
  have htexts : (fourShelved.rows.map (groupName "g")).eraseDups = ["b", "a"] := by decide +kernel
  exact ⟨by decide +kernel, faces, groups, hfaces, hnames.trans htexts,
    fun group hgroup => (hmembers group hgroup).1, houtput, by decide +kernel, by decide +kernel⟩

end ReactiveMarkup
