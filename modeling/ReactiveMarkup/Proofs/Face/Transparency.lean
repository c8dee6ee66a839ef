import Mathlib.Data.List.Nodup
import ReactiveMarkup.Page.Task
import ReactiveMarkup.Proofs.Face.Reading

/-!
# What the cache of a command can be seen by

A command shows a source in passes, and between two passes anything may happen to its sources and to
all markup that is not its own. A pass is transparent when the output does not tell whether the command
still had the cache of the passes before: it is the HTML that a pass without a cache gives.

A pass is transparent whenever what the slots of the pass before were shown with is steady for what is
shown now. For rows without a key field this always holds in lists and trees, because the key of a row
is then its own text, and a slot is used for nothing but rows of the same content. In a view it holds as
long as the group of a slot tells whether it is that of a header. With a key field it
is a condition on the run, and not every run meets it: versions are counted by position or by key,
depending on how a source is merged, and begin at zero again for every entry that is opened.
-/

namespace ReactiveMarkup

open Plot Pot

/-- Where a command is at work: the scope it reads from, the node it fills, and the pattern of the
columns in its templates. -/
structure Site where
  scope : ScopeId
  node : NodeId
  pattern : Pattern

/-- Sources, markup and a command between two things that happen. -/
structure Scene where
  scopes : Scopes
  markup : Markup
  command : ShowCommand

namespace Scene

variable (site : Site) (scene : Scene)

/-- What the command finds under an id. -/
def find : String → Option Source := scene.scopes.find? site.scope

/-- The source the command shows. -/
def snapshot? : Option Source := scene.find site scene.command.sourceId

/-- The command makes a pass. Without a source, or when a condition is in error, nothing changes. -/
def pass : Scene :=
  match scene.snapshot? site with
  | none => scene
  | some source =>
    match scene.command.refresh (scene.find site) site.pattern scene.markup source with
    | .error _ => scene
    | .ok (markup, command, output) =>
      { scene with markup := markup.replaceChildren site.node output, command }

/-- The HTML of what the command shows. -/
def html : String := scene.markup.html (scene.markup.children site.node)

/-- The scene with a command that has no cache. -/
def afresh : Scene := { scene with command := scene.command.afresh }

/-- What the next pass is meant to show: its rows, the last one first, and what comes of them. -/
def arranged? (form : NodeId → Shape) : Option (List Showing × List Shape) :=
  (scene.snapshot? site).bind fun source =>
    match scene.command.sketch site.pattern form (scene.find site) source with
    | .ok sketch => some (scene.command.arranged (scene.find site) sketch)
    | .error _ => none

/-- The rows the next pass shows. -/
def shown (form : NodeId → Shape) : List Showing :=
  ((scene.arranged? site form).map Prod.fst).getD []

/-- Markup was changed by others: nothing at or below the nodes that the command owns. -/
structure LeavesAlone (changed : Markup) : Prop where
  size : scene.markup.size ≤ changed.size
  same : ∀ id ∈ (Behaviour.faces scene.command).ownNodes.flatMap scene.markup.nodes,
    changed.kind id = scene.markup.kind id ∧ changed.children id = scene.markup.children id

end Scene

/-- What a page does when it renders a show command is a pass. -/
theorem Page.renderNow_faces (page : Page) (id : ComponentId) (component : Component)
    {command : ShowCommand} (hstored : page.components.get? id = some component)
    (hfaces : component.behaviour = .faces command)
    (halive : page.scopes.isAlive component.scope = true) :
    let scene := Scene.pass ⟨component.scope, component.node, page.patterns.row⟩
      ⟨page.scopes, page.markup, command⟩
    (page.renderNow id component).1.markup = scene.markup ∧
      (page.renderNow id component).1.components.get? id =
        some { component with behaviour := .faces scene.command } := by
  intro scene
  have hsame : some component = some { component with behaviour := .faces command } := by
    rw [← hfaces]
  cases hfind : page.scopes.find? component.scope command.sourceId with
  | none =>
      have hscene : scene = ⟨page.scopes, page.markup, command⟩ := by
        simp only [scene, Scene.pass, Scene.snapshot?, Scene.find, hfind]
      simp only [renderNow, hfaces, halive, hfind, hscene, if_true]
      exact ⟨trivial, hstored.trans hsame⟩
  | some source =>
      cases hrefresh : command.refresh (page.scopes.find? component.scope) page.patterns.row
          page.markup source with
      | error error =>
          have hscene : scene = ⟨page.scopes, page.markup, command⟩ := by
            simp only [scene, Scene.pass, Scene.snapshot?, Scene.find, hfind]
            rw [hrefresh]
          simp only [renderNow, hfaces, halive, hfind, hrefresh, hscene, if_true]
          exact ⟨trivial, hstored.trans hsame⟩
      | ok result =>
          have hscene : scene = ⟨page.scopes, result.1.replaceChildren component.node result.2.2,
              result.2.1⟩ := by
            simp only [scene, Scene.pass, Scene.snapshot?, Scene.find, hfind]
            rw [hrefresh]
          simp only [renderNow, hfaces, halive, hfind, hrefresh, hscene, if_true]
          exact ⟨rfl, by rw [changeComponent, Arena.get?_modify, if_pos rfl, hstored]; rfl⟩

/-- A scene at which a command was just read from an element that stands as a tree. -/
structure Opened (site : Site) (scene : Scene) : Prop where
  read : ∃ (patterns : BindingPatterns) (command : ShowKind) (priority : Priority)
      (kind : NodeKind) (children : List Plot) (markup : Markup),
    AreWhole children ∧ Garden markup [.tree site.node kind children] ∧
      (ShowCommand.read patterns command site.node).run markup =
        (.ok (scene.command, priority), scene.markup)

/-- How a scene comes from another one. Next to it stand the rows that the last pass showed, none
before the first pass; `form` are the shapes of the templates. Every pass is one for which these rows
are steady. -/
inductive SteadyCourse (site : Site) (form : NodeId → Shape) (start : Scene) :
    Scene → List Showing → Prop
  | start : SteadyCourse site form start start []
  | set {scene : Scene} {last : List Showing} (scope : ScopeId) (source : Source)
      (before : SteadyCourse site form start scene last) :
      SteadyCourse site form start { scene with scopes := (scene.scopes.set scope source).1 } last
  | elsewhere {scene : Scene} {last : List Showing} {changed : Markup}
      (alone : scene.LeavesAlone changed) (before : SteadyCourse site form start scene last) :
      SteadyCourse site form start { scene with markup := changed } last
  | pass {scene : Scene} {last : List Showing} (before : SteadyCourse site form start scene last)
      (steady : ∀ old ∈ last, ∀ now ∈ scene.shown site form, Steady site.pattern form old now) :
      SteadyCourse site form start (scene.pass site)
        (((scene.arranged? site form).map Prod.fst).getD last)

/-! ## What is kept between passes -/

/-- The pots of the last pass and the templates stand beside the node of the command. -/
def Tilled (site : Site) (form : NodeId → Shape) (scene : Scene) (last : List Showing) : Prop :=
  ∃ (pots : List Pot) (kind : NodeKind) (beds : List Plot),
    scene.command.Kept site.pattern form (.gap site.node kind :: beds) scene.markup pots ∧
      (∀ plot ∈ beds, plot.root ∈ scene.command.templates) ∧ pots.map Pot.showing = last

variable {site : Site} {form : NodeId → Shape} {scene : Scene} {last : List Showing}

theorem Opened.tilled (h : Opened site scene) : Tilled site scene.markup.shape scene [] := by
  obtain ⟨patterns, command, priority, kind, children, markup, hwhole, hgarden, hread⟩ := h.read
  obtain ⟨⟨parts, beds, hplanted, hparts, hbeds, hroots, hchildren, htaken⟩, hcache, -⟩ :=
    ShowCommand.read_triple markup (Planted.start hwhole hgarden) (scene.command, priority)
      (by rw [hread])
  rw [hread] at hplanted hchildren
  dsimp only at hplanted htaken hcache
  refine ⟨[], kind, beds.filter fun plot => scene.command.templates.contains plot.root, ?_, ?_, rfl⟩
  · refine ⟨?_, ?_, ?_⟩
    · rw [hcache]
      exact .nil
    · intro id hid
      obtain ⟨plot, hplot, rfl⟩ := List.mem_map.mp (htaken hid)
      have hin : plot ∈ beds.filter fun plot => scene.command.templates.contains plot.root :=
        List.mem_filter.mpr ⟨hplot, List.contains_iff_mem.mpr hid⟩
      exact ⟨plot, List.mem_cons_of_mem _ hin, areWhole_iff.mp hbeds plot hplot, rfl,
        (hplanted.shape_eq (by simp [hplot]) (areWhole_iff.mp hbeds plot hplot)).symm⟩
    · exact hplanted.sublist
        ((List.filter_sublist.trans (List.sublist_append_right _ _)).cons_cons _)
  · intro plot hplot
    exact List.contains_iff_mem.mp (List.mem_filter.mp hplot).2

theorem ownNodes_eq (command : ShowCommand) :
    (Behaviour.faces command).ownNodes =
      command.templates ++ command.cache.slots.flatMap fun slot => slot.2.nodes := by
  rw [Behaviour.ownNodes, ShowCommand.templates]
  cases command.arrangement <;> rfl

/-- All that is kept for a command is at or below nodes that it owns. -/
theorem ids_owned {pattern : Pattern} {kind : NodeKind} {beds : List Plot} {pots : List Pot}
    {command : ShowCommand} {markup : Markup}
    (h : command.Kept pattern form (.gap site.node kind :: beds) markup pots)
    (hbeds : ∀ plot ∈ beds, plot.root ∈ command.templates) :
    idsIn (keptIn pots ++ beds) ⊆ (Behaviour.faces command).ownNodes.flatMap markup.nodes := by
  intro id hid
  rw [idsIn_eq_flatMap] at hid
  obtain ⟨plot, hplot, hid⟩ := List.mem_flatMap.mp hid
  have howned : plot.root ∈ (Behaviour.faces command).ownNodes := by
    rw [ownNodes_eq]
    rcases List.mem_append.mp hplot with hin | hin
    · obtain ⟨pot, hpot, hkept⟩ := List.mem_flatMap.mp hin
      obtain ⟨slot, hslot, hholds⟩ := slot_of_pot h.slots hpot
      refine List.mem_append_right _ (List.mem_flatMap.mpr ⟨slot, hslot, ?_⟩)
      rw [hholds.nodes, ← roots_kept]
      exact List.mem_map_of_mem hkept
    · exact List.mem_append_left _ (hbeds plot hin)
  have hstands : plot ∈ keptIn pots ++ .gap site.node kind :: beds := by
    rcases List.mem_append.mp hplot with hin | hin
    · exact List.mem_append_left _ hin
    · exact List.mem_append_right _ (List.mem_cons_of_mem _ hin)
  exact List.mem_flatMap.mpr ⟨plot.root, howned, h.garden.ids_subset_nodes hstands hid⟩

/-- What others do to their own markup changes nothing for a command. -/
theorem Tilled.elsewhere (h : Tilled site form scene last) {changed : Markup}
    (halone : scene.LeavesAlone changed) :
    Tilled site form { scene with markup := changed } last := by
  obtain ⟨pots, kind, beds, hkept, hbeds, hlast⟩ := h
  refine ⟨pots, changed.kind site.node, beds, ⟨hkept.slots, ?_, ?_⟩, hbeds, hlast⟩
  · intro id hid
    obtain ⟨plot, hplot, hwhole, hfacts⟩ := hkept.templates id hid
    rcases List.mem_cons.mp hplot with rfl | hin
    · exact hwhole.elim
    · exact ⟨plot, List.mem_cons_of_mem _ hin, hwhole, hfacts⟩
  · have howned := ids_owned hkept hbeds
    have hfront := hkept.garden.cons_swap
    have hsame : Garden changed (keptIn pots ++ beds) :=
      hfront.tail.frame halone.size (fun id hid => (halone.same id (howned hid)).1)
        (fun id hid => (halone.same id (howned (toldIn_subset_idsIn _ hid))).2)
    have hnode : Garden changed (.gap site.node (changed.kind site.node) :: (keptIn pots ++ beds)) :=
      ⟨⟨⟨Nat.lt_of_lt_of_le hfront.stands.1.1 halone.size, rfl⟩, hsame.stands⟩, hfront.apart⟩
    exact hnode.swap_cons

/-- Two rows that are shown in one pass, where no slot is used twice, are steady for each other. -/
theorem Steady.of_nodup {pattern : Pattern} {shown : List Showing} {old now : Showing}
    (hslots : (shown.map Showing.name).Nodup) (hold : old ∈ shown) (hnow : now ∈ shown) :
    Steady pattern form old now := by
  intro hname _ _
  obtain rfl : old = now := List.inj_on_of_nodup_map hslots hold hnow hname
  exact ⟨rfl, fun hnests hnot => by rw [hnests] at hnot; cases hnot⟩

/-! ## A list of items

One list with one face, and sources for it. The theorems below are tried on it.
-/

/-- A list that shows the column `v`. -/
def itemList : Markup := ⟨#[
  { kind := .element "ul" [("source", "db.items")], children := [1] },
  { kind := .element "face" [], children := [2], parent := some 0 },
  { kind := .element "li" [], children := [3], parent := some 1 },
  { kind := .text "@v", parent := some 2 }]⟩

/-- Columns are letters after a sign. -/
def columnPattern : Pattern :=
  .ofRule (.sequence (.one (.single '@')) (.group 1 (.plus (.one (.range 'a' 'z')) true)))

def itemSite : Site := ⟨0, 0, columnPattern⟩

def itemReading : Except Error (ShowCommand × Priority) × Markup :=
  (ShowCommand.read ⟨columnPattern, columnPattern, columnPattern⟩ .list 0).run itemList

/-- The scene at which the list was read. There is one scope, and nothing was set in it. -/
def itemScene : Scene where
  scopes := (Scopes.create {} none).1.hold 0
  markup := itemReading.2
  command := match itemReading.1 with
    | .ok (command, _) => command
    | .error _ => default

/-- A source of items with an id and a text. -/
def itemSource (keyField : Option String) (mergeType : MergeType)
    (items : List (String × String)) : Source :=
  .make "db.items" (items.map fun (id, v) => [("id", .string id), ("v", .string v)])
    { keyField, mergeType }

/-- A source is set in the scope of the list. -/
def Scene.put (scene : Scene) (source : Source) : Scene :=
  { scene with scopes := (scene.scopes.set 0 source).1 }

theorem opened_itemScene : Opened itemSite itemScene where
  read := by
    have hok : itemReading.1.isOk = true := by decide +kernel
    cases hread : itemReading.1 with
    | error error =>
        rw [hread] at hok
        cases hok
    | ok result =>
        refine ⟨⟨columnPattern, columnPattern, columnPattern⟩, .list, result.2,
          .element "ul" [("source", "db.items")],
          [.tree 1 (.element "face" []) [.tree 2 (.element "li" []) [.tree 3 (.text "@v") []]]],
          itemList, ?_, ⟨?_, by decide⟩, ?_⟩
        · simp [AreWhole, IsWhole]
        · simp only [StandAll, Stands]
          decide
        · have hcommand : itemScene.command = result.1 := by rw [itemScene, hread]
          rw [hcommand]
          exact Prod.ext hread rfl

/-! ## Passes -/

theorem arranged?_eq {done : List Showing} {shapes : List Shape}
    (h : scene.arranged? site form = some (done, shapes)) :
    ∃ source sketch, scene.snapshot? site = some source ∧
      scene.command.sketch site.pattern form (scene.find site) source = .ok sketch ∧
      scene.command.arranged (scene.find site) sketch = (done, shapes) := by
  rw [Scene.arranged?] at h
  obtain ⟨source, hsource, hsketch⟩ := Option.bind_eq_some_iff.mp h
  split at hsketch
  · next sketch hok => exact ⟨source, sketch, hsource, hok, Option.some.inj hsketch⟩
  · cases hsketch

/-- Without a source, or when a condition is in error, a pass changes nothing. -/
theorem pass_of_unresolved (h : ∀ source ∈ scene.snapshot? site, ∀ faces,
    scene.command.faces.mapM (Face.resolve · (scene.find site) source) ≠ .ok faces) :
    scene.pass site = scene := by
  rw [Scene.pass]
  cases hsource : scene.snapshot? site with
  | none => rfl
  | some source =>
      dsimp only
      cases hresolved : scene.command.faces.mapM (Face.resolve · (scene.find site) source) with
      | error error =>
          rw [ShowCommand.refresh, hresolved]
          rfl
      | ok resolved => exact absurd hresolved (h source hsource resolved)

/-- Without anything to show, a pass changes nothing. -/
theorem pass_of_none (h : scene.arranged? site form = none) : scene.pass site = scene := by
  refine pass_of_unresolved fun source hsource faces hfaces => ?_
  rw [Scene.arranged?, hsource, Option.bind_some, ShowCommand.sketch, hfaces] at h
  cases h

/-- What a refresh gives comes to stand in the node of the command, and what there is to keep is kept. -/
theorem tilled_of_refresh {pots new : List Pot} {kind : NodeKind} {beds finals : List Plot}
    (hkept : scene.command.Kept site.pattern form (.gap site.node kind :: beds) scene.markup pots)
    (hbeds : ∀ plot ∈ beds, plot.root ∈ scene.command.templates) {source : Source}
    (hsource : scene.snapshot? site = some source) {changed : Markup} {cache : PassCache}
    (hrefresh : scene.command.refresh (scene.find site) site.pattern scene.markup source =
      .ok (changed, { scene.command with cache }, finals.map root))
    (hgarden : Garden changed (finals ++ .gap site.node kind :: beds))
    (hcovers : Covers finals (keptIn new))
    (hslots : List.Forall₂ (Holds site.pattern form) cache.slots new) :
    Tilled site form (scene.pass site) (new.map Pot.showing) ∧
      (AreWhole finals →
        (scene.pass site).html site = Fragment.html (Shape.fragments (shapes finals))) := by
  have hpass : scene.pass site =
      ⟨scene.scopes, changed.replaceChildren site.node (finals.map root),
        { scene.command with cache }⟩ := by
    rw [Scene.pass, hsource]
    dsimp only
    rw [hrefresh]
  obtain ⟨hchildren, hgap⟩ := hgarden.put_below
  rw [hpass]
  refine ⟨⟨new, kind, beds, ⟨hslots, hkept.templates, ?_⟩, hbeds, rfl⟩, fun hwhole => ?_⟩
  · exact hcovers _ _ hgap.swap_cons
  · rw [Scene.html, hchildren, hgap.tail.left.html_eq hwhole]

/-- A pass for which the last one is steady shows its sketch, and keeps what there is to keep. -/
theorem Tilled.pass (h : Tilled site form scene last) {done : List Showing} {shapes : List Shape}
    (harranged : scene.arranged? site form = some (done, shapes))
    (hsteady : ∀ old ∈ last, ∀ now ∈ done, Steady site.pattern form old now) :
    Tilled site form (scene.pass site) done ∧
      (scene.pass site).html site = Fragment.html (Shape.fragments shapes) := by
  obtain ⟨pots, kind, beds, hkept, hbeds, rfl⟩ := h
  obtain ⟨source, sketch, hsource, hsketch, hdone⟩ := arranged?_eq harranged
  have hpots : Pass.SteadyFor sketch pots (scene.command.arranged (scene.find site) sketch).1 := by
    intro pot hpot showing hshowing
    obtain ⟨hpattern, hform, -⟩ := ShowCommand.sketch_ok hsketch
    rw [hdone] at hshowing
    rw [hpattern, hform]
    exact hsteady pot.showing (List.mem_map_of_mem hpot) showing hshowing
  obtain ⟨changed, cache, finals, new, hrefresh, hshapes, hwhole, hgarden, hcovers, hslots, hnew⟩ :=
    hkept.refresh hsketch hpots
  rw [hdone] at hshapes hnew
  obtain ⟨htilled, hhtml⟩ := tilled_of_refresh hkept hbeds hsource hrefresh hgarden hcovers hslots
  rw [hnew] at htilled
  rw [hshapes] at hhtml
  exact ⟨htilled, hhtml hwhole⟩

theorem Tilled.afresh (h : Tilled site form scene last) : Tilled site form scene.afresh [] := by
  obtain ⟨pots, kind, beds, hkept, hbeds, -⟩ := h
  exact ⟨[], kind, beds, ⟨.nil, hkept.templates, hkept.garden.right⟩, hbeds, rfl⟩

/-- A pass for which the last one is steady shows what a pass without a cache shows. -/
theorem Tilled.html_eq (h : Tilled site form scene last)
    (hsteady : ∀ old ∈ last, ∀ now ∈ scene.shown site form, Steady site.pattern form old now) :
    (scene.pass site).html site = (scene.afresh.pass site).html site := by
  have hsame : scene.afresh.arranged? site form = scene.arranged? site form := rfl
  cases harranged : scene.arranged? site form with
  | none =>
      rw [pass_of_none harranged, pass_of_none (hsame.trans harranged)]
      rfl
  | some arranged =>
      obtain ⟨done, shapes⟩ := arranged
      rw [Scene.shown, harranged] at hsteady
      rw [(h.pass harranged hsteady).2,
        (h.afresh.pass (hsame.trans harranged) fun _ hold => by cases hold).2]

theorem SteadyCourse.tilled {start : Scene} (hopened : Opened site start)
    (h : SteadyCourse site start.markup.shape start scene last) :
    Tilled site start.markup.shape scene last := by
  induction h with
  | start => exact hopened.tilled
  | set scope source _ ih => exact ih
  | elsewhere alone _ ih => exact ih.elsewhere alone
  | @pass scene last _ steady ih =>
      cases harranged : scene.arranged? site start.markup.shape with
      | none =>
          rw [pass_of_none harranged]
          exact ih
      | some arranged =>
          obtain ⟨done, shapes⟩ := arranged
          rw [Scene.shown, harranged] at steady
          exact (ih.pass harranged steady).1

/-- However sources are set and passes are placed: as long as every pass finds its slots steady, none
of them can be told from a pass without a cache. -/
theorem steady_pass_transparent {start : Scene} (hopened : Opened site start)
    (hcourse : SteadyCourse site start.markup.shape start scene last)
    (hsteady : ∀ old ∈ last, ∀ now ∈ scene.shown site start.markup.shape,
      Steady site.pattern start.markup.shape old now) :
    (scene.pass site).html site = (scene.afresh.pass site).html site :=
  (hcourse.tilled hopened).html_eq hsteady

/-- The list with one item in its source, not shown yet. -/
def oneItem : Scene := itemScene.put (itemSource "id" .replace [("1", "a")])

/-- The list that shows one item, and another one appended to its source. -/
def twoItems : Scene := (oneItem.pass itemSite).put (itemSource "id" .append [("2", "n")])

theorem appended_item_transparent :
    (twoItems.pass itemSite).html itemSite = (twoItems.afresh.pass itemSite).html itemSite := by
  have hslots : ((twoItems.shown itemSite itemScene.markup.shape).map Showing.name).Nodup := by
    decide +kernel
  have hfirst : oneItem.shown itemSite itemScene.markup.shape =
      (twoItems.shown itemSite itemScene.markup.shape).tail := by with_unfolding_all rfl
  refine steady_pass_transparent opened_itemScene
    (.set 0 _ (.pass (.set 0 _ .start) fun _ hnone => by cases hnone)) fun old hold now hnow => ?_
  have holdShown : old ∈ oneItem.shown itemSite itemScene.markup.shape := hold
  rw [hfirst] at holdShown
  exact Steady.of_nodup hslots (List.mem_of_mem_tail holdShown) hnow

/-! ## Any course -/

/-- How a scene comes from another one, in whatever order sources are set and passes are made. Next to
it stand the sources that the passes have shown. -/
inductive Course (site : Site) (start : Scene) : Scene → List Source → Prop
  | start : Course site start start []
  | set {scene : Scene} {seen : List Source} (scope : ScopeId) (source : Source)
      (before : Course site start scene seen) :
      Course site start { scene with scopes := (scene.scopes.set scope source).1 } seen
  | elsewhere {scene : Scene} {seen : List Source} {changed : Markup}
      (alone : scene.LeavesAlone changed) (before : Course site start scene seen) :
      Course site start { scene with markup := changed } seen
  | pass {scene : Scene} {seen : List Source} (before : Course site start scene seen) :
      Course site start (scene.pass site) ((scene.snapshot? site).toList ++ seen)

/-- Not every pass is transparent: an item moves to the place of another one with its text changed. Its
version is that of the place, which is no other than the one its slot was shown with. -/
theorem moved_item_stale :
    ∃ (start scene : Scene) (seen : List Source), Opened itemSite start ∧
      Course itemSite start scene seen ∧
      (∀ source ∈ (scene.snapshot? itemSite).toList ++ seen, source.options.keyField = some "id") ∧
      (scene.pass itemSite).html itemSite = "<li>n</li><li>a</li>" ∧
      (scene.afresh.pass itemSite).html itemSite = "<li>n</li><li>b</li>" :=
  ⟨itemScene, (oneItem.pass itemSite).put (itemSource "id" .replace [("2", "n"), ("1", "b")]), _,
    opened_itemScene, .set 0 _ (.pass (.set 0 _ .start)), by decide +kernel, by decide +kernel,
    by decide +kernel⟩

/-- A pass changes nothing of the command but its cache. -/
theorem pass_command (scene : Scene) :
    ∃ cache, (scene.pass site).command = { scene.command with cache } := by
  rw [Scene.pass]
  cases scene.snapshot? site with
  | none => exact ⟨_, rfl⟩
  | some source =>
      dsimp only
      cases hrefresh : scene.command.refresh (scene.find site) site.pattern scene.markup source with
      | error error => exact ⟨_, rfl⟩
      | ok result =>
          obtain ⟨changed, after, output⟩ := result
          exact ShowCommand.refresh_command hrefresh

variable {start : Scene} {seen : List Source}

theorem Course.command (h : Course site start scene seen) :
    ∃ cache, scene.command = { start.command with cache } := by
  induction h with
  | start => exact ⟨_, rfl⟩
  | set _ _ _ ih => exact ih
  | elsewhere _ _ ih => exact ih
  | @pass scene seen _ ih =>
      obtain ⟨cache, hcommand⟩ := ih
      obtain ⟨after, hafter⟩ := @pass_command site scene
      exact ⟨after, by rw [hafter, hcommand]⟩

/-! ## Rows without a key field -/

/-- Whether an arrangement nests all of its rows. -/
def Arrangement.nests : Arrangement → Bool
  | .tree .. => true
  | _ => false

/-- A row without a key field, where content is nested in the rows of some groups. -/
structure Keyless (command : ShowCommand) (nesting : String → Bool) (rows : List Row)
    (showing : Showing) : Prop where
  row : showing.row ∈ rows
  key : showing.name.key = .content (Value.object showing.row).compact
  face : showing.face ∈ command.faces
  nests : showing.nests = nesting showing.name.group

/-- The group of a row tells whether content is nested in it. -/
def Arrangement.NestsBy (arrangement : Arrangement) (nesting : String → Bool) (source : Source) :
    Prop :=
  ∀ group nests, Sketch.Role arrangement source group nests → nests = nesting group

/-- Rows of different texts never meet in a slot. -/
theorem Keyless.steady {command : ShowCommand} {nesting : String → Bool} {rows : List Row}
    {old now : Showing} (hold : Keyless command nesting rows old)
    (hnow : Keyless command nesting rows now) (hfaces : (command.faces.map Face.index).Nodup)
    (hdistinct : ∀ row ∈ rows, ∀ other ∈ rows,
      (Value.object row).compact = (Value.object other).compact → row = other)
    (pattern : Pattern) (form : NodeId → Shape) : Steady pattern form old now := by
  intro hname _ hface
  have hkey : RowKey.content (Value.object old.row).compact =
      .content (Value.object now.row).compact := by
    rw [← hold.key, ← hnow.key, hname]
  have hrow : old.row = now.row :=
    hdistinct _ hold.row _ hnow.row (RowKey.content.inj hkey)
  have hsame : old.face = now.face := List.inj_on_of_nodup_map hfaces hold.face hnow.face hface
  refine ⟨?_, fun hbefore hafter => ?_⟩
  · rw [Showing.shapes, Showing.shapes, hrow, hsame]
  · rw [hold.nests, hname, ← hnow.nests, hafter] at hbefore
    cases hbefore

variable {nesting : String → Bool}

theorem Course.keyless_of_shown (h : Course site start scene seen)
    (hkeyless : ∀ source ∈ scene.snapshot? site, source.options.keyField = none)
    (hnesting : ∀ source ∈ scene.snapshot? site, start.command.arrangement.NestsBy nesting source) :
    ∀ showing ∈ scene.shown site form,
      Keyless start.command nesting ((scene.snapshot? site).toList.flatMap Source.rows) showing := by
  intro showing hshowing
  obtain ⟨cache, hcommand⟩ := h.command
  have hstartFaces : scene.command.faces = start.command.faces := by rw [hcommand]
  have hstartArrangement : scene.command.arrangement = start.command.arrangement := by rw [hcommand]
  rw [Scene.shown] at hshowing
  cases harranged : scene.arranged? site form with
  | none =>
      rw [harranged] at hshowing
      cases hshowing
  | some arranged =>
      obtain ⟨done, shapes⟩ := arranged
      rw [harranged] at hshowing
      obtain ⟨source, sketch, hsource, hsketch, hdone⟩ := arranged?_eq harranged
      obtain ⟨-, -, hrows, hfaces⟩ := ShowCommand.sketch_ok hsketch
      have hmem : showing ∈ (sketch.arrange scene.command.arrangement
          (scene.command.resolveRowCount (scene.find site))).1 := by
        have hrowsDone : (scene.command.arranged (scene.find site) sketch).1 = done :=
          congrArg Prod.fst hdone
        have hin : showing ∈ done := hshowing
        rw [← hrowsDone] at hin
        exact hin
      rcases (Sketch.arrange_adds sketch _ _).mem hmem with hnone | hrow
      · cases hnone
      obtain ⟨group, nests, before, index, levels, hrole, hshown⟩ := hrow
      obtain ⟨hnests, hgroup, ⟨entry, hentry, hentryRow, -, hkey⟩, resolved, hresolved, hface⟩ :=
        Sketch.showRow_facts hshown
      rw [hrows] at hentry hkey hrole
      rw [hkeyless source hsource] at hkey
      rw [hsource, Option.toList_some, List.flatMap_singleton]
      refine ⟨?_, ?_, ?_, ?_⟩
      · rw [hentryRow]
        exact List.mem_map_of_mem hentry
      · rw [hkey, hentryRow]
        rfl
      · rw [hface, ← hstartFaces, ← hfaces]
        exact List.mem_map_of_mem hresolved
      · rw [hnests, hgroup]
        rw [hstartArrangement] at hrole
        exact hnesting source hsource group nests hrole

theorem Keyless.mono {command : ShowCommand} {rows more : List Row} {showing : Showing}
    (h : Keyless command nesting rows showing) (hsub : rows ⊆ more) :
    Keyless command nesting more showing :=
  ⟨hsub h.row, h.key, h.face, h.nests⟩

theorem Opened.faces_nodup (h : Opened site scene) :
    (scene.command.faces.map Face.index).Nodup := by
  obtain ⟨patterns, command, priority, kind, children, markup, hwhole, hgarden, hread⟩ := h.read
  obtain ⟨-, -, hindexes⟩ := ShowCommand.read_triple markup (Planted.start hwhole hgarden)
    (scene.command, priority) (by rw [hread])
  rw [hindexes]
  exact List.nodup_range'

/-- The pass after those of a run finds its slots steady, and what it shows is as keyless as before. -/
theorem Course.steady_shown (hopened : Opened site start) (h : Course site start scene seen)
    (hkeyless : ∀ source ∈ (scene.snapshot? site).toList ++ seen, source.options.keyField = none)
    (hnesting : ∀ source ∈ (scene.snapshot? site).toList ++ seen,
      start.command.arrangement.NestsBy nesting source)
    (hdistinct : ∀ row ∈ ((scene.snapshot? site).toList ++ seen).flatMap Source.rows,
      ∀ other ∈ ((scene.snapshot? site).toList ++ seen).flatMap Source.rows,
        (Value.object row).compact = (Value.object other).compact → row = other)
    (hlast : ∀ showing ∈ last, Keyless start.command nesting (seen.flatMap Source.rows) showing) :
    (∀ showing ∈ last ++ scene.shown site form, Keyless start.command nesting
      (((scene.snapshot? site).toList ++ seen).flatMap Source.rows) showing) ∧
      ∀ old ∈ last, ∀ now ∈ scene.shown site form, Steady site.pattern form old now := by
  have hold : ∀ showing ∈ last, Keyless start.command nesting
      (((scene.snapshot? site).toList ++ seen).flatMap Source.rows) showing := by
    intro showing hshowing
    rw [List.flatMap_append]
    exact (hlast showing hshowing).mono (List.subset_append_right _ _)
  have hcurrent : ∀ source ∈ scene.snapshot? site, source ∈ (scene.snapshot? site).toList ++ seen :=
    fun source hsource => List.mem_append_left _ (Option.mem_toList.mpr hsource)
  have hnow : ∀ showing ∈ scene.shown site form, Keyless start.command nesting
      (((scene.snapshot? site).toList ++ seen).flatMap Source.rows) showing := by
    intro showing hshowing
    rw [List.flatMap_append]
    exact (h.keyless_of_shown (fun source hsource => hkeyless source (hcurrent source hsource))
      (fun source hsource => hnesting source (hcurrent source hsource)) showing hshowing).mono
        (List.subset_append_left _ _)
  exact ⟨List.forall_mem_append.mpr ⟨hold, hnow⟩, fun old hmem now hmemNow =>
    (hold old hmem).steady (hnow now hmemNow) hopened.faces_nodup hdistinct _ _⟩

/-- Over rows without a key field, where the group of a row tells whether content is nested in it, a run
is one of steady passes. -/
theorem Course.steadyCourse (hopened : Opened site start) (h : Course site start scene seen)
    (hkeyless : ∀ source ∈ seen, source.options.keyField = none)
    (hnesting : ∀ source ∈ seen, start.command.arrangement.NestsBy nesting source)
    (hdistinct : ∀ row ∈ seen.flatMap Source.rows, ∀ other ∈ seen.flatMap Source.rows,
      (Value.object row).compact = (Value.object other).compact → row = other) :
    ∃ last, SteadyCourse site form start scene last ∧
      ∀ showing ∈ last, Keyless start.command nesting (seen.flatMap Source.rows) showing := by
  induction h with
  | start => exact ⟨[], .start, fun _ hnone => by cases hnone⟩
  | set scope source _ ih =>
      obtain ⟨last, hcourse, hlast⟩ := ih hkeyless hnesting hdistinct
      exact ⟨last, .set scope source hcourse, hlast⟩
  | elsewhere alone _ ih =>
      obtain ⟨last, hcourse, hlast⟩ := ih hkeyless hnesting hdistinct
      exact ⟨last, .elsewhere alone hcourse, hlast⟩
  | @pass scene seen before ih =>
      have hseen : seen.flatMap Source.rows ⊆
          ((scene.snapshot? site).toList ++ seen).flatMap Source.rows := by
        rw [List.flatMap_append]
        exact List.subset_append_right _ _
      obtain ⟨last, hcourse, hlast⟩ := ih
        (fun source hsource => hkeyless source (List.mem_append_right _ hsource))
        (fun source hsource => hnesting source (List.mem_append_right _ hsource))
        (fun row hrow other hother => hdistinct row (hseen hrow) other (hseen hother))
      obtain ⟨hkept, hsteady⟩ := @Course.steady_shown _ form _ _ _ _ _ hopened before hkeyless hnesting
        hdistinct hlast
      refine ⟨_, .pass hcourse hsteady, fun showing hshowing => hkept showing ?_⟩
      rw [Scene.shown]
      cases harranged : scene.arranged? site form with
      | none =>
          rw [harranged] at hshowing
          exact List.mem_append_left _ hshowing
      | some arranged =>
          rw [harranged] at hshowing
          exact List.mem_append_right _ hshowing

/-- A pass over rows without a key field cannot be told from a pass without a cache, where the group of a
row tells whether content is nested in it. -/
theorem Course.keyless_html_eq (hopened : Opened site start) (h : Course site start scene seen)
    (hkeyless : ∀ source ∈ (scene.snapshot? site).toList ++ seen, source.options.keyField = none)
    (hnesting : ∀ source ∈ (scene.snapshot? site).toList ++ seen,
      start.command.arrangement.NestsBy nesting source)
    (hdistinct : ∀ row ∈ ((scene.snapshot? site).toList ++ seen).flatMap Source.rows,
      ∀ other ∈ ((scene.snapshot? site).toList ++ seen).flatMap Source.rows,
        (Value.object row).compact = (Value.object other).compact → row = other) :
    (scene.pass site).html site = (scene.afresh.pass site).html site := by
  have hseen : seen.flatMap Source.rows ⊆
      ((scene.snapshot? site).toList ++ seen).flatMap Source.rows := by
    rw [List.flatMap_append]
    exact List.subset_append_right _ _
  obtain ⟨last, hsteadyCourse, hlast⟩ := h.steadyCourse hopened
    (fun source hsource => hkeyless source (List.mem_append_right _ hsource))
    (fun source hsource => hnesting source (List.mem_append_right _ hsource))
    (fun row hrow other hother => hdistinct row (hseen hrow) other (hseen hother))
  exact (hsteadyCourse.tilled hopened).html_eq
    (h.steady_shown hopened hkeyless hnesting hdistinct hlast).2

/-- All rows of a list, and all rows of a tree, are alike in that. -/
theorem Arrangement.nestsBy_of_not_view {arrangement : Arrangement}
    (hview : ∀ field, arrangement ≠ .view field) (source : Source) :
    arrangement.NestsBy (fun _ => arrangement.nests) source := by
  intro group nests hrole
  cases arrangement with
  | list levels divider incomplete => exact hrole.2
  | tree parentField keyField => exact hrole.2
  | view groupField => exact absurd rfl (hview groupField)

/-- In a list or a tree, no pass over rows without a key field can be told from a pass without a
cache, however sources are set and passes are placed before it: what rows of earlier passes hold in
their places, and where these rows hang, is never seen. It is assumed that rows of the same text are
the same. -/
theorem keyless_pass_transparent (hopened : Opened site start) (hcourse : Course site start scene seen)
    (hview : ∀ field, start.command.arrangement ≠ .view field)
    (hkeyless : ∀ source ∈ (scene.snapshot? site).toList ++ seen, source.options.keyField = none)
    (hdistinct : ∀ row ∈ ((scene.snapshot? site).toList ++ seen).flatMap Source.rows,
      ∀ other ∈ ((scene.snapshot? site).toList ++ seen).flatMap Source.rows,
        (Value.object row).compact = (Value.object other).compact → row = other) :
    (scene.pass site).html site = (scene.afresh.pass site).html site := by
  exact hcourse.keyless_html_eq hopened hkeyless
    (fun source _ => Arrangement.nestsBy_of_not_view hview source) hdistinct

/-- The list that shows two items, and the same items the other way round in its source. -/
def swappedItems : Scene :=
  ((itemScene.put (itemSource none .replace [("1", "a"), ("2", "b")])).pass itemSite).put
    (itemSource none .replace [("2", "b"), ("1", "a")])

theorem swapped_items_transparent :
    (swappedItems.pass itemSite).html itemSite =
      (swappedItems.afresh.pass itemSite).html itemSite := by
  let first : Row := [("id", .string "1"), ("v", .string "a")]
  let second : Row := [("id", .string "2"), ("v", .string "b")]
  have htexts : (Value.object first).compact ≠ (Value.object second).compact := by decide +kernel
  refine keyless_pass_transparent opened_itemScene (.set 0 _ (.pass (.set 0 _ .start))) ?_ ?_ ?_
  · intro field hview
    have hview : itemScene.command.arrangement = .view field := hview
    have hlist : itemScene.command.arrangement = .list ["1"] [] [] := by with_unfolding_all rfl
    rw [hlist] at hview
    cases hview
  · decide +kernel
  · change ∀ row ∈ [second, first, first, second], ∀ other ∈ [second, first, first, second], _
    simp [htexts, htexts.symm]

end ReactiveMarkup
