import ReactiveMarkup.Proofs.Face.Views
import ReactiveMarkup.Proofs.Value.Compact

/-!
# Headers and rows that stay apart

A rendering belongs to the slot it was made for, and is only ever taken over for a slot of the same name.
So it never leaves its group, through any number of passes: that is told here of all calls of all passes
(`Rounds`). In a view the headers have a group of their own, and as long as no row has the name of that
group for a text, no rendering is a header in one pass and a row in another. Slots then say whether
content is nested in them, which is what it takes for a pass not to be told from one without a cache.

A row may have that text. Then headers and rows share the slots of one group, and what was a header comes
back as a row, with the rows still in it that were shown below it.
-/

namespace ReactiveMarkup

open RowCall

/-! ## Renderings stay in their groups -/

/-- All calls of some passes that began with an empty cache, and the cache that the last pass left. -/
inductive Rounds : List RowCall → PassCache → Prop
  | empty : Rounds [] {}
  | pass {calls earlier : List RowCall} {cache : PassCache} {faces : List ResolvedFace}
      {pattern : Pattern} {markup : Markup} {after : Pass} (before : Rounds earlier cache)
      (asked : (Pass.start faces pattern markup cache).Asked calls after) :
      Rounds (calls ++ earlier) after.cache

theorem Rounds.chained {calls : List RowCall} {cache : PassCache} (h : Rounds calls cache) :
    Chained (calls.filterMap RowCall.result) cache := by
  induction h with
  | empty => exact .empty
  | pass _ asked ih =>
      rw [List.filterMap_append]
      exact .pass ih asked

theorem RowCall.slotsOf_subset {earlier calls : List RowCall} (h : earlier <:+ calls) :
    slotsOf earlier ⊆ slotsOf calls := by
  induction calls with
  | nil =>
      rw [List.suffix_nil.mp h]
      exact List.Subset.refl _
  | cons call rest ih =>
      rcases List.suffix_cons_iff.mp h with rfl | hrest
      · exact List.Subset.refl _
      · refine List.Subset.trans (ih hrest) ?_
        rw [slotsOf]
        split
        · exact List.subset_cons_self _ _
        · exact List.Subset.refl _

/-- What a call is given is in a slot of its group. -/
theorem Pass.Asked.slot_of_given {faces : List ResolvedFace} {pattern : Pattern} {markup : Markup}
    {cache : PassCache} {made : List Rendering} {calls : List RowCall} {after : Pass}
    (h : (Pass.start faces pattern markup cache).Asked calls after) (hcache : cache.Sound made)
    {call : RowCall} (hcall : call ∈ calls) {rendering : Rendering}
    (hresult : rendering ∈ call.result) :
    ∃ slot ∈ after.cache.slots, slot.2 = rendering ∧ slot.1.group = call.group := by
  obtain ⟨hbooked, hanswered⟩ := h.booked hcache
  obtain ⟨later, earlier, rfl⟩ := List.append_of_mem hcall
  have hslot : ∃ name, call.slot? earlier = some name := by
    cases hanswered call earlier (List.suffix_append _ _) with
    | missing _ result => rw [result] at hresult; cases hresult
    | skipped _ _ result => rw [result] at hresult; cases hresult
    | reused _ _ slot => exact ⟨_, slot⟩
    | rendered _ _ slot => exact ⟨_, slot⟩
  obtain ⟨name, hslot⟩ := hslot
  have hgroup : name.group = call.group := by
    obtain ⟨key, -, rfl⟩ := Option.map_eq_some_iff.mp hslot
    rfl
  refine ⟨(name, rendering), ?_, rfl, hgroup⟩
  have hslots : after.cache.slots = slotsOf (later ++ call :: earlier) := hbooked.next
  rw [hslots]
  refine slotsOf_subset (List.suffix_append later (call :: earlier)) ?_
  rw [slotsOf_cons_some hslot hresult]
  exact List.mem_cons_self

/-- No two slots that a pass leaves have renderings of the same number. -/
theorem PassCache.Sound.slot_eq {made : List Rendering} {cache : PassCache} (h : cache.Sound made)
    {slot other : SlotName × Rendering} (hslot : slot ∈ cache.slots) (hother : other ∈ cache.slots)
    (hsame : slot.2.serial = other.2.serial) : slot = other :=
  List.inj_on_of_nodup_map h.serials hslot hother hsame

/-- A slot whose rendering was ever given to a call is of the group of that call. -/
theorem Rounds.group_of_slot {calls : List RowCall} {cache : PassCache} (h : Rounds calls cache) :
    ∀ slot ∈ cache.slots, ∀ call ∈ calls, ∀ rendering ∈ call.result,
      slot.2.serial = rendering.serial → slot.1.group = call.group := by
  induction h with
  | empty => exact List.forall_mem_nil _
  | @pass calls earlier cache faces pattern markup after before asked ih =>
      intro slot hslot call hcall rendering hresult hsame
      have hsound := before.chained.sound
      rcases List.mem_append.mp hcall with hnew | hold
      · obtain ⟨own, hown, rfl, hgroup⟩ := asked.slot_of_given hsound hnew hresult
        rw [(asked.sound hsound).slot_eq hslot hown hsame, hgroup]
      · -- The slot was taken over under its name, since what is made in this pass has a new number.
        obtain ⟨hbooked, -⟩ := asked.booked hsound
        have hslots : after.cache.slots = slotsOf calls := hbooked.next
        rw [hslots] at hslot
        rcases hbooked.origin slot hslot with htaken | hmade
        · exact ih slot (Pass.mem_of_lookup htaken) call hold rendering hresult hsame
        · have hbelow := hsound.below rendering (List.mem_filterMap.mpr ⟨call, hold, hresult⟩)
          rw [hsame] at hmade
          exact absurd hbelow (Nat.not_lt.mpr hmade)

/-- Calls that are given the same rendering, in whichever passes, are of one group. -/
theorem Rounds.group_eq {calls : List RowCall} {cache : PassCache} (h : Rounds calls cache)
    {call other : RowCall} (hcall : call ∈ calls) (hother : other ∈ calls) {rendering given : Rendering}
    (hresult : rendering ∈ call.result) (hgiven : given ∈ other.result)
    (hsame : rendering.serial = given.serial) : call.group = other.group := by
  induction h generalizing call other rendering given with
  | empty => cases hcall
  | @pass calls earlier cache faces pattern markup after before asked ih =>
      have hsound := before.chained.sound
      have hgroup := (Rounds.pass before asked).group_of_slot
      rcases List.mem_append.mp hcall with hnew | hold
      · obtain ⟨slot, hslot, rfl, hname⟩ := asked.slot_of_given hsound hnew hresult
        rw [← hname]
        exact hgroup slot hslot other hother given hgiven hsame
      · rcases List.mem_append.mp hother with hnew | hbefore
        · obtain ⟨slot, hslot, rfl, hname⟩ := asked.slot_of_given hsound hnew hgiven
          rw [← hname]
          exact (hgroup slot hslot call hcall rendering hresult hsame.symm).symm
        · exact ih hold hbefore hresult hgiven hsame

/-! ## What the passes of a view have shown -/

/-- A course of passes of a view with the groups that each of them showed, and the sources they are
of. -/
inductive Recorded (site : Site) (groupField : String) (start : Scene) :
    Scene → List Source → List (Source × ShownGroup) → Prop
  | start : Recorded site groupField start start [] []
  | set {scene : Scene} {seen : List Source} {record : List (Source × ShownGroup)} (scope : ScopeId)
      (source : Source) (before : Recorded site groupField start scene seen record) :
      Recorded site groupField start { scene with scopes := (scene.scopes.set scope source).1 } seen
        record
  | elsewhere {scene : Scene} {seen : List Source} {record : List (Source × ShownGroup)}
      {changed : Markup} (alone : scene.LeavesAlone changed)
      (before : Recorded site groupField start scene seen record) :
      Recorded site groupField start { scene with markup := changed } seen record
  | idle {scene : Scene} {seen : List Source} {record : List (Source × ShownGroup)}
      (nothing : ∀ source ∈ scene.snapshot? site, ∀ faces,
        scene.command.faces.mapM (Face.resolve · (scene.find site) source) ≠ .ok faces)
      (before : Recorded site groupField start scene seen record) :
      Recorded site groupField start (scene.pass site) ((scene.snapshot? site).toList ++ seen) record
  | shows {scene : Scene} {seen : List Source} {record : List (Source × ShownGroup)} {source : Source}
      {faces : List ResolvedFace} {groups : List ShownGroup}
      (snapshot : scene.snapshot? site = some source)
      (resolved : scene.command.faces.mapM (Face.resolve · (scene.find site) source) = .ok faces)
      (grouped : (groups.map fun group => (group.name, group.members)) = groupRows groupField source)
      (called : (Pass.start faces site.pattern scene.markup scene.command.cache).Called
        (groups.flatMap (ShownGroup.calls source)).reverse
        ((Pass.start faces site.pattern scene.markup scene.command.cache).arrange
          scene.command.arrangement (scene.command.resolveRowCount (scene.find site)) source).1)
      (before : Recorded site groupField start scene seen record) :
      Recorded site groupField start (scene.pass site) ((scene.snapshot? site).toList ++ seen)
        (groups.map (source, ·) ++ record)

variable {site : Site} {groupField : String} {start scene : Scene} {seen : List Source}
  {record : List (Source × ShownGroup)}

/-- Every course of passes of a view can be recorded. -/
theorem Course.recorded (hopened : Opened site start) (h : Course site start scene seen)
    (hview : start.command.arrangement = .view groupField) :
    ∃ record, Recorded site groupField start scene seen record := by
  induction h with
  | start => exact ⟨[], .start⟩
  | set scope source _ ih =>
      obtain ⟨record, hrecord⟩ := ih
      exact ⟨record, .set scope source hrecord⟩
  | elsewhere alone _ ih =>
      obtain ⟨record, hrecord⟩ := ih
      exact ⟨record, .elsewhere alone hrecord⟩
  | @pass scene seen before ih =>
      obtain ⟨record, hrecord⟩ := ih
      by_cases hresolved : ∃ source ∈ scene.snapshot? site, ∃ faces,
          scene.command.faces.mapM (Face.resolve · (scene.find site) source) = .ok faces
      · obtain ⟨source, hsource, faces, hfaces⟩ := hresolved
        obtain ⟨cache, hcommand⟩ := before.command
        obtain ⟨groups, -, -, hgroups, hcalled, -⟩ := before.shows_groups hopened hfaces
          (by rw [hcommand, ← hview]) (scene.command.resolveRowCount (scene.find site))
        exact ⟨_, .shows hsource hfaces hgroups hcalled hrecord⟩
      · refine ⟨record, .idle (fun source hsource faces hfaces => hresolved ?_) hrecord⟩
        exact ⟨source, hsource, faces, hfaces⟩

/-- What a pass leaves in the cache of the command. -/
theorem pass_cache {source : Source} {faces : List ResolvedFace}
    (hsource : scene.snapshot? site = some source)
    (hfaces : scene.command.faces.mapM (Face.resolve · (scene.find site) source) = .ok faces) :
    (scene.pass site).command.cache =
      ((Pass.start faces site.pattern scene.markup scene.command.cache).arrange
        scene.command.arrangement (scene.command.resolveRowCount (scene.find site)) source).1.cache := by
  rw [Scene.pass, hsource]
  dsimp only
  rw [ShowCommand.refresh, hfaces]
  rfl

theorem Opened.cache_eq (h : Opened site scene) : scene.command.cache = {} := by
  obtain ⟨patterns, command, priority, kind, children, markup, hwhole, hgarden, hread⟩ := h.read
  exact (ShowCommand.read_triple markup (Planted.start hwhole hgarden) (scene.command, priority)
    (by rw [hread])).2.1

/-- The calls for all groups that were shown are calls of passes that led to the cache. -/
theorem Recorded.rounds (hopened : Opened site start)
    (h : Recorded site groupField start scene seen record) :
    ∃ calls, Rounds calls scene.command.cache ∧
      ∀ entry ∈ record, ∀ call ∈ entry.2.calls entry.1, call ∈ calls := by
  induction h with
  | start => exact ⟨[], hopened.cache_eq ▸ .empty, List.forall_mem_nil _⟩
  | set _ _ _ ih => exact ih
  | elsewhere _ _ ih => exact ih
  | idle nothing _ ih =>
      rw [pass_of_unresolved nothing]
      exact ih
  | @shows scene seen record source faces groups snapshot resolved _ called _ ih =>
      obtain ⟨calls, hrounds, hrecord⟩ := ih
      obtain ⟨markup, hasked⟩ := called
      have hnext := Rounds.pass hrounds hasked
      rw [pass_cache snapshot resolved]
      refine ⟨_, hnext, List.forall_mem_append.mpr ⟨?_, fun entry hentry call hcall => ?_⟩⟩
      · refine List.forall_mem_map.mpr fun group hgroup call hcall => List.mem_append_left _ ?_
        exact List.mem_reverse.mpr (List.mem_flatMap.mpr ⟨group, hgroup, hcall⟩)
      · exact List.mem_append_right _ (hrecord entry hentry call hcall)

/-- The names of groups are texts of rows that passes have shown. -/
theorem Recorded.name_mem (h : Recorded site groupField start scene seen record) :
    ∀ entry ∈ record, ∃ source ∈ seen, ∃ row ∈ source.rows,
      groupName groupField row = entry.2.name := by
  induction h with
  | start => exact List.forall_mem_nil _
  | set _ _ _ ih => exact ih
  | elsewhere _ _ ih => exact ih
  | idle _ _ ih =>
      intro entry hentry
      obtain ⟨source, hsource, hrow⟩ := ih entry hentry
      exact ⟨source, List.mem_append_right _ hsource, hrow⟩
  | @shows scene seen record source faces groups snapshot _ grouped _ _ ih =>
      refine List.forall_mem_append.mpr ⟨?_, fun entry hentry => ?_⟩
      · refine List.forall_mem_map.mpr fun group hgroup => ?_
        have hpair : (group.name, group.members) ∈ groupRows groupField source := by
          rw [← grouped]
          exact List.mem_map_of_mem hgroup
        rw [groupRows_eq] at hpair
        obtain ⟨text, htext, heq⟩ := List.mem_map.mp hpair
        obtain ⟨row, hrow, hname⟩ := List.mem_map.mp (List.mem_eraseDups.mp htext)
        refine ⟨source, ?_, row, hrow, hname.trans (Prod.mk.inj heq).1⟩
        rw [snapshot]
        exact List.mem_cons_self
      · obtain ⟨other, hother, hrow⟩ := ih entry hentry
        exact ⟨other, List.mem_append_right _ hother, hrow⟩

/-! ## Transparency -/

/-- Where no row has the name of the group of headers for a text, the group of a row tells whether it is a
header. -/
theorem nestsBy_of_apart {source : Source}
    (hapart : ∀ row ∈ source.rows, groupName groupField row ≠ Pass.headerGroup) :
    (Arrangement.view groupField).NestsBy (· == Pass.headerGroup) source := by
  rintro group nests (⟨rfl, rfl⟩ | ⟨hgroup, rfl⟩)
  · rfl
  · rw [groupRows_eq, List.map_map, Function.comp_def, List.map_id', List.mem_eraseDups] at hgroup
    obtain ⟨row, hrow, rfl⟩ := List.mem_map.mp hgroup
    exact (beq_false_of_ne (hapart row hrow)).symm

/-- No pass of a view over rows without a key field can be told from a pass without a cache, as long as no
row has the name of the group of headers for a text; and in all passes up to and with this one, no
rendering was both given for a header and given for a row. The numbers in rows are in their one form, so
that the key of a row, which is its text, tells the row. -/
theorem apart_view_transparent (hopened : Opened site start) (hcourse : Course site start scene seen)
    (hview : start.command.arrangement = .view groupField)
    (hkeyless : ∀ source ∈ (scene.snapshot? site).toList ++ seen, source.options.keyField = none)
    (hapart : ∀ source ∈ (scene.snapshot? site).toList ++ seen, ∀ row ∈ source.rows,
      groupName groupField row ≠ Pass.headerGroup)
    (hcanonical : ∀ source ∈ (scene.snapshot? site).toList ++ seen, ∀ row ∈ source.rows,
      (Value.object row).isCanonical = true) :
    (scene.pass site).html site = (scene.afresh.pass site).html site ∧
    (∃ record, Recorded site groupField start (scene.pass site)
      ((scene.snapshot? site).toList ++ seen) record) ∧
    ∀ record, Recorded site groupField start (scene.pass site)
        ((scene.snapshot? site).toList ++ seen) record →
      ∀ entry ∈ record, ∀ other ∈ record, ∀ header ∈ entry.2.header, ∀ row ∈ other.2.rows,
        ∀ given ∈ row.2, header.serial ≠ given.serial := by
  have hnesting : ∀ source ∈ (scene.snapshot? site).toList ++ seen,
      start.command.arrangement.NestsBy (· == Pass.headerGroup) source := by
    intro source hsource
    rw [hview]
    exact nestsBy_of_apart (hapart source hsource)
  have hdistinct : ∀ row ∈ ((scene.snapshot? site).toList ++ seen).flatMap Source.rows,
      ∀ other ∈ ((scene.snapshot? site).toList ++ seen).flatMap Source.rows,
        (Value.object row).compact = (Value.object other).compact → row = other := by
    intro row hrow other hother htext
    obtain ⟨source, hsource, hrow⟩ := List.mem_flatMap.mp hrow
    obtain ⟨another, hanother, hother⟩ := List.mem_flatMap.mp hother
    exact Value.object.inj (Value.compact_inj (hcanonical source hsource row hrow)
      (hcanonical another hanother other hother) htext)
  refine ⟨hcourse.keyless_html_eq hopened hkeyless hnesting hdistinct,
    (Course.pass hcourse).recorded hopened hview, ?_⟩
  intro record hrecord entry hentry other hother header hheader row hrow given hgiven hsame
  obtain ⟨calls, hrounds, hcalls⟩ := hrecord.rounds hopened
  obtain ⟨source, hsource, first, hfirst, hname⟩ := hrecord.name_mem other hother
  have hgroup := hrounds.group_eq (hcalls entry hentry _ List.mem_cons_self)
    (hcalls other hother _ (List.mem_cons_of_mem _ (List.mem_map_of_mem hrow))) hheader hgiven hsame
  exact hapart source hsource first hfirst (hname.trans hgroup.symm)

/-- A view with one face for headers and rows. -/
def echoView : Markup := ⟨#[
  { kind := .element "ul" [("source", "db.items"), ("group", "g")], children := [1] },
  { kind := .element "face" [], children := [2], parent := some 0 },
  { kind := .element "li" [], children := [3, 4], parent := some 1 },
  { kind := .text "@v", parent := some 2 },
  { kind := .element "ul" [], children := [5], parent := some 2 },
  { kind := .text "@child", parent := some 4 }]⟩

theorem opened_echoView : Opened itemSite (sceneOf .view echoView) := by
  let children : List Plot := [
    .tree 1 (.element "face" []) [.tree 2 (.element "li" [])
      [.tree 3 (.text "@v") [], .tree 4 (.element "ul" []) [.tree 5 (.text "@child") []]]]]
  have hwhole : Plot.AreWhole children := by simp [children, Plot.AreWhole, Plot.IsWhole]
  have hgarden : Garden echoView
      [.tree 0 (.element "ul" [("source", "db.items"), ("group", "g")]) children] := by
    refine ⟨?_, by decide⟩
    simp only [children, Plot.StandAll, Plot.Stands]
    decide
  exact opened_sceneOf hwhole hgarden (by decide +kernel)

/-- The view that shows one row of a group, and another row of that group before it. -/
def echoedItems (text : String) : Scene :=
  (((sceneOf .view echoView).put (shelfSource [(text, "x")])).pass itemSite).put
    (shelfSource [(text, "w"), (text, "x")])

theorem echoed_items_transparent :
    (echoedItems "a").html itemSite = "<li>x<ul><li>x<ul></ul></li></ul></li>" ∧
    ((echoedItems "a").pass itemSite).html itemSite =
      ((echoedItems "a").afresh.pass itemSite).html itemSite := by
  refine ⟨by decide +kernel, (@apart_view_transparent itemSite "g" _ _ _ opened_echoView
    (.set 0 _ (.pass (.set 0 _ .start))) (by with_unfolding_all rfl) ?_ ?_ ?_).1⟩
  · decide +kernel
  · decide +kernel
  · decide +kernel

/-- With the name of the group of headers for a text, a row is shown with what was a header before, and
with the row that was shown below it. -/
theorem outer_row_shown_as_header :
    ∃ (start scene : Scene) (seen : List Source), Opened itemSite start ∧
      Course itemSite start scene seen ∧ start.command.arrangement = .view "g" ∧
      (∀ source ∈ (scene.snapshot? itemSite).toList ++ seen, source.options.keyField = none) ∧
      (scene.pass itemSite).html itemSite =
        "<li>w<ul><li>w<ul></ul></li><li>x<ul><li>x<ul></ul></li></ul></li></ul></li>" ∧
      (scene.afresh.pass itemSite).html itemSite =
        "<li>w<ul><li>w<ul></ul></li><li>x<ul></ul></li></ul></li>" :=
  ⟨sceneOf .view echoView, echoedItems "@outer", _, opened_echoView, .set 0 _ (.pass (.set 0 _ .start)),
    by with_unfolding_all rfl, by decide +kernel, by decide +kernel, by decide +kernel⟩

end ReactiveMarkup
