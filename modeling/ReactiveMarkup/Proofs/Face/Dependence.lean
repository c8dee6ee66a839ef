import ReactiveMarkup.Proofs.Binding.Reads
import ReactiveMarkup.Proofs.Face.Transparency
import ReactiveMarkup.Proofs.Scope.Twins

/-!
# What a show command depends on

A pass of a show command reads the source it shows, the sources of the bindings in its faces and
settings, and those that its filters read. The command registers for them when it is prepared, as
far as they are known by then.

They are all known but for one kind. A bound filter is a text until it is resolved, and only then an
expression. The sources that it reads as an expression do not stand in the markup, and nobody
registers for them. They are late; with them added to the dependencies of the command there is
nothing else that its output depends on. A command whose filters turn out to read no source late
shows what it is to show, whatever else is set.
-/

namespace ReactiveMarkup

variable {find other : String → Option Source} {source : Source}

/-! ## Late reads -/

/-- The ids of the sources a bound filter turns out to read when it is resolved. -/
def Filter.lateReadIds (find : String → Option Source) : Filter → List String
  | .parsed _ => []
  | .bound token =>
    let text := Text.trim (token.text find)
    if text = "" then []
    else match Expression.parse text with
      | .ok expr => expr.readIds
      | .error _ => []

/-- The ids of the sources the filters of a command turn out to read. -/
def ShowCommand.lateReadIds (find : String → Option Source) (command : ShowCommand) :
    List String :=
  command.faces.flatMap fun face => face.filter.toList.flatMap (Filter.lateReadIds find)

namespace Face

theorem filteredRows_congr (expr : Expr) (hsame : ∀ id ∈ expr.readIds, find id = other id)
    (source : Source) : filteredRows expr find source = filteredRows expr other source := by
  have hcaptured : (sortIds expr.readIds).filterMap find =
      (sortIds expr.readIds).filterMap other :=
    List.filterMap_congr fun id hid => hsame id (mem_sortIds.mp hid)
  rw [filteredRows, filteredRows, hcaptured]

variable {face : Face}

theorem resolveLevels_congr (hsame : ∀ id ∈ face.dependencies, find id = other id) :
    face.resolveLevels find = face.resolveLevels other := by
  rw [resolveLevels, resolveLevels]
  cases hlevel : face.level with
  | none => rfl
  | some token =>
      have htext : token.text find = token.text other := by
        refine token.text_congr fun id hid => hsame id ?_
        simp [dependencies, hlevel, mem_sortIds.mp hid]
      simp only [htext]

theorem resolveRowType_congr (hsame : ∀ id ∈ face.dependencies, find id = other id) :
    face.resolveRowType find = face.resolveRowType other := by
  rw [resolveRowType, resolveRowType]
  cases hrowType : face.rowType with
  | none => rfl
  | some token =>
      have htext : token.text find = token.text other := by
        refine token.text_congr fun id hid => hsame id ?_
        simp [dependencies, hrowType, mem_sortIds.mp hid]
      simp only [htext]

theorem resolveRows_congr (hsame : ∀ id ∈ face.dependencies, find id = other id)
    (hlate : ∀ id ∈ face.filter.toList.flatMap (Filter.lateReadIds find), find id = other id)
    (source : Source) : face.resolveRows find source = face.resolveRows other source := by
  rw [resolveRows, resolveRows]
  cases hfilter : face.filter with
  | none => rfl
  | some filter =>
      rw [hfilter, Option.toList_some, List.flatMap_singleton] at hlate
      have hknown : ∀ id ∈ filter.dependencies, find id = other id := by
        intro id hid
        refine hsame id ?_
        simp [dependencies, hfilter, hid]
      cases filter with
      | parsed expr =>
          have hread : ∀ id ∈ expr.readIds, find id = other id :=
            fun id hid => hknown id (mem_sortIds.mpr hid)
          simp only [filteredRows_congr expr hread]
      | bound token =>
          -- Only the text of the filter is covered by the dependencies. It is the same on both
          -- sides and so is the expression in it, but what that reads is late.
          have htext : token.text find = token.text other := token.text_congr hknown
          rw [Filter.lateReadIds] at hlate
          simp only [← htext]
          split
          · rfl
          · next hfilled =>
              rw [if_neg hfilled] at hlate
              cases hparse : Expression.parse (Text.trim (token.text find)) with
              | error error => rfl
              | ok expr =>
                  rw [hparse] at hlate
                  simp only [Except.map, filteredRows_congr expr hlate]

/-- A face is resolved the same over sources that agree on what it is known to read and what its
filter turns out to read. -/
theorem resolve_congr (hsame : ∀ id ∈ face.dependencies, find id = other id)
    (hlate : ∀ id ∈ face.filter.toList.flatMap (Filter.lateReadIds find), find id = other id)
    (source : Source) : face.resolve find source = face.resolve other source := by
  rw [resolve, resolve, resolveLevels_congr hsame, resolveRowType_congr hsame,
    resolveRows_congr hsame hlate]

end Face

namespace ShowCommand

variable {command : ShowCommand}

theorem resolveRowCount_congr (hsame : ∀ id ∈ command.dependencies, find id = other id) :
    command.resolveRowCount find = command.resolveRowCount other := by
  rw [resolveRowCount, resolveRowCount]
  cases hcount : command.rowCount with
  | none => rfl
  | some token =>
      have hvalue : token.value find = token.value other := by
        refine token.reads_ask.run_eq fun id hid => hsame id ?_
        have hcounted : id ∈ token.dependencies := mem_sortIds.mpr hid
        simp [dependencies, hcount, hcounted]
      simp only [hvalue]

theorem mapM_congr {f g : Face → Except Error ResolvedFace} {faces : List Face}
    (hfaces : ∀ face ∈ faces, f face = g face) : faces.mapM f = faces.mapM g := by
  induction faces with
  | nil => rw [List.mapM_nil, List.mapM_nil]
  | cons face rest ih =>
      rw [List.mapM_cons, List.mapM_cons, hfaces face List.mem_cons_self,
        ih fun face hface => hfaces face (List.mem_cons_of_mem _ hface)]

/-- A pass comes out the same over sources that agree on what the command registered for and on what
its filters turn out to read. -/
theorem refresh_congr (hsame : ∀ id ∈ command.dependencies, find id = other id)
    (hlate : ∀ id ∈ command.lateReadIds find, find id = other id) (pattern : Pattern)
    (markup : Markup) (source : Source) :
    command.refresh find pattern markup source = command.refresh other pattern markup source := by
  have hfaces : ∀ face ∈ command.faces, face.resolve find source = face.resolve other source := by
    intro face hface
    refine face.resolve_congr (fun id hid => hsame id ?_) (fun id hid => hlate id ?_) source
    · have hin : id ∈ command.faces.flatMap Face.dependencies :=
        List.mem_flatMap.mpr ⟨face, hface, hid⟩
      exact List.mem_append_left _ (List.mem_cons_of_mem _ hin)
    · exact List.mem_flatMap.mpr ⟨face, hface, hid⟩
  rw [refresh, refresh, mapM_congr hfaces, resolveRowCount_congr hsame]

end ShowCommand

/-! ## Passes -/

/-- All ids that the next pass depends on: those the command registered for and those its filters
turn out to read. -/
def Scene.readIds (site : Site) (scene : Scene) : List String :=
  scene.command.dependencies ++ scene.command.lateReadIds (scene.find site)

/-- What a pass shows, put so that the sources come in by lookups only. -/
theorem Scene.html_pass (site : Site) (scene : Scene) :
    (scene.pass site).html site =
      match scene.find site scene.command.sourceId with
      | none => scene.html site
      | some source =>
        match scene.command.refresh (scene.find site) site.pattern scene.markup source with
        | .error _ => scene.html site
        | .ok (markup, _, output) =>
          (markup.replaceChildren site.node output).html
            ((markup.replaceChildren site.node output).children site.node) := by
  rw [pass, snapshot?]
  cases scene.find site scene.command.sourceId with
  | none => rfl
  | some source =>
      dsimp only
      cases scene.command.refresh (scene.find site) site.pattern scene.markup source <;> rfl

theorem Scene.html_pass_congr {site : Site} {scene : Scene} {scopes : Scopes} {place : ScopeId}
    (hsame : ∀ id ∈ scene.readIds site, scene.find site id = scopes.find? place id) :
    (pass { site with scope := place } { scene with scopes }).html { site with scope := place } =
      (scene.pass site).html site := by
  obtain ⟨hknown, hlate⟩ := List.forall_mem_append.mp hsame
  rw [html_pass, html_pass, hknown _ List.mem_cons_self]
  have hfind : find { site with scope := place } { scene with scopes } = scopes.find? place := rfl
  simp only [ShowCommand.refresh_congr hknown hlate, hfind]
  rfl

/-- What a pass shows, whatever its cache, is the same in any two scopes that agree on the ids the
command registered for and on those its filters turn out to read. So after any history, setting a
source of another id anywhere does not change what a pass would show. -/
theorem html_depends_on_reads (site : Site) (scene : Scene) :
    (∀ (scopes : Scopes) (place : ScopeId),
      (∀ id ∈ scene.readIds site, scene.find site id = scopes.find? place id) →
      (Scene.pass { site with scope := place } { scene with scopes }).html
        { site with scope := place } = (scene.pass site).html site) ∧
    ∀ (direct : Scopes.Direct) (scope : ScopeId) (source : Source),
      Scopes.History scene.scopes direct → scope < scene.scopes.scopes.size →
      Unicode.lower source.id = source.id →
      source.id ∉ (scene.readIds site).map Unicode.lower →
      (Scene.pass site { scene with scopes := (scene.scopes.set scope source).1 }).html site =
        (scene.pass site).html site := by
  refine ⟨fun scopes place => Scene.html_pass_congr, ?_⟩
  intro direct scope source hhistory hlt hid hunread
  refine @Scene.html_pass_congr site scene _ site.scope fun id hread => ?_
  refine (hhistory.find?_set_of_ne hlt hid (fun hsame => hunread ?_) site.scope).symm
  exact List.mem_map.mpr ⟨id, hread, hsame⟩

/-! ## A list with a rule

The filter of its face is bound to a rule, which is a text in a source of its own.
-/

def ruledList : Markup := ⟨#[
  { kind := .element "ul" [("source", "db.items")], children := [1] },
  { kind := .element "face" [("filter", "[##ui.view.rule##]")], children := [2], parent := some 0 },
  { kind := .element "li" [], children := [3], parent := some 1 },
  { kind := .text "@v", parent := some 2 }]⟩

/-- The patterns that are used without options. -/
def usualPatterns : BindingPatterns :=
  match ({} : Options).patterns with
  | .ok patterns => patterns
  | .error _ => ⟨columnPattern, columnPattern, columnPattern⟩

def ruledSite : Site := ⟨0, 0, usualPatterns.row⟩

/-- The scene at which the list was read. -/
def unruledScene : Scene :=
  let reading := (ShowCommand.read usualPatterns .list 0).run ruledList
  { scopes := (Scopes.create {} none).1.hold 0
    markup := reading.2
    command := match reading.1 with
      | .ok (command, _) => command
      | .error _ => default }

/-- There are two items and a rule. -/
def ruledScene (rule : String) : Scene :=
  (unruledScene.put (itemSource none .replace [("1", "a"), ("2", "b")])).put
    (.make "ui.view" [[("rule", .string rule)]])

/-- What a user prefers not to see. -/
def hiddenItem (v : String) : Source := .make "ui.prefs" [[("hide", .string v)]]

theorem Scene.history_put {scene : Scene} {direct : Scopes.Direct}
    (h : Scopes.History scene.scopes direct) (hlt : 0 < scene.scopes.scopes.size)
    (hid : Unicode.lower source.id = source.id) :
    Scopes.History (scene.put source).scopes (direct.give 0 (scene.scopes.set 0 source).2) ∧
      0 < (scene.put source).scopes.scopes.size := by
  refine ⟨h.set hlt hid, ?_⟩
  change 0 < (scene.scopes.set 0 source).1.scopes.size
  rw [(h.settled.set_size hlt hid).1]
  exact hlt

theorem history_ruledScene (rule : String) :
    ∃ direct, Scopes.History (ruledScene rule).scopes direct ∧
      0 < (ruledScene rule).scopes.scopes.size := by
  obtain ⟨hitems, hthere⟩ := @Scene.history_put
    (itemSource none .replace [("1", "a"), ("2", "b")]) unruledScene _ (.root []) Nat.one_pos
    (Scopes.lower_id_make ..)
  exact ⟨_, Scene.history_put hitems hthere (Scopes.lower_id_make ..)⟩

/-- A rule that reads no source: what the user prefers does not matter. -/
theorem plain_rule_kept :
    (((ruledScene "v != 'a'").put (hiddenItem "b")).pass ruledSite).html ruledSite =
      ((ruledScene "v != 'a'").pass ruledSite).html ruledSite := by
  obtain ⟨direct, hhistory, hthere⟩ := history_ruledScene "v != 'a'"
  exact (html_depends_on_reads ruledSite _).2 direct 0 (hiddenItem "b") hhistory hthere
    (Scopes.lower_id_make ..) (by decide +kernel)

/-- With a rule that reads a source, the command does not register for that source, although what
a pass without a cache shows depends on it. -/
theorem late_read_unseen : ∃ (scene : Scene) (direct : Scopes.Direct),
    Scopes.History scene.scopes direct ∧ scene.command.dependencies = ["db.items", "ui.view"] ∧
    (∀ id ∈ scene.command.dependencies,
      scene.find ruledSite id = (scene.put (hiddenItem "a")).find ruledSite id) ∧
    (scene.afresh.pass ruledSite).html ruledSite = "<li>a</li><li>b</li>" ∧
    ((scene.put (hiddenItem "a")).afresh.pass ruledSite).html ruledSite = "<li>b</li>" := by
  obtain ⟨direct, hhistory, hthere⟩ := history_ruledScene "v != ui.prefs.hide"
  have hids : (ruledScene "v != ui.prefs.hide").command.dependencies = ["db.items", "ui.view"] := by
    decide +kernel
  refine ⟨_, direct, hhistory, hids, fun id hid => ?_, by decide +kernel, by decide +kernel⟩
  have hother : ∀ id ∈ ["db.items", "ui.view"], Unicode.lower id ≠ (hiddenItem "a").id := by
    decide +kernel
  exact (hhistory.find?_set_of_ne hthere (Scopes.lower_id_make ..) (hother id (hids ▸ hid)) 0).symm

end ReactiveMarkup
