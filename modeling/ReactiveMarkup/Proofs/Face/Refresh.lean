import ReactiveMarkup.Component.Basic
import ReactiveMarkup.Proofs.Face.Faithful

/-!
# Refreshing a command

A refresh is a pass in the layout of the command. Whatever the cache of the command holds, as long as
its pots stand and are steady for the rows that are shown now, the output has the shapes of the sketch,
and the new cache has pots of its own. `Kept` is what holds of a command between two refreshes.
-/

namespace ReactiveMarkup

open Plot Pot

/-- The templates an arrangement has beside the faces. -/
def Arrangement.sections : Arrangement → List NodeId
  | .list _ divider incomplete => divider ++ incomplete
  | _ => []

namespace ShowCommand

/-- The nodes of all templates of a command. -/
def templates (command : ShowCommand) : List NodeId :=
  command.faces.flatMap Face.template ++ command.layout.wrapper ++ command.layout.empty
    ++ command.arrangement.sections

/-- What a refresh is meant to show, unless a condition of a face is in error. -/
def sketch (command : ShowCommand) (pattern : Pattern) (form : NodeId → Shape)
    (find : String → Option Source) (source : Source) : Except Error Sketch :=
  (command.faces.mapM (Face.resolve · find source)).map fun faces =>
    { faces, pattern, form, source }

/-- The rows a sketch shows in the arrangement of a command, and what it gives in the layout. -/
def arranged (command : ShowCommand) (find : String → Option Source) (sketch : Sketch) :
    List Showing × List Shape :=
  let (done, rows) := sketch.arrange command.arrangement (command.resolveRowCount find)
  (done, sketch.render command.layout rows)

/-- A command without a cache. -/
def afresh (command : ShowCommand) : ShowCommand := { command with cache := {} }

/-- What holds of a command between two refreshes: its slots have pots, which stand beside the plots
its templates belong to. -/
structure Kept (pattern : Pattern) (form : NodeId → Shape) (rest : List Plot)
    (command : ShowCommand) (markup : Markup) (pots : List Pot) : Prop where
  slots : List.Forall₂ (Holds pattern form) command.cache.slots pots
  templates : Rooted form rest command.templates
  garden : Garden markup (keptIn pots ++ rest)

end ShowCommand

variable {pattern : Pattern} {form : NodeId → Shape} {rest : List Plot} {command : ShowCommand}
  {markup : Markup} {pots : List Pot}

theorem Rooted.of_subset {template others : List NodeId} (h : Rooted form rest others)
    (hsub : template ⊆ others) : Rooted form rest template := fun id hid => h id (hsub hid)

theorem resolve_face {face : Face} {find : String → Option Source} {source : Source}
    {resolved : ResolvedFace} (h : face.resolve find source = .ok resolved) :
    resolved.face = face := by
  rw [Face.resolve] at h
  cases hrowType : face.resolveRowType find with
  | error error =>
      rw [hrowType] at h
      cases h
  | ok rowType =>
      cases hrows : face.resolveRows find source with
      | error error =>
          rw [hrowType, hrows] at h
          cases h
      | ok rows =>
          rw [hrowType, hrows] at h
          cases h
          rfl

/-- Faces are resolved one by one, each from itself. -/
theorem mapM_resolve_face {find : String → Option Source} {source : Source} :
    ∀ {faces : List Face} {resolved : List ResolvedFace},
      faces.mapM (Face.resolve · find source) = .ok resolved →
      resolved.map ResolvedFace.face = faces
  | [], resolved, h => by
      cases h
      rfl
  | face :: faces, resolved, h => by
      rw [List.mapM_cons] at h
      cases hface : face.resolve find source with
      | error error =>
          rw [hface] at h
          cases h
      | ok first =>
          cases hmore : faces.mapM (Face.resolve · find source) with
          | error error =>
              rw [hface, hmore] at h
              cases h
          | ok more =>
              rw [hface, hmore] at h
              cases h
              rw [List.map_cons, mapM_resolve_face hmore, resolve_face hface]

theorem ShowCommand.sketch_ok {find : String → Option Source} {source : Source} {sketch : Sketch}
    (h : command.sketch pattern form find source = .ok sketch) :
    sketch.pattern = pattern ∧ sketch.form = form ∧ sketch.source = source ∧
      sketch.faces.map ResolvedFace.face = command.faces := by
  rw [ShowCommand.sketch] at h
  cases hresolved : command.faces.mapM (Face.resolve · find source) with
  | error error =>
      rw [hresolved] at h
      cases h
  | ok resolved =>
      rw [hresolved] at h
      cases h
      exact ⟨rfl, rfl, rfl, mapM_resolve_face hresolved⟩

/-- Rows in a layout stand around the rows. -/
theorem layout_plots (sketch : Sketch) {layout : Layout} {outs : List Plot}
    (hwrapper : Rooted sketch.form rest layout.wrapper)
    (hempty : Rooted sketch.form rest layout.empty) (h : Garden markup (outs ++ rest)) :
    ∃ finals, (layout.render markup (outs.map root)).2 = finals.map root ∧
      shapes finals = sketch.render layout (shapes outs) ∧ (AreWhole outs → AreWhole finals) ∧
      Garden (layout.render markup (outs.map root)).1 (finals ++ rest) ∧ Covers finals outs := by
  rw [Layout.render, Sketch.render]
  cases outs with
  | nil =>
      obtain ⟨copies, hnodes, hshapes, hcopies, hgarden⟩ := h.copyAll hempty
      exact ⟨copies, hnodes.symm, hshapes, fun _ => hcopies, hgarden,
        Covers.of_sublist (List.nil_sublist _)⟩
  | cons out more =>
      rw [List.map_cons, List.isEmpty_cons, Plot.shapes, List.isEmpty_cons, ← List.map_cons,
        ← Plot.shapes]
      cases hnone : layout.wrapper.isEmpty with
      | true => exact ⟨out :: more, rfl, rfl, id, h, Covers.refl _⟩
      | false =>
          obtain ⟨copies, hnodes, hshapes, hcopies, hgarden⟩ :=
            h.copyAll (hwrapper.mono (List.subset_append_right _ _))
          obtain ⟨hroots, hnested⟩ := Garden.nest hcopies (Covers.openIn copies _ _ hgarden)
          rw [hnodes] at hroots hnested
          refine ⟨Plot.nest copies (out :: more), hroots, ?_, fun hwhole => AreWhole.nest hcopies hwhole,
            hnested, (Covers.nest copies (out :: more)).trans
              (Covers.of_sublist (List.sublist_append_right _ _))⟩
          rw [shapes_nest, hshapes]
          rfl

namespace ShowCommand

theorem template_subset_templates {face : Face} (hface : face ∈ command.faces) :
    face.template ⊆ command.templates := by
  intro id hid
  simp only [ShowCommand.templates, List.mem_append, List.mem_flatMap]
  exact .inl (.inl (.inl ⟨face, hface, hid⟩))

theorem sections_subset_templates {levels : List String} {divider incomplete : List NodeId}
    (hlist : command.arrangement = .list levels divider incomplete) :
    divider ⊆ command.templates ∧ incomplete ⊆ command.templates := by
  refine List.append_subset.mp fun id hid => ?_
  simp only [ShowCommand.templates, hlist, Arrangement.sections, List.mem_append] at hid ⊢
  exact .inr hid

theorem Kept.facesRooted (h : Kept pattern form rest command markup pots)
    {find : String → Option Source} {source : Source} {resolved : List ResolvedFace}
    (hresolved : command.faces.mapM (Face.resolve · find source) = .ok resolved) :
    Pass.FacesRooted ⟨resolved, pattern, form, source⟩ rest := by
  intro face hface
  refine h.templates.of_subset (template_subset_templates ?_)
  rw [← mapM_resolve_face hresolved]
  exact List.mem_map_of_mem hface

/-- A refresh changes nothing of a command but its cache. -/
theorem refresh_command {find : String → Option Source} {source : Source} {changed : Markup}
    {after : ShowCommand} {output : List NodeId}
    (h : command.refresh find pattern markup source = .ok (changed, after, output)) :
    ∃ cache, after = { command with cache } := by
  rw [ShowCommand.refresh] at h
  cases hresolved : command.faces.mapM (Face.resolve · find source) with
  | error error =>
      rw [hresolved] at h
      cases h
  | ok resolved =>
      rw [hresolved] at h
      cases h
      exact ⟨_, rfl⟩

/-- The sections of a list are among the templates of its command. -/
theorem Kept.sections (h : Kept pattern form rest command markup pots) {levels : List String}
    {divider incomplete : List NodeId}
    (hlist : command.arrangement = .list levels divider incomplete) :
    Rooted form rest divider ∧ Rooted form rest incomplete := by
  obtain ⟨hdivider, hincomplete⟩ := sections_subset_templates hlist
  exact ⟨h.templates.of_subset hdivider, h.templates.of_subset hincomplete⟩

/-- At the beginning of a pass the slots have the pots that were kept. -/
theorem Kept.tended (h : Kept pattern form rest command markup pots) (resolved : List ResolvedFace)
    (source : Source) : Tended ⟨resolved, pattern, form, source⟩ [] pots
      (Pass.start resolved pattern markup command.cache) :=
  ⟨rfl, rfl, rfl, rfl, .nil, h.slots⟩

/-- A refresh shows what its pass comes to, and keeps the command. -/
theorem Kept.refresh_of_stretch (h : Kept pattern form rest command markup pots)
    {find : String → Option Source} {source : Source} {resolved : List ResolvedFace}
    (hresolved : command.faces.mapM (Face.resolve · find source) = .ok resolved)
    {new left : List Pot} {outs : List Plot}
    (hstretch : Stretch ⟨resolved, pattern, form, source⟩ [] pots rest
      ((Pass.start resolved pattern markup command.cache).arrange command.arrangement
        (command.resolveRowCount find) source).1
      ((Pass.start resolved pattern markup command.cache).arrange command.arrangement
        (command.resolveRowCount find) source).2 new left outs) :
    ∃ changed cache finals,
      command.refresh find pattern markup source =
        .ok (changed, { command with cache }, finals.map root) ∧
      shapes finals =
        Sketch.render ⟨resolved, pattern, form, source⟩ command.layout (shapes outs) ∧
      (AreWhole outs → AreWhole finals) ∧ Garden changed (finals ++ rest) ∧
      Covers finals (keptIn new) ∧ List.Forall₂ (Holds pattern form) cache.slots new := by
  have hwrapper : Rooted form rest command.layout.wrapper :=
    h.templates.of_subset fun id hid => by simp [ShowCommand.templates, hid]
  have hempty : Rooted form rest command.layout.empty :=
    h.templates.of_subset fun id hid => by simp [ShowCommand.templates, hid]
  obtain ⟨finals, hnodes, hshapes, hwhole, hgarden, hcovers⟩ := layout_plots
    ⟨resolved, pattern, form, source⟩ hwrapper hempty
    (hstretch.garden.sublist ((List.Sublist.refl _).append (List.sublist_append_right _ _)))
  rw [← hstretch.nodes] at hnodes hgarden
  refine ⟨_, ((Pass.start resolved pattern markup command.cache).arrange command.arrangement
    (command.resolveRowCount find) source).1.cache, finals, ?_, hshapes, hwhole, hgarden,
    hcovers.trans hstretch.covers, ?_⟩
  · rw [ShowCommand.refresh, hresolved, ← hnodes]
    rfl
  · have hnext := hstretch.tended.next
    rwa [List.append_nil] at hnext

/-- A refresh shows what its pass yields. -/
theorem Kept.refresh_of_yield (h : Kept pattern form rest command markup pots)
    {find : String → Option Source} {source : Source} {resolved : List ResolvedFace}
    (hresolved : command.faces.mapM (Face.resolve · find source) = .ok resolved)
    {done : List Showing} {rows : List Shape} {new left : List Pot} {outs : List Plot}
    (hyield : Yield ⟨resolved, pattern, form, source⟩ [] pots rest
      ((Pass.start resolved pattern markup command.cache).arrange command.arrangement
        (command.resolveRowCount find) source).1 done
      ((Pass.start resolved pattern markup command.cache).arrange command.arrangement
        (command.resolveRowCount find) source).2 rows new left outs) :
    ∃ changed cache finals,
      command.refresh find pattern markup source =
        .ok (changed, { command with cache }, finals.map root) ∧
      shapes finals =
        Sketch.render ⟨resolved, pattern, form, source⟩ command.layout rows ∧
      AreWhole finals ∧ Garden changed (finals ++ rest) ∧ Covers finals (keptIn new) ∧
      List.Forall₂ (Holds pattern form) cache.slots new ∧ new.map Pot.showing = done := by
  obtain ⟨changed, cache, finals, hrefresh, hshapes, hwhole, hgarden, hcovers, hslots⟩ :=
    h.refresh_of_stretch hresolved hyield.stretch
  have hdone := hyield.done
  rw [List.append_nil] at hdone
  rw [hyield.shapes] at hshapes
  exact ⟨changed, cache, finals, hrefresh, hshapes, hwhole hyield.whole, hgarden, hcovers, hslots,
    hdone.symm⟩

/-- A refresh shows its sketch, and keeps the command. -/
theorem Kept.refresh (h : Kept pattern form rest command markup pots)
    {find : String → Option Source} {source : Source} {sketch : Sketch}
    (hsketch : command.sketch pattern form find source = .ok sketch)
    (hsteady : Pass.SteadyFor sketch pots (command.arranged find sketch).1) :
    ∃ changed cache finals new,
      command.refresh find pattern markup source =
        .ok (changed, { command with cache }, finals.map root) ∧
      shapes finals = (command.arranged find sketch).2 ∧
      AreWhole finals ∧ Garden changed (finals ++ rest) ∧ Covers finals (keptIn new) ∧
      List.Forall₂ (Holds pattern form) cache.slots new ∧
      new.map Pot.showing = (command.arranged find sketch).1 := by
  rw [ShowCommand.sketch] at hsketch
  cases hresolved : command.faces.mapM (Face.resolve · find source) with
  | error error =>
      rw [hresolved] at hsketch
      cases hsketch
  | ok resolved =>
      rw [hresolved] at hsketch
      obtain rfl : (⟨resolved, pattern, form, source⟩ : Sketch) = sketch := Except.ok.inj hsketch
      obtain ⟨new, left, outs, hyield⟩ := Pass.arrange_yields (h.tended resolved source)
        (h.facesRooted hresolved) (fun levels divider incomplete => h.sections) h.garden hsteady
      obtain ⟨changed, cache, finals, hfacts⟩ := h.refresh_of_yield hresolved hyield
      exact ⟨changed, cache, finals, new, hfacts⟩

end ShowCommand

end ReactiveMarkup
