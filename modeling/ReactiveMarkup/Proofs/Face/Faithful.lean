import ReactiveMarkup.Proofs.Face.Yield

/-!
# Arrangements show their sketches

One theorem for each way to lay rows out: from a pass that is tended, the arrangement gives what the
sketch of it says. The inductions are over the indexes of a list, over the bound and the rows of a
tree, and over the groups of a view, as in the definitions.

What is asked of the slots of the pass before is asked only about rows that this pass really shows.
A sketch lists them with the last one first, and going on with a pass only puts more of them in front,
so what is known at the end is known at every row.
-/

namespace ReactiveMarkup

open Plot Pot

namespace Sketch

/-! ## Rows that were shown stay shown -/

/-- Rows shown one after another, each in one of the roles that are given: a group, and whether
content is nested in the row. -/
inductive Adds (sketch : Sketch) (role : String → Bool → Prop) :
    List Showing → List Showing → Prop
  | none {done : List Showing} : Adds sketch role done done
  | row {done final : List Showing} {showing : Showing} {group : String} {nests : Bool} {index : Nat}
      {levels : List String} (of : role group nests)
      (shown : sketch.showRow group nests done index levels = some showing)
      (rest : Adds sketch role (showing :: done) final) : Adds sketch role done final

variable {sketch : Sketch} {role : String → Bool → Prop} {done middle final : List Showing}

theorem Adds.trans (h : Adds sketch role done middle) (hnext : Adds sketch role middle final) :
    Adds sketch role done final := by
  induction h with
  | none => exact hnext
  | row of shown _ ih => exact .row of shown (ih hnext)

theorem Adds.suffix (h : Adds sketch role done final) : done <:+ final := by
  induction h with
  | none => exact List.suffix_refl _
  | row _ _ _ ih => exact (List.suffix_cons _ _).trans ih

theorem Adds.mem (h : Adds sketch role done final) {showing : Showing} (hshowing : showing ∈ final) :
    showing ∈ done ∨ ∃ group nests before index levels, role group nests ∧
      sketch.showRow group nests before index levels = some showing := by
  induction h with
  | none => exact .inl hshowing
  | row of shown _ ih =>
      rcases ih hshowing with hin | hfound
      · rcases List.mem_cons.mp hin with rfl | hin
        · exact .inr ⟨_, _, _, _, _, of, shown⟩
        · exact .inl hin
      · exact .inr hfound

/-- What a row is shown with comes from an entry of the source and a face. -/
theorem showRow_facts {group : String} {nests : Bool} {index : Nat} {levels : List String}
    {showing : Showing} (h : sketch.showRow group nests done index levels = some showing) :
    showing.nests = nests ∧ showing.name.group = group ∧
      (∃ entry ∈ sketch.source.entries, showing.row = entry.row ∧ showing.version = entry.version ∧
        showing.name.key = Source.keyOfRow sketch.source.options.keyField entry.row) ∧
      ∃ resolved ∈ sketch.faces, showing.face = resolved.face := by
  rw [showRow] at h
  split at h
  · cases h
  · next entry hentry =>
      dsimp only at h
      split at h
      · cases h
      · next resolved hface =>
          obtain ⟨position, -, hat⟩ := Option.bind_eq_some_iff.mp hface
          cases h
          exact ⟨rfl, rfl, ⟨entry, List.mem_of_getElem? hentry, rfl, rfl, rfl⟩,
            resolved, List.mem_of_getElem? hat, rfl⟩

theorem listRows_adds (levels : List String) (divider : List NodeId) (rowCount : Nat)
    (hrole : role "" false) (indexes : List Nat) (done : List Showing) (shown : Nat) :
    Adds sketch role done (sketch.listRows levels divider rowCount done shown indexes).1 := by
  induction indexes generalizing done shown with
  | nil => exact .none
  | cons index rest ih =>
      rw [listRows]
      cases hrow : sketch.showRow "" false done index levels with
      | none => exact ih done shown
      | some showing => exact .row hrole hrow (ih (showing :: done) (shown + 1))

mutual

theorem treeRow_adds (shape : TreeShape) (hrole : role "" true) : ∀ (fuel : Nat)
    (done : List Showing) (met : List Nat) (depth index : Nat),
    Adds sketch role done (sketch.treeRow shape fuel done met depth index).1
  | 0, done, met, depth, index => by
      rw [treeRow]
      exact .none
  | fuel + 1, done, met, depth, index => by
      rw [treeRow]
      split
      · exact .none
      · dsimp only
        split
        · exact .none
        · next hrow => exact .row hrole hrow (treeRows_adds shape hrole fuel _ _ _ _)

theorem treeRows_adds (shape : TreeShape) (hrole : role "" true) : ∀ (fuel : Nat)
    (done : List Showing) (met : List Nat) (depth : Nat) (indexes : List Nat),
    Adds sketch role done (sketch.treeRows shape fuel done met depth indexes).1
  | _, done, met, depth, [] => by
      rw [treeRows]
      exact .none
  | fuel, done, met, depth, index :: rest => by
      rw [treeRows]
      exact (treeRow_adds shape hrole fuel _ _ _ _).trans
        (treeRows_adds shape hrole fuel _ _ _ rest)

end

theorem memberRows_adds (group : String) (hrole : role group false) (indexes : List Nat)
    (done : List Showing) : Adds sketch role done (sketch.memberRows group done indexes).1 := by
  induction indexes generalizing done with
  | nil => exact .none
  | cons index rest ih =>
      rw [memberRows]
      cases hrow : sketch.showRow group false done index ["2"] with
      | none => exact ih done
      | some showing => exact .row hrole hrow (ih (showing :: done))

theorem viewGroups_adds (hheader : role Pass.headerGroup true) (groups : List (String × List Nat))
    (hrole : ∀ group ∈ groups, role group.1 false) (done : List Showing) :
    Adds sketch role done (sketch.viewGroups done groups).1 := by
  induction groups generalizing done with
  | nil => exact .none
  | cons group rest ih =>
      obtain ⟨name, members⟩ := group
      have hmembers : ∀ done, Adds sketch role done (sketch.memberRows name done members).1 :=
        memberRows_adds name (hrole _ List.mem_cons_self) members
      have hrest := ih fun group hgroup => hrole group (List.mem_cons_of_mem _ hgroup)
      rw [viewGroups]
      cases hrow : sketch.showRow Pass.headerGroup true done (members.headD 0) ["1"] with
      | none => exact (hmembers done).trans (hrest _)
      | some header => exact .row hheader hrow ((hmembers _).trans (hrest _))

theorem listRows_suffix (sketch : Sketch) (levels : List String) (divider : List NodeId)
    (rowCount : Nat) (indexes : List Nat) (done : List Showing) (shown : Nat) :
    done <:+ (sketch.listRows levels divider rowCount done shown indexes).1 :=
  (listRows_adds levels divider rowCount trivial indexes done shown :
    Adds sketch (fun _ _ => True) _ _).suffix

theorem treeRows_suffix (sketch : Sketch) (shape : TreeShape) (fuel : Nat) (done : List Showing)
    (met : List Nat) (depth : Nat) (indexes : List Nat) :
    done <:+ (sketch.treeRows shape fuel done met depth indexes).1 :=
  (treeRows_adds shape trivial fuel done met depth indexes :
    Adds sketch (fun _ _ => True) _ _).suffix

theorem memberRows_suffix (sketch : Sketch) (group : String) (indexes : List Nat)
    (done : List Showing) : done <:+ (sketch.memberRows group done indexes).1 :=
  (memberRows_adds group trivial indexes done : Adds sketch (fun _ _ => True) _ _).suffix

theorem viewGroups_suffix (sketch : Sketch) (groups : List (String × List Nat))
    (done : List Showing) : done <:+ (sketch.viewGroups done groups).1 :=
  (viewGroups_adds trivial groups (fun _ _ => trivial) done :
    Adds sketch (fun _ _ => True) _ _).suffix

/-- The roles rows have in an arrangement of a source. -/
def Role (arrangement : Arrangement) (source : Source) (group : String) (nests : Bool) : Prop :=
  match arrangement with
  | .list .. => group = "" ∧ nests = false
  | .tree .. => group = "" ∧ nests = true
  | .view groupField =>
    group = Pass.headerGroup ∧ nests = true ∨
      group ∈ (groupRows groupField source).map Prod.fst ∧ nests = false

theorem arrange_adds (sketch : Sketch) (arrangement : Arrangement) (rowCount : Nat) :
    Adds sketch (Role arrangement sketch.source) [] (sketch.arrange arrangement rowCount).1 := by
  cases arrangement with
  | list levels divider incomplete =>
      have hrows : Adds sketch (Role (.list levels divider incomplete) sketch.source) []
          (sketch.listRows levels divider rowCount [] 0 (List.range sketch.source.size)).1 :=
        listRows_adds levels divider rowCount ⟨rfl, rfl⟩ _ _ _
      rw [arrange, arrangeList]
      dsimp only
      split
      · exact hrows
      · exact hrows
  | tree parentField keyField => exact treeRows_adds _ ⟨rfl, rfl⟩ _ _ _ _ _
  | view groupField =>
      exact viewGroups_adds (.inl ⟨rfl, rfl⟩) _
        (fun group hgroup => .inr ⟨List.mem_map_of_mem hgroup, rfl⟩) []

end Sketch

namespace Pass

variable {sketch : Sketch} {grown waiting : List Pot} {rest : List Plot} {pass : Pass}

/-- What was shown before is steady for what is shown now. -/
def SteadyFor (sketch : Sketch) (waiting : List Pot) (done : List Showing) : Prop :=
  ∀ pot ∈ waiting, ∀ showing ∈ done, Steady sketch.pattern sketch.form pot.showing showing

theorem SteadyFor.mono {left : List Pot} {done earlier : List Showing}
    (h : SteadyFor sketch waiting done) (hleft : left.Sublist waiting) (hearlier : earlier <:+ done) :
    SteadyFor sketch left earlier :=
  fun pot hpot showing hshowing =>
    h pot (hleft.subset hpot) showing (hearlier.subset hshowing)

theorem SteadyFor.head {done earlier : List Showing} {showing : Showing}
    (h : SteadyFor sketch waiting done) (hearlier : (showing :: earlier) <:+ done) :
    ∀ pot ∈ waiting, Steady sketch.pattern sketch.form pot.showing showing :=
  fun pot hpot => h pot hpot showing (hearlier.subset List.mem_cons_self)

/-- All faces of a sketch have their templates among some plots. -/
def FacesRooted (sketch : Sketch) (rest : List Plot) : Prop :=
  ∀ resolved ∈ sketch.faces, Rooted sketch.form rest resolved.face.template

theorem FacesRooted.append (h : FacesRooted sketch rest) (plots : List Plot) :
    FacesRooted sketch (plots ++ rest) :=
  fun resolved hmem => (h resolved hmem).mono (List.subset_append_right _ _)

/-! ## Lists -/

theorem listRows_yields (levels : List String) {divider : List NodeId} (rowCount shown : Nat)
    (indexes : List Nat) {grown waiting : List Pot} {rest : List Plot} {pass : Pass}
    (h : Tended sketch grown waiting pass) (hroots : FacesRooted sketch rest)
    (hdivider : Rooted sketch.form rest divider)
    (hgarden : Garden pass.markup (keptIn waiting ++ rest))
    (hsteady : SteadyFor sketch waiting
      (sketch.listRows levels divider rowCount (grown.map Pot.showing) shown indexes).1) :
    (listRows levels divider rowCount sketch.source pass shown indexes).2.1 =
        (sketch.listRows levels divider rowCount (grown.map Pot.showing) shown indexes).2.1 ∧
      Yields sketch grown waiting rest
        (listRows levels divider rowCount sketch.source pass shown indexes).1
        (sketch.listRows levels divider rowCount (grown.map Pot.showing) shown indexes).1
        (listRows levels divider rowCount sketch.source pass shown indexes).2.2
        (sketch.listRows levels divider rowCount (grown.map Pot.showing) shown indexes).2.2 := by
  induction indexes generalizing grown waiting rest pass shown with
  | nil => exact ⟨rfl, _, _, _, Yield.nothing h hgarden⟩
  | cons index more ih =>
      rw [Sketch.listRows] at hsteady ⊢
      rw [listRows]
      cases hrow : sketch.showRow "" false (grown.map Pot.showing) index levels with
      | none =>
          obtain ⟨after, hpass, htended, hmarkup⟩ := renderRow_none h hrow
          rw [hrow] at hsteady
          rw [hpass]
          exact ih shown htended hroots hdivider (hmarkup ▸ hgarden) hsteady
      | some showing =>
          rw [hrow] at hsteady
          dsimp only at hsteady ⊢
          have hsuffix := sketch.listRows_suffix levels divider rowCount more
            (showing :: grown.map Pot.showing) (shown + 1)
          obtain ⟨hnests, after, rendering, pot, left, hpass, hshows⟩ :=
            renderRow_some h hrow hroots hgarden (hsteady.head hsuffix)
          obtain rfl := hshows.is
          have hfirst := hshows.yield hnests
          have hcopies : ∃ plots, Yield sketch (pot :: grown) left (pot.plots ++ rest)
              (if 0 < rowCount && 0 < shown && shown % rowCount == 0 then after.copyAll divider
                else (after, [])).1
              ((pot :: grown).map Pot.showing)
              (if 0 < rowCount && 0 < shown && shown % rowCount == 0 then after.copyAll divider
                else (after, [])).2
              (if 0 < rowCount && 0 < shown && shown % rowCount == 0 then divider.map sketch.form
                else []) [] left plots := by
            split
            · exact Yield.copyAll hshows.tended (hdivider.mono (List.subset_append_right _ _))
                hfirst.garden.swap
            · exact ⟨[], Yield.nothing hshows.tended hfirst.garden.swap⟩
          obtain ⟨plots, hbefore⟩ := hcopies
          have hboth := hfirst.prepend hbefore
          rw [hpass]
          obtain ⟨htotal, new, remaining, outs, hmore⟩ := ih (shown + 1) hboth.tended (hroots.append _)
            (hdivider.mono (List.subset_append_right _ _)) hboth.garden.swap
            (hsteady.mono hboth.remaining (List.suffix_refl _))
          exact ⟨htotal, _, _, _, hboth.append hmore⟩

theorem copies_yields {template : List NodeId} (n : Nat) {waiting : List Pot} {rest : List Plot}
    {pass : Pass} (h : Tended sketch grown waiting pass) (hroots : Rooted sketch.form rest template)
    (hgarden : Garden pass.markup (keptIn waiting ++ rest)) :
    ∃ outs, Yield sketch grown waiting rest (pass.copies template n).1 (grown.map Pot.showing)
      (pass.copies template n).2 (sketch.copies template n) [] waiting outs := by
  induction n generalizing rest pass with
  | zero => exact ⟨[], Yield.nothing h hgarden⟩
  | succ n ih =>
      obtain ⟨first, hfirst⟩ := Yield.copyAll h hroots hgarden
      obtain ⟨more, hmore⟩ := ih hfirst.tended (hroots.mono (List.subset_append_right _ _))
        hfirst.garden.swap
      exact ⟨_, hfirst.append hmore⟩

/-- A list shows its sketch. -/
theorem arrangeList_yields {levels : List String} {divider incomplete : List NodeId}
    {rowCount : Nat} (h : Tended sketch [] waiting pass) (hroots : FacesRooted sketch rest)
    (hdivider : Rooted sketch.form rest divider) (hincomplete : Rooted sketch.form rest incomplete)
    (hgarden : Garden pass.markup (keptIn waiting ++ rest))
    (hsteady : SteadyFor sketch waiting (sketch.arrangeList levels divider incomplete rowCount).1) :
    Yields sketch [] waiting rest
      (pass.arrangeList levels divider incomplete rowCount sketch.source).1
      (sketch.arrangeList levels divider incomplete rowCount).1
      (pass.arrangeList levels divider incomplete rowCount sketch.source).2
      (sketch.arrangeList levels divider incomplete rowCount).2 := by
  rw [Sketch.arrangeList] at hsteady ⊢
  rw [arrangeList]
  have hrows := listRows_yields levels rowCount 0 (List.range sketch.source.size) h hroots hdivider
    hgarden
  rcases hsketch : sketch.listRows levels divider rowCount [] 0 (List.range sketch.source.size) with
    ⟨done, total, shapes⟩
  rcases hpass : listRows levels divider rowCount sketch.source pass 0
    (List.range sketch.source.size) with ⟨after, shown, nodes⟩
  rw [List.map_nil, hsketch, hpass] at hrows
  rw [hsketch] at hsteady
  dsimp only at hrows hsteady ⊢
  cases hempty : incomplete.isEmpty with
  | true =>
      rw [hempty] at hsteady
      exact (hrows hsteady).2
  | false =>
      rw [hempty] at hsteady
      obtain ⟨rfl, new, left, outs, hyield⟩ := hrows hsteady
      obtain ⟨padding, hpadding⟩ := copies_yields (missing rowCount shown) hyield.tended
        (hincomplete.mono (List.subset_append_right _ _)) hyield.garden.swap
      have hall := hyield.append hpadding
      rw [← hyield.done] at hall
      exact ⟨_, _, _, hall⟩

/-! ## Trees -/

mutual

theorem treeRow_yields (shape : TreeShape) : ∀ (fuel : Nat) {grown waiting : List Pot}
    {rest : List Plot} {pass : Pass} (met : List Nat) (depth index : Nat),
    Tended sketch grown waiting pass → FacesRooted sketch rest →
    Garden pass.markup (keptIn waiting ++ rest) →
    SteadyFor sketch waiting
      (sketch.treeRow shape fuel (grown.map Pot.showing) met depth index).1 →
    (treeRow shape sketch.source fuel pass met depth index).2.1 =
        (sketch.treeRow shape fuel (grown.map Pot.showing) met depth index).2.1 ∧
      Yields sketch grown waiting rest (treeRow shape sketch.source fuel pass met depth index).1
        (sketch.treeRow shape fuel (grown.map Pot.showing) met depth index).1
        (treeRow shape sketch.source fuel pass met depth index).2.2
        (sketch.treeRow shape fuel (grown.map Pot.showing) met depth index).2.2
  | 0, grown, waiting, rest, pass, met, depth, index, h, _, hgarden, _ => by
      rw [treeRow, Sketch.treeRow]
      exact ⟨rfl, _, _, _, Yield.nothing h hgarden⟩
  | fuel + 1, grown, waiting, rest, pass, met, depth, index, h, hroots, hgarden, hsteady => by
      rw [Sketch.treeRow] at hsteady ⊢
      rw [treeRow]
      cases hmet : met.contains index with
      | true => exact ⟨rfl, _, _, _, Yield.nothing h hgarden⟩
      | false =>
          rw [hmet] at hsteady
          dsimp only [Bool.false_eq_true, if_false] at hsteady ⊢
          cases hrow : sketch.showRow "" true (grown.map Pot.showing) index
              [toString depth, if (shape.childrenOf index).isEmpty then "leaf" else "parent"] with
          | none =>
              obtain ⟨after, hpass, htended, hmarkup⟩ := renderRow_none h hrow
              rw [hpass]
              exact ⟨rfl, _, _, _, Yield.nothing htended (hmarkup ▸ hgarden)⟩
          | some showing =>
              rw [hrow] at hsteady
              dsimp only at hsteady
              obtain ⟨hnests, after, rendering, pot, left, hpass, hshows⟩ :=
                renderRow_some h hrow hroots hgarden
                  (hsteady.head (sketch.treeRows_suffix shape fuel _ _ _ _))
              obtain rfl := hshows.is
              obtain ⟨hmore, new, remaining, outs, hinner⟩ := treeRows_yields shape fuel
                (index :: met) (depth + 1) (shape.childrenOf index) hshows.tended (hroots.append pot.kept)
                hshows.garden.swap (hsteady.mono hshows.remaining (List.suffix_refl _))
              rw [hpass]
              exact ⟨hmore, _, _, _, hshows.nest hnests hinner⟩

theorem treeRows_yields (shape : TreeShape) : ∀ (fuel : Nat) {grown waiting : List Pot}
    {rest : List Plot} {pass : Pass} (met : List Nat) (depth : Nat) (indexes : List Nat),
    Tended sketch grown waiting pass → FacesRooted sketch rest →
    Garden pass.markup (keptIn waiting ++ rest) →
    SteadyFor sketch waiting
      (sketch.treeRows shape fuel (grown.map Pot.showing) met depth indexes).1 →
    (treeRows shape sketch.source fuel pass met depth indexes).2.1 =
        (sketch.treeRows shape fuel (grown.map Pot.showing) met depth indexes).2.1 ∧
      Yields sketch grown waiting rest (treeRows shape sketch.source fuel pass met depth indexes).1
        (sketch.treeRows shape fuel (grown.map Pot.showing) met depth indexes).1
        (treeRows shape sketch.source fuel pass met depth indexes).2.2
        (sketch.treeRows shape fuel (grown.map Pot.showing) met depth indexes).2.2
  | _, grown, waiting, rest, pass, met, depth, [], h, _, hgarden, _ => by
      rw [treeRows, Sketch.treeRows]
      exact ⟨rfl, _, _, _, Yield.nothing h hgarden⟩
  | fuel, grown, waiting, rest, pass, met, depth, index :: more, h, hroots, hgarden, hsteady => by
      rw [Sketch.treeRows] at hsteady ⊢
      rw [treeRows]
      have hfirst := treeRow_yields shape fuel met depth index h hroots hgarden
      rcases hsketch : sketch.treeRow shape fuel (grown.map Pot.showing) met depth index with
        ⟨done, others, shapes⟩
      rcases hpass : treeRow shape sketch.source fuel pass met depth index with
        ⟨after, othersPass, nodes⟩
      rw [hsketch, hpass] at hfirst
      rw [hsketch] at hsteady
      dsimp only at hfirst hsteady ⊢
      obtain ⟨rfl, new, left, outs, hyield⟩ := hfirst
        (hsteady.mono (List.Sublist.refl _) (sketch.treeRows_suffix shape fuel _ _ _ _))
      obtain rfl := hyield.done
      obtain ⟨hmet, next, remaining, afters, hmore⟩ := treeRows_yields shape fuel _ depth more
        hyield.tended (hroots.append outs) hyield.garden.swap
        (hsteady.mono hyield.remaining (List.suffix_refl _))
      exact ⟨hmet, _, _, _, hyield.append hmore⟩

end

/-- A tree shows its sketch. -/
theorem arrangeTree_yields {parentField keyField : String} (h : Tended sketch [] waiting pass)
    (hroots : FacesRooted sketch rest) (hgarden : Garden pass.markup (keptIn waiting ++ rest))
    (hsteady : SteadyFor sketch waiting (sketch.arrangeTree parentField keyField).1) :
    Yields sketch [] waiting rest (pass.arrangeTree parentField keyField sketch.source).1
      (sketch.arrangeTree parentField keyField).1
      (pass.arrangeTree parentField keyField sketch.source).2
      (sketch.arrangeTree parentField keyField).2 :=
  (treeRows_yields (TreeShape.ofSource parentField keyField sketch.source) (sketch.source.size + 1)
    [] 1 (TreeShape.ofSource parentField keyField sketch.source).roots h hroots hgarden hsteady).2

/-! ## Views -/

theorem memberRows_yields (group : String) (indexes : List Nat) {grown waiting : List Pot}
    {rest : List Plot} {pass : Pass} (h : Tended sketch grown waiting pass)
    (hroots : FacesRooted sketch rest) (hgarden : Garden pass.markup (keptIn waiting ++ rest))
    (hsteady : SteadyFor sketch waiting
      (sketch.memberRows group (grown.map Pot.showing) indexes).1) :
    Yields sketch grown waiting rest (memberRows group sketch.source pass indexes).1
      (sketch.memberRows group (grown.map Pot.showing) indexes).1
      (memberRows group sketch.source pass indexes).2
      (sketch.memberRows group (grown.map Pot.showing) indexes).2 := by
  induction indexes generalizing grown waiting rest pass with
  | nil => exact ⟨_, _, _, Yield.nothing h hgarden⟩
  | cons index more ih =>
      rw [Sketch.memberRows] at hsteady ⊢
      rw [memberRows]
      cases hrow : sketch.showRow group false (grown.map Pot.showing) index ["2"] with
      | none =>
          obtain ⟨after, hpass, htended, hmarkup⟩ := renderRow_none h hrow
          rw [hrow] at hsteady
          rw [hpass]
          exact ih htended hroots (hmarkup ▸ hgarden) hsteady
      | some showing =>
          rw [hrow] at hsteady
          dsimp only at hsteady ⊢
          obtain ⟨hnests, after, rendering, pot, left, hpass, hshows⟩ :=
            renderRow_some h hrow hroots hgarden
              (hsteady.head (sketch.memberRows_suffix group more _))
          obtain rfl := hshows.is
          have hfirst := hshows.yield hnests
          rw [hpass]
          obtain ⟨new, remaining, outs, hmore⟩ := ih hfirst.tended (hroots.append _)
            hfirst.garden.swap (hsteady.mono hfirst.remaining (List.suffix_refl _))
          exact ⟨_, _, _, hfirst.append hmore⟩

theorem viewGroups_yields (groups : List (String × List Nat)) {grown waiting : List Pot}
    {rest : List Plot} {pass : Pass} (h : Tended sketch grown waiting pass)
    (hroots : FacesRooted sketch rest) (hgarden : Garden pass.markup (keptIn waiting ++ rest))
    (hsteady : SteadyFor sketch waiting (sketch.viewGroups (grown.map Pot.showing) groups).1) :
    Yields sketch grown waiting rest (viewGroups sketch.source pass groups).1
      (sketch.viewGroups (grown.map Pot.showing) groups).1
      (viewGroups sketch.source pass groups).2
      (sketch.viewGroups (grown.map Pot.showing) groups).2 := by
  induction groups generalizing grown waiting rest pass with
  | nil => exact ⟨_, _, _, Yield.nothing h hgarden⟩
  | cons group more ih =>
      obtain ⟨name, members⟩ := group
      rw [Sketch.viewGroups] at hsteady ⊢
      rw [viewGroups]
      cases hrow : sketch.showRow headerGroup true (grown.map Pot.showing) (members.headD 0) ["1"] with
      | none =>
          obtain ⟨after, hpass, htended, hmarkup⟩ := renderRow_none h hrow
          rw [hrow] at hsteady
          rw [hpass]
          dsimp only at hsteady ⊢
          obtain ⟨new, left, outs, hinner⟩ := memberRows_yields name members htended hroots
            (hmarkup ▸ hgarden) (hsteady.mono (List.Sublist.refl _) (sketch.viewGroups_suffix more _))
          rw [hinner.done] at hsteady ⊢
          obtain ⟨next, remaining, afters, hmore⟩ := ih hinner.tended (hroots.append outs)
            hinner.garden.swap (hsteady.mono hinner.remaining (List.suffix_refl _))
          exact ⟨_, _, _, hinner.append hmore⟩
      | some header =>
          rw [hrow] at hsteady
          dsimp only at hsteady ⊢
          have hmembers := sketch.memberRows_suffix name members (header :: grown.map Pot.showing)
          obtain ⟨hnests, after, rendering, pot, left, hpass, hshows⟩ :=
            renderRow_some h hrow hroots hgarden
              (hsteady.head (hmembers.trans (sketch.viewGroups_suffix more _)))
          obtain rfl := hshows.is
          rw [hpass]
          obtain ⟨new, inside, outs, hinner⟩ := memberRows_yields name members hshows.tended
            (hroots.append pot.kept) hshows.garden.swap
            (hsteady.mono hshows.remaining (sketch.viewGroups_suffix more _))
          have hgroup := hshows.nest hnests hinner
          have hdone := hgroup.done
          rw [List.map_cons] at hdone
          rw [hdone] at hsteady ⊢
          obtain ⟨next, remaining, afters, hmore⟩ := ih hgroup.tended
            (hroots.append (Plot.nest pot.plots outs)) hgroup.garden.swap
            (hsteady.mono hgroup.remaining (List.suffix_refl _))
          exact ⟨_, _, _, hgroup.append hmore⟩

/-- The rows of a source are shown as their sketch says, in any arrangement. -/
theorem arrange_yields {arrangement : Arrangement} {rowCount : Nat}
    (h : Tended sketch [] waiting pass) (hroots : FacesRooted sketch rest)
    (hsections : ∀ levels divider incomplete, arrangement = .list levels divider incomplete →
      Rooted sketch.form rest divider ∧ Rooted sketch.form rest incomplete)
    (hgarden : Garden pass.markup (keptIn waiting ++ rest))
    (hsteady : SteadyFor sketch waiting (sketch.arrange arrangement rowCount).1) :
    Yields sketch [] waiting rest (pass.arrange arrangement rowCount sketch.source).1
      (sketch.arrange arrangement rowCount).1 (pass.arrange arrangement rowCount sketch.source).2
      (sketch.arrange arrangement rowCount).2 := by
  cases arrangement with
  | list levels divider incomplete =>
      obtain ⟨hdivider, hincomplete⟩ := hsections levels divider incomplete rfl
      exact arrangeList_yields h hroots hdivider hincomplete hgarden hsteady
  | tree parentField keyField => exact arrangeTree_yields h hroots hgarden hsteady
  | view groupField =>
      exact viewGroups_yields (groupRows groupField sketch.source) h hroots hgarden hsteady

end Pass

end ReactiveMarkup
