import ReactiveMarkup.Proofs.Face.Groups
import ReactiveMarkup.Proofs.Face.Trees

/-!
# What a pass asks for

A list, a tree and a view ask for different rows, and what they ask for next depends on what they were
given. Two things can be said of all three by their calls alone. Whether anything comes of a part of a
pass: nothing does when no call is given anything, and something does when one is given a node. And which
calls come first: as long as nothing is given, rows are asked for that can be listed from the source
(`Arrangement.leading`), all of them and no others. Together they say when a pass shows no row, without a
look at the pass: when no face fits any of the leading rows.

Neither asks how the markup looks like. What a call is given has as many nodes as its face has in its
template, as long as that holds of what was left by the pass before.
-/

namespace ReactiveMarkup

/-! ## Calls and faces -/

/-- The row that a call asks for, and the levels it asks with. -/
def RowCall.target (call : RowCall) : Nat × List String := (call.index, call.levels)

/-- The faces that fit the rows of calls, each after the calls before it. -/
def RowCall.chosen (faces : List ResolvedFace) : List RowCall → List ResolvedFace
  | [] => []
  | call :: earlier => (call.face? faces earlier).toList ++ chosen faces earlier

/-- Faces fit rows, and none of these faces has content. -/
def RowCall.Hollow (chosen : List ResolvedFace) : Prop :=
  chosen ≠ [] ∧ ∀ resolved ∈ chosen, resolved.face.template = []

/-- The rows that an arrangement asks for as long as it is given nothing, with the levels it asks with. -/
def Arrangement.leading (source : Source) : Arrangement → List (Nat × List String)
  | .list levels _ _ => (List.range source.size).map fun index => (index, levels)
  | .tree parentField keyField =>
    let shape := TreeShape.ofSource parentField keyField source
    shape.roots.map fun index => (index, shape.levelsAt 1 index)
  | .view groupField => (groupRows groupField source).flatMap fun group =>
    (group.2.headD 0, ["1"]) :: group.2.map fun index => (index, ["2"])

/-- Calls that ask for some rows as long as they are given nothing: for no others until the first one is
given something, and for all of them when none is. -/
structure Leads (leading : List (Nat × List String)) (calls : List RowCall) : Prop where
  only : ∀ call earlier, call :: earlier <:+ calls → (∀ other ∈ earlier, other.result = none) →
    call.target ∈ leading
  all : (∀ call ∈ calls, call.result = none) → leading ⊆ calls.map RowCall.target

namespace Leads

variable {leading more : List (Nat × List String)} {calls later : List RowCall} {call : RowCall}

theorem nil : Leads [] [] where
  only call earlier hsuffix := by cases List.suffix_nil.mp hsuffix
  all _ := List.nil_subset _

theorem single (call : RowCall) : Leads [call.target] [call] where
  only other earlier hsuffix _ := by
    rcases List.suffix_cons_iff.mp hsuffix with heq | hnil
    · obtain ⟨rfl, -⟩ := List.cons.inj heq
      exact List.mem_singleton_self _
    · cases List.suffix_nil.mp hnil
  all _ := List.Subset.refl _

theorem append (h : Leads leading calls) (hmore : Leads more later) :
    Leads (leading ++ more) (later ++ calls) where
  only call earlier hsuffix hnone := by
    obtain ⟨before, hbefore⟩ := hsuffix
    rcases List.append_eq_append_iff.mp hbefore with ⟨between, hlater, hrest⟩ | ⟨between, -, hcalls⟩
    · cases between with
      | nil => exact List.mem_append_left _ (h.only call earlier ⟨[], hrest⟩ hnone)
      | cons first between =>
          obtain ⟨rfl, rfl⟩ := List.cons.inj hrest
          refine List.mem_append_right _ (hmore.only call between ⟨before, hlater.symm⟩ ?_)
          exact fun other hother => hnone other (List.mem_append_left _ hother)
    · exact List.mem_append_left _ (h.only call earlier ⟨between, hcalls.symm⟩ hnone)
  all hnone := by
    obtain ⟨hlater, hcalls⟩ := List.forall_mem_append.mp hnone
    rw [List.map_append]
    exact List.append_subset.mpr
      ⟨List.Subset.trans (h.all hcalls) (List.subset_append_right _ _),
        List.Subset.trans (hmore.all hlater) (List.subset_append_left _ _)⟩

/-- Behind a call that is given something, nothing more is said. -/
theorem of_given (hgiven : call.result.isSome = true) (htarget : call.target ∈ leading)
    (later : List RowCall) : Leads leading (later ++ [call]) where
  only other earlier hsuffix hnone := by
    have hlast : (other :: earlier).getLast? = some call := by
      obtain ⟨before, hbefore⟩ := hsuffix
      have hboth := congrArg List.getLast? hbefore
      rwa [List.getLast?_append_of_ne_nil _ (List.cons_ne_nil _ _), List.getLast?_concat] at hboth
    cases earlier with
    | nil =>
        obtain rfl := Option.some.inj hlast
        exact htarget
    | cons next earlier =>
        rw [List.getLast?_cons_cons] at hlast
        rw [hnone call (List.mem_of_getLast? hlast)] at hgiven
        cases hgiven
  all hnone := by
    rw [hnone call (List.mem_append_right _ (List.mem_singleton_self call))] at hgiven
    cases hgiven

end Leads

namespace Pass

open RowCall

variable {begun pass after : Pass} {calls earlier later : List RowCall} {nodes more : List NodeId}
  {leading : List (Nat × List String)}

/-- What a part of a pass asks for, after other calls, and whether anything comes of it. -/
structure Asks (begun : Pass) (earlier : List RowCall) (after : Pass) (nodes : List NodeId)
    (calls : List RowCall) : Prop where
  called : begun.Called (calls ++ earlier) after
  inRange : ∀ call ∈ calls, call.inRange = true
  nothing : (∀ call ∈ calls, call.result = none) → nodes = []
  something : ∀ call ∈ calls, ∀ rendering ∈ call.result, rendering.nodes ≠ [] → nodes ≠ []

namespace Asks

theorem nil (hcalled : begun.Called earlier pass) : Asks begun earlier pass [] [] where
  called := hcalled
  inRange := List.forall_mem_nil _
  nothing _ := rfl
  something := List.forall_mem_nil _

/-- One call, and what is made of what it is given. -/
theorem single (nodes : List NodeId) {group : String} {source : Source} {index : Nat} {levels : List String}
    {result : Option Rendering} (hcalled : begun.Called earlier pass) (hindex : index < source.size)
    (hstep : pass.renderRow group source index levels = (after, result))
    (hnothing : result = none → nodes = [])
    (hsomething : ∀ rendering ∈ result, rendering.nodes ≠ [] → nodes ≠ []) :
    Asks begun earlier after nodes [⟨group, source, index, levels, result⟩] where
  called := hcalled.call hstep
  inRange := List.forall_mem_singleton.mpr (inRange_of_lt hindex)
  nothing hnone := hnothing (hnone _ (List.mem_singleton_self _))
  something := List.forall_mem_singleton.mpr hsomething

/-- One call, and the nodes it is given. -/
theorem row {group : String} {source : Source} {index : Nat} {levels : List String}
    {result : Option Rendering} (hcalled : begun.Called earlier pass) (hindex : index < source.size)
    (hstep : pass.renderRow group source index levels = (after, result)) :
    Asks begun earlier after ((result.map Rendering.nodes).getD [])
      [⟨group, source, index, levels, result⟩] := by
  refine .single _ hcalled hindex hstep (fun hnone => ?_) fun rendering hresult hfilled => ?_
  · rw [hnone]
    rfl
  · rw [hresult]
    exact hfilled

theorem append {last : Pass} (h : Asks begun earlier after nodes calls)
    (hmore : Asks begun (calls ++ earlier) last more later) :
    Asks begun earlier last (nodes ++ more) (later ++ calls) where
  called := by
    rw [List.append_assoc]
    exact hmore.called
  inRange := List.forall_mem_append.mpr ⟨hmore.inRange, h.inRange⟩
  nothing hnone := by
    obtain ⟨hlater, hcalls⟩ := List.forall_mem_append.mp hnone
    rw [h.nothing hcalls, hmore.nothing hlater, List.append_nil]
  something := by
    refine List.forall_mem_append.mpr ⟨fun call hcall rendering hresult hfilled => ?_,
      fun call hcall rendering hresult hfilled => ?_⟩
    · exact List.append_ne_nil_of_right_ne_nil _ (hmore.something call hcall rendering hresult hfilled)
    · exact List.append_ne_nil_of_left_ne_nil (h.something call hcall rendering hresult hfilled) _

/-- Whatever else is done to the nodes, as long as nothing stays nothing. -/
theorem change (h : Asks begun earlier after nodes calls) (markup : Markup)
    (hnodes : more = [] ↔ nodes = []) : Asks begun earlier { after with markup } more calls where
  called := h.called.setMarkup markup
  inRange := h.inRange
  nothing hnone := hnodes.mpr (h.nothing hnone)
  something call hcall rendering hresult hfilled := fun hnil =>
    h.something call hcall rendering hresult hfilled (hnodes.mp hnil)

end Asks

/-- Nothing comes of nesting exactly if there was nothing to nest and nothing to nest it in. -/
theorem nest_eq_nil_iff (pass : Pass) (rendering : Rendering) (nested : List NodeId) :
    (pass.nest rendering nested).2 = [] ↔ rendering.nodes ++ nested = [] := by
  rw [Pass.nest, Markup.nest]
  cases hnodes : rendering.nodes with
  | nil => exact Iff.rfl
  | cons node rest =>
      refine iff_of_false ?_ (List.cons_ne_nil _ _)
      cases pass.markup.childAnchor? (node :: rest) with
      | none => exact List.cons_ne_nil _ _
      | some place => exact List.cons_ne_nil _ _

theorem Asks.nest {rendering : Rendering} (h : Asks begun earlier pass (rendering.nodes ++ more) calls) :
    Asks begun earlier (pass.nest rendering more).1 (pass.nest rendering more).2 calls :=
  h.change _ (pass.nest_eq_nil_iff rendering more)

/-! ## Lists -/

theorem Called.copyAll (h : begun.Called calls pass) (template : List NodeId) :
    begun.Called calls (pass.copyAll template).1 := h.setMarkup _

theorem Called.copies (h : begun.Called calls pass) (template : List NodeId) (count : Nat) :
    begun.Called calls (pass.copies template count).1 := by
  induction count generalizing pass with
  | zero => exact h
  | succ count ih => exact ih (h.copyAll template)

section

variable {levels : List String} {divider : List NodeId} {rowCount : Nat} {source : Source}

/-- A copy that is made or not changes only the markup. -/
theorem divide_eq (pass : Pass) (divider : List NodeId) (due : Bool) :
    ∃ markup copies, (if due then pass.copyAll divider else (pass, [])) =
      ({ pass with markup }, copies) := by
  cases due with
  | false => exact ⟨pass.markup, [], rfl⟩
  | true => exact ⟨_, _, rfl⟩

/-- Rows of a list are asked for one after another, and those that are given something are counted. -/
theorem asks_listRows (levels : List String) (divider : List NodeId) (rowCount : Nat)
    (indexes : List Nat) {pass : Pass} {earlier : List RowCall} (shown : Nat)
    (hcalled : begun.Called earlier pass) (hindexes : ∀ index ∈ indexes, index < source.size) :
    ∃ calls,
      Asks begun earlier (listRows levels divider rowCount source pass shown indexes).1
        (listRows levels divider rowCount source pass shown indexes).2.2 calls ∧
      (listRows levels divider rowCount source pass shown indexes).2.1 =
        shown + calls.countP (·.result.isSome) ∧
      Leads (indexes.map fun index => (index, levels)) calls := by
  induction indexes generalizing pass earlier shown with
  | nil => exact ⟨[], .nil hcalled, rfl, .nil⟩
  | cons index behind ih =>
      obtain ⟨hindex, hbehind⟩ := List.forall_mem_cons.mp hindexes
      rw [listRows]
      rcases hstep : pass.renderRow "" source index levels with ⟨asked, result⟩
      have hlead := Leads.single ⟨"", source, index, levels, result⟩
      cases result with
      | none =>
          obtain ⟨calls, hasks, htotal, hleads⟩ := ih shown (hcalled.call hstep) hbehind
          refine ⟨_, (Asks.row hcalled hindex hstep).append hasks, ?_, hlead.append hleads⟩
          rw [List.countP_append]
          exact htotal
      | some rendering =>
          obtain ⟨markup, copies, hcopied⟩ := asked.divide_eq divider
            (0 < rowCount && 0 < shown && shown % rowCount == 0)
          dsimp only
          rw [hcopied]
          dsimp only
          have hrow := Asks.single (copies ++ rendering.nodes) hcalled hindex hstep
            (fun hnone => by cases hnone) fun other hother hfilled =>
              List.append_ne_nil_of_right_ne_nil _ (Option.some.inj hother ▸ hfilled)
          have hdivided := hrow.change markup Iff.rfl
          obtain ⟨calls, hasks, htotal, hleads⟩ := ih (shown + 1) hdivided.called hbehind
          refine ⟨_, hdivided.append hasks, ?_, hlead.append hleads⟩
          rw [htotal, List.countP_append, Nat.add_assoc, Nat.add_comm 1]
          rfl

/-- A list asks for all rows of its source. Where none is shown, none is missing in a group. -/
theorem asks_arrangeList (incomplete : List NodeId) (hcalled : begun.Called [] pass) :
    ∃ calls,
      Asks begun [] (pass.arrangeList levels divider incomplete rowCount source).1
        (pass.arrangeList levels divider incomplete rowCount source).2 calls ∧
      Leads ((Arrangement.list levels divider incomplete).leading source) calls := by
  obtain ⟨calls, hasks, htotal, hleads⟩ := asks_listRows levels divider rowCount
    (List.range source.size) 0 hcalled fun index => List.mem_range.mp
  refine ⟨calls, ?_, hleads⟩
  rw [arrangeList]
  cases incomplete with
  | nil => exact hasks
  | cons node rest =>
      dsimp only [List.isEmpty_cons]
      rw [htotal, Nat.zero_add]
      exact {
        called := hasks.called.copies _ _
        inRange := hasks.inRange
        nothing := fun hnone => by
          have hcount : calls.countP (·.result.isSome) = 0 :=
            List.countP_eq_zero.mpr fun call hcall => by simp [hnone call hcall]
          have hmissing : missing rowCount 0 = 0 := by simp [missing]
          rw [hcount, hmissing]
          exact List.append_eq_nil_iff.mpr ⟨hasks.nothing hnone, rfl⟩
        something := fun call hcall rendering hresult hfilled =>
          List.append_ne_nil_of_left_ne_nil (hasks.something call hcall rendering hresult hfilled) _ }

end

/-! ## Trees -/

section

variable {shape : TreeShape} {source : Source}

theorem treeRows_zero (met : List Nat) (depth : Nat) (indexes : List Nat) :
    treeRows shape source 0 pass met depth indexes = (pass, met, []) := by
  induction indexes with
  | nil => rw [treeRows]
  | cons index behind ih =>
      rw [treeRows, treeRow]
      dsimp only
      rw [ih]
      rfl

/-- Rows of a tree are asked for with the rows below each of them. Rows that were not met before come
first, unless the walk may not go on. -/
theorem asks_treeRows (hshape : ∀ index, ∀ child ∈ shape.childrenOf index, child < source.size)
    (fuel : Nat) (indexes : List Nat) {pass : Pass} {earlier : List RowCall} (met : List Nat)
    (depth : Nat) (hcalled : begun.Called earlier pass)
    (hindexes : ∀ index ∈ indexes, index < source.size) :
    ∃ calls,
      Asks begun earlier (treeRows shape source fuel pass met depth indexes).1
        (treeRows shape source fuel pass met depth indexes).2.2 calls ∧
      (0 < fuel → indexes.Nodup → (∀ index ∈ indexes, index ∉ met) →
        Leads (indexes.map fun index => (index, shape.levelsAt depth index)) calls) := by
  induction fuel generalizing indexes pass earlier met depth with
  | zero =>
      rw [treeRows_zero]
      exact ⟨[], .nil hcalled, fun hfuel => absurd hfuel (Nat.lt_irrefl 0)⟩
  | succ fuel ihBelow =>
      induction indexes generalizing pass earlier met with
      | nil =>
          rw [treeRows]
          exact ⟨[], .nil hcalled, fun _ _ _ => .nil⟩
      | cons index behind ihBeside =>
          obtain ⟨hindex, hbehind⟩ := List.forall_mem_cons.mp hindexes
          by_cases hmet : index ∈ met
          · rw [treeRows_met hmet]
            obtain ⟨calls, hasks, -⟩ := ihBeside met hcalled hbehind
            exact ⟨calls, hasks, fun _ _ hnew => absurd hmet (hnew index List.mem_cons_self)⟩
          rcases hstep : pass.renderRow "" source index (shape.levelsAt depth index) with
            ⟨asked, result⟩
          have hlead := Leads.single ⟨"", source, index, shape.levelsAt depth index, result⟩
          cases result with
          | none =>
              rw [treeRows_refused hmet hstep]
              obtain ⟨calls, hasks, hleads⟩ := ihBeside (index :: met) (hcalled.call hstep) hbehind
              refine ⟨_, (Asks.row hcalled hindex hstep).append hasks, fun hfuel hnodup hnew => ?_⟩
              obtain ⟨hother, hnodup⟩ := List.nodup_cons.mp hnodup
              refine hlead.append (hleads hfuel hnodup fun other hin => ?_)
              rintro hmem
              rcases List.mem_cons.mp hmem with rfl | hold
              · exact hother hin
              · exact hnew other (List.mem_cons_of_mem _ hin) hold
          | some rendering =>
              have hrow := Asks.row hcalled hindex hstep
              rcases hinner : treeRows shape source fuel asked (index :: met) (depth + 1)
                (shape.childrenOf index) with ⟨inside, others, inner⟩
              obtain ⟨below, hbelow, -⟩ :=
                ihBelow (shape.childrenOf index) (index :: met) (depth + 1) hrow.called (hshape index)
              rw [hinner] at hbelow
              have hnested := Asks.nest (hrow.append hbelow)
              rcases hmore : treeRows shape source (fuel + 1) (inside.nest rendering inner).1 others
                depth behind with ⟨after, last, more⟩
              obtain ⟨beside, hbeside, -⟩ := ihBeside others hnested.called hbehind
              rw [hmore] at hbeside
              rw [treeRows_shown hmet hstep hinner hmore]
              refine ⟨_, hnested.append hbeside, fun _ _ _ => ?_⟩
              rw [← List.append_assoc]
              refine Leads.of_given ?_ ?_ (beside ++ below)
              · rfl
              · exact List.mem_cons_self

/-- A tree asks for its roots, whatever else it asks for. -/
theorem asks_arrangeTree (parentField keyField : String) (hcalled : begun.Called [] pass) :
    ∃ calls,
      Asks begun [] (pass.arrangeTree parentField keyField source).1
        (pass.arrangeTree parentField keyField source).2 calls ∧
      Leads ((Arrangement.tree parentField keyField).leading source) calls := by
  obtain ⟨calls, hasks, hleads⟩ := asks_treeRows
    (fun index child => TreeShape.lt_size_of_mem_childrenOf) (source.size + 1)
    (TreeShape.ofSource parentField keyField source).roots [] 1 hcalled
    fun index => TreeShape.lt_size_of_mem_roots
  have hnodup := (TreeShape.roots_sorted (.ofSource parentField keyField source)).imp Nat.ne_of_lt
  exact ⟨calls, hasks, hleads (Nat.succ_pos _) hnodup fun _ _ => List.not_mem_nil⟩

end

/-! ## Views -/

section

variable {source : Source}

theorem asks_memberRows (group : String) (indexes : List Nat) {pass : Pass}
    {earlier : List RowCall} (hcalled : begun.Called earlier pass)
    (hindexes : ∀ index ∈ indexes, index < source.size) :
    ∃ calls,
      Asks begun earlier (memberRows group source pass indexes).1
        (memberRows group source pass indexes).2 calls ∧
      Leads (indexes.map fun index => (index, ["2"])) calls := by
  induction indexes generalizing pass earlier with
  | nil => exact ⟨[], .nil hcalled, .nil⟩
  | cons index behind ih =>
      obtain ⟨hindex, hbehind⟩ := List.forall_mem_cons.mp hindexes
      rw [memberRows]
      rcases hstep : pass.renderRow group source index ["2"] with ⟨asked, result⟩
      have hrow := Asks.row hcalled hindex hstep
      obtain ⟨calls, hasks, hleads⟩ := ih hrow.called hbehind
      exact ⟨_, hrow.append hasks,
        (Leads.single ⟨group, source, index, ["2"], result⟩).append hleads⟩

theorem asks_viewGroups (groups : List (String × List Nat)) {pass : Pass} {earlier : List RowCall}
    (hcalled : begun.Called earlier pass)
    (hgroups : ∀ group ∈ groups, group.2 ≠ [] ∧ ∀ index ∈ group.2, index < source.size) :
    ∃ calls,
      Asks begun earlier (viewGroups source pass groups).1 (viewGroups source pass groups).2 calls ∧
      Leads (groups.flatMap fun group =>
        (group.2.headD 0, ["1"]) :: group.2.map fun index => (index, ["2"])) calls := by
  induction groups generalizing pass earlier with
  | nil => exact ⟨[], .nil hcalled, .nil⟩
  | cons group behind ih =>
      obtain ⟨name, members⟩ := group
      obtain ⟨⟨hfilled, hmembers⟩, hbehind⟩ := List.forall_mem_cons.mp hgroups
      rw [viewGroups]
      rcases hstep : pass.renderRow headerGroup source (members.headD 0) ["1"] with ⟨asked, result⟩
      have hfirst : members.headD 0 < source.size := by
        obtain ⟨first, rest, rfl⟩ := List.exists_cons_of_ne_nil hfilled
        exact hmembers first List.mem_cons_self
      have hheader := Asks.row hcalled hfirst hstep
      obtain ⟨inside, hinside, hinner⟩ := asks_memberRows name members hheader.called hmembers
      have hlead := (Leads.single ⟨headerGroup, source, members.headD 0, ["1"], result⟩).append hinner
      have hgroup := hheader.append hinside
      rcases hrows : memberRows name source asked members with ⟨after, inner⟩
      rw [hrows] at hgroup
      dsimp only
      rw [hrows]
      cases result with
      | none =>
          obtain ⟨calls, hasks, hleads⟩ := ih hgroup.called hbehind
          refine ⟨_, hgroup.append hasks, ?_⟩
          exact hlead.append hleads
      | some rendering =>
          have hnested := Asks.nest hgroup
          obtain ⟨calls, hasks, hleads⟩ := ih hnested.called hbehind
          exact ⟨_, hnested.append hasks, hlead.append hleads⟩

/-- A view asks for a header and the rows of every group. -/
theorem asks_arrangeView (groupField : String) (hcalled : begun.Called [] pass) :
    ∃ calls,
      Asks begun [] (viewGroups source pass (groupRows groupField source)).1
        (viewGroups source pass (groupRows groupField source)).2 calls ∧
      Leads ((Arrangement.view groupField).leading source) calls := by
  refine asks_viewGroups (groupRows groupField source) hcalled fun group hgroup => ?_
  rw [groupRows_eq] at hgroup
  obtain ⟨text, htext, rfl⟩ := List.mem_map.mp hgroup
  exact ⟨positions_ne_nil (List.mem_eraseDups.mp htext), fun _ => Source.lt_size_of_mem_rowsOf⟩

end

/-! ## Passes -/

/-- What an arrangement asks for. -/
theorem asks_arrange (begun : Pass) (arrangement : Arrangement) (rowCount : Nat) (source : Source) :
    ∃ calls,
      Asks begun [] (begun.arrange arrangement rowCount source).1
        (begun.arrange arrangement rowCount source).2 calls ∧
      Leads (arrangement.leading source) calls := by
  have hcalled := called_start begun
  cases arrangement with
  | list levels divider incomplete => exact asks_arrangeList incomplete hcalled
  | tree parentField keyField => exact asks_arrangeTree parentField keyField hcalled
  | view groupField => exact asks_arrangeView groupField hcalled

end Pass

/-! ## Whether a face fits -/

namespace RowCall

variable {faces : List ResolvedFace} {calls earlier : List RowCall} {resolved : ResolvedFace}

theorem mem_chosen : resolved ∈ chosen faces calls ↔
    ∃ call earlier, call :: earlier <:+ calls ∧ call.face? faces earlier = some resolved := by
  induction calls with
  | nil =>
      refine iff_of_false List.not_mem_nil ?_
      rintro ⟨call, earlier, hsuffix, -⟩
      cases List.suffix_nil.mp hsuffix
  | cons call before ih =>
      rw [chosen, List.mem_append, Option.mem_toList, ih]
      constructor
      · rintro (hfits | ⟨other, earlier, hsuffix, hfits⟩)
        · exact ⟨call, before, List.suffix_refl _, hfits⟩
        · exact ⟨other, earlier, hsuffix.trans (List.suffix_cons call before), hfits⟩
      · rintro ⟨other, earlier, hsuffix, hfits⟩
        rcases List.suffix_cons_iff.mp hsuffix with heq | hbefore
        · obtain ⟨rfl, rfl⟩ := List.cons.inj heq
          exact .inl hfits
        · exact .inr ⟨other, earlier, hbefore, hfits⟩

theorem chosen_subset (faces : List ResolvedFace) (calls : List RowCall) :
    chosen faces calls ⊆ faces := by
  intro resolved hresolved
  obtain ⟨call, earlier, -, hfits⟩ := mem_chosen.mp hresolved
  exact List.mem_of_find?_eq_some hfits

/-- After calls that were given nothing, faces are tried as for the first row. -/
theorem face?_of_none (call : RowCall) (h : ∀ other ∈ earlier, other.result = none) :
    call.face? faces earlier = firstFit faces call.levels 0 call.index := by
  have hcount : earlier.countP (·.result.isSome) = 0 :=
    List.countP_eq_zero.mpr fun other hother => by simp [h other hother]
  rw [face?, hcount]
  rfl

end RowCall

namespace Pass

open RowCall

variable {begun pass after : Pass} {calls : List RowCall} {nodes : List NodeId}
  {leading : List (Nat × List String)}

/-- Each call of a pass is given something exactly if a face fits. -/
theorem Asks.matched (h : Asks begun [] after nodes calls) (hshown : begun.shown = 0) :
    ∀ call earlier, call :: earlier <:+ calls →
      call.result.isSome = (call.face? begun.faces earlier).isSome := by
  intro call earlier hsuffix
  obtain ⟨markup, hasked⟩ := h.called
  rw [List.append_nil] at hasked
  exact (hasked.matched hshown).2.2 call earlier hsuffix
    (h.inRange call (hsuffix.subset List.mem_cons_self))

theorem Asks.chosen_eq_nil_iff (h : Asks begun [] after nodes calls) (hshown : begun.shown = 0) :
    chosen begun.faces calls = [] ↔ ∀ call ∈ calls, call.result = none := by
  rw [List.eq_nil_iff_forall_not_mem]
  constructor
  · intro hnone call hcall
    obtain ⟨later, earlier, hsplit⟩ := List.append_of_mem hcall
    have hsuffix : call :: earlier <:+ calls := ⟨later, hsplit.symm⟩
    rw [← Option.not_isSome_iff_eq_none, h.matched hshown call earlier hsuffix]
    intro hsome
    obtain ⟨resolved, hfits⟩ := Option.isSome_iff_exists.mp hsome
    exact hnone resolved (mem_chosen.mpr ⟨call, earlier, hsuffix, hfits⟩)
  · intro hnone resolved hmem
    obtain ⟨call, earlier, hsuffix, hfits⟩ := mem_chosen.mp hmem
    have hmatched := h.matched hshown call earlier hsuffix
    rw [hfits, hnone call (hsuffix.subset List.mem_cons_self)] at hmatched
    cases hmatched

/-- A pass shows no row exactly if no face fits any of the rows it asks for first. -/
theorem Asks.none_given_iff (h : Asks begun [] after nodes calls) (hleads : Leads leading calls)
    (hshown : begun.shown = 0) : (∀ call ∈ calls, call.result = none) ↔
      ∀ target ∈ leading, firstFit begun.faces target.2 0 target.1 = none := by
  constructor
  · intro hnone target htarget
    obtain ⟨call, hcall, rfl⟩ := List.mem_map.mp (hleads.all hnone htarget)
    obtain ⟨later, earlier, hsplit⟩ := List.append_of_mem hcall
    have hsuffix : call :: earlier <:+ calls := ⟨later, hsplit.symm⟩
    have hmatched := h.matched hshown call earlier hsuffix
    have hbefore : ∀ other ∈ earlier, other.result = none := fun other hother =>
      hnone other (hsuffix.subset (List.mem_cons_of_mem _ hother))
    rw [hnone call hcall, call.face?_of_none hbefore] at hmatched
    exact Option.not_isSome_iff_eq_none.mp fun hsome => by cases hmatched.trans hsome
  · intro hunfit
    -- From the first call on, each one is for a leading row, since nothing was given before it.
    have hall : ∀ asked, asked <:+ calls → ∀ call ∈ asked, call.result = none := by
      intro asked
      induction asked with
      | nil => exact fun _ => List.forall_mem_nil _
      | cons call earlier ih =>
          intro hsuffix
          have hbefore := ih ((List.suffix_cons call earlier).trans hsuffix)
          have hmatched := h.matched hshown call earlier hsuffix
          have hfirst : firstFit begun.faces call.levels 0 call.index = none :=
            hunfit _ (hleads.only call earlier hsuffix hbefore)
          rw [call.face?_of_none hbefore, hfirst] at hmatched
          have hrefused : call.result = none :=
            Option.not_isSome_iff_eq_none.mp (by rw [hmatched]; exact Bool.false_ne_true)
          exact List.forall_mem_cons.mpr ⟨hrefused, hbefore⟩
    exact hall calls (List.suffix_refl calls)

/-! ## How much a row is given -/

/-- Slots that hold as many nodes as the face they were filled with has in its template. -/
def Filled (faces : List ResolvedFace) (slots : List (SlotName × Rendering)) : Prop :=
  ∀ slot ∈ slots, ∀ resolved ∈ faces, slot.2.face = resolved.face.index →
    slot.2.nodes.length = resolved.face.template.length

theorem length_renderRow {group : String} {source : Source} {index : Nat} {levels : List String}
    {result : Option Rendering} (hstep : pass.renderRow group source index levels = (after, result))
    (hfilled : Filled pass.faces pass.previous) :
    ∀ rendering ∈ result, ∃ resolved, firstFit pass.faces levels pass.shown index = some resolved ∧
      rendering.nodes.length = resolved.face.template.length := by
  rcases renderRow_cases hstep with ⟨-, -, rfl⟩ | ⟨entry, -, hcases⟩
  · exact fun _ hnone => by cases hnone
  rcases hcases with ⟨-, -, rfl⟩ | ⟨resolved, name, hchosen, -, -, rfl⟩
  · exact fun _ hnone => by cases hnone
  rintro rendering hrendering
  obtain rfl := Option.some.inj hrendering
  refine ⟨resolved, hchosen, ?_⟩
  rcases pass.place_cases name entry resolved.face with ⟨old, hstored, hcurrent, hplace⟩ | ⟨-, hplace⟩
  · rw [hplace]
    exact hfilled _ (mem_of_lookup hstored) resolved (List.mem_of_find?_eq_some hchosen) hcurrent.2
  · rw [hplace]
    exact Markup.length_substitute _ _ _ _

/-- What a call is given has as many nodes as its face has in its template. -/
theorem Asked.length_nodes (h : begun.Asked calls pass) (hshown : begun.shown = 0)
    (hfilled : Filled begun.faces begun.previous) : pass.previous ⊆ begun.previous ∧
      ∀ call earlier, call :: earlier <:+ calls → ∀ rendering ∈ call.result,
        ∃ resolved, call.face? begun.faces earlier = some resolved ∧
          rendering.nodes.length = resolved.face.template.length := by
  induction h with
  | start =>
      refine ⟨List.Subset.refl _, fun call earlier hsuffix => ?_⟩
      cases List.suffix_nil.mp hsuffix
  | @call calls pass after result asked markup group source index levels step ih =>
      obtain ⟨hprevious, hearlier⟩ := ih
      obtain ⟨hfaces, hcount, -⟩ := asked.matched hshown
      refine ⟨List.Subset.trans (previous_renderRow_subset step) hprevious,
        fun call earlier hsuffix => ?_⟩
      rcases List.suffix_cons_iff.mp hsuffix with heq | hbefore
      · obtain ⟨rfl, rfl⟩ := List.cons.inj heq
        have hleft : Filled pass.faces pass.previous := fun slot hslot =>
          hfaces ▸ hfilled slot (hprevious hslot)
        have hlast := length_renderRow step hleft
        rw [RowCall.face?, ← hcount, ← hfaces]
        exact hlast
      · exact hearlier call earlier hbefore

/-- Something comes of a pass where a face that fits has content. -/
theorem Asks.ne_nil (h : Asks begun [] after nodes calls) (hshown : begun.shown = 0)
    (hfilled : Filled begun.faces begun.previous) {resolved : ResolvedFace}
    (hchosen : resolved ∈ chosen begun.faces calls) (hcontent : resolved.face.template ≠ []) :
    nodes ≠ [] := by
  obtain ⟨call, earlier, hsuffix, hfits⟩ := mem_chosen.mp hchosen
  have hmatched := h.matched hshown call earlier hsuffix
  rw [hfits] at hmatched
  obtain ⟨rendering, hresult⟩ := Option.isSome_iff_exists.mp hmatched
  obtain ⟨markup, hasked⟩ := h.called
  rw [List.append_nil] at hasked
  obtain ⟨other, hsame, hlength⟩ :=
    (hasked.length_nodes hshown hfilled).2 call earlier hsuffix rendering hresult
  obtain rfl := Option.some.inj (hfits.symm.trans hsame)
  refine h.something call (hsuffix.subset List.mem_cons_self) rendering hresult fun hnil => ?_
  rw [hnil] at hlength
  exact hcontent (List.eq_nil_of_length_eq_zero hlength.symm)

/-- Nothing comes of a pass exactly if no face fits, unless those that fit are empty. -/
theorem Asks.eq_nil_iff (h : Asks begun [] after nodes calls) (hshown : begun.shown = 0)
    (hfilled : Filled begun.faces begun.previous) (hollow : ¬Hollow (chosen begun.faces calls)) :
    nodes = [] ↔ chosen begun.faces calls = [] := by
  refine ⟨fun hnil => ?_, fun hchosen => h.nothing ((h.chosen_eq_nil_iff hshown).mp hchosen)⟩
  by_contra hchosen
  refine hollow ⟨hchosen, fun resolved hresolved => ?_⟩
  by_contra hcontent
  exact h.ne_nil hshown hfilled hresolved hcontent hnil

end Pass

end ReactiveMarkup
