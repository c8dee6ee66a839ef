import ReactiveMarkup.Markup.Fragment
import ReactiveMarkup.Markup.Template
import ReactiveMarkup.Proofs.Markup.Change

/-!
# Trees in a forest

A forest is a table of nodes that refer to each other, so what is shown by a node depends on the whole
table. The tree below a node is a plain value when it is cut out, in one of two forms.

* A `Shape` is the tree without its node numbers: what each node is, and what is below it. It keeps
  what lies below texts and comments, which a `Fragment` leaves out, because copies have it too.
* A `Plot` is the tree with its node numbers. It may stop at a node, which is then a gap: the node is
  part of the plot, and what hangs below it is somebody else's business.

`Stands` says that a forest has the nodes of a plot exactly as the plot has them. A `Garden` is a list
of plots that stand side by side without sharing a node. Everything a pass does to a forest is stated
as what it does to a garden, with the plots it has nothing to do with as part of the list: they stand
afterwards as they did before.
-/

namespace ReactiveMarkup

/-- What a node is and what is below it, whatever the numbers of the nodes. -/
inductive Shape where
  | node (kind : NodeKind) (children : List Shape)
deriving Inhabited

/-- Whether a node is a place for nested content. -/
def NodeKind.isPlace (kind : NodeKind) : Bool := kind.anchorName? == some Template.childAnchor

theorem NodeKind.isPlace_iff {kind : NodeKind} :
    kind.isPlace = true ↔ kind = .anchor Template.childAnchor := by
  rw [isPlace, beq_iff_eq]
  cases kind with
  | anchor name => simp [anchorName?]
  | element tag attributes => simp [anchorName?]
  | text content => simp [anchorName?]
  | comment content => simp [anchorName?]

namespace Shape

mutual

/-- A shape as it is shown. -/
def fragment : Shape → Fragment
  | .node (.element tag attributes) children => .element tag attributes (fragments children)
  | .node (.text content) _ => .text content
  | .node (.comment content) _ => .comment content
  | .node (.anchor name) children => .anchor name (fragments children)

/-- Shapes as they are shown. -/
def fragments : List Shape → List Fragment
  | [] => []
  | shape :: rest => shape.fragment :: fragments rest

end

mutual

/-- A shape with the columns of a row filled in. -/
def fill (pattern : Pattern) (row : Row) : Shape → Shape
  | .node kind children =>
    .node (Template.fillKind pattern row kind)
      (if Template.fillsBelow kind then fillAll pattern row children else children)

/-- Shapes with the columns of a row filled in. -/
def fillAll (pattern : Pattern) (row : Row) : List Shape → List Shape
  | [] => []
  | shape :: rest => fill pattern row shape :: fillAll pattern row rest

end

mutual

/-- Whether a shape has a place for nested content. -/
def hasPlace : Shape → Bool
  | .node kind children => kind.isPlace || havePlace children

/-- Whether one of some shapes has a place for nested content. -/
def havePlace : List Shape → Bool
  | [] => false
  | shape :: rest => hasPlace shape || havePlace rest

end

mutual

/-- A shape with the content of its first place replaced. -/
def plant (nested : List Shape) : Shape → Shape
  | .node kind children =>
    if kind.isPlace then .node kind nested else .node kind (plantIn nested children)

/-- Shapes with the content of the first place in them replaced. -/
def plantIn (nested : List Shape) : List Shape → List Shape
  | [] => []
  | shape :: rest =>
    if hasPlace shape then plant nested shape :: rest else shape :: plantIn nested rest

end

/-- Nested content in the first place of some shapes, or behind them when there is none. -/
def nest (shapes nested : List Shape) : List Shape :=
  if havePlace shapes then plantIn nested shapes else shapes ++ nested

end Shape

/-- A part of a forest: a node with the plots below it, or a node of which no more is told. -/
inductive Plot where
  | tree (id : NodeId) (kind : NodeKind) (children : List Plot)
  | gap (id : NodeId) (kind : NodeKind)
deriving Inhabited

namespace Plot

/-- The node at the top. -/
def root : Plot → NodeId
  | .tree id _ _ => id
  | .gap id _ => id

mutual

/-- All nodes, in document order. -/
def ids : Plot → List NodeId
  | .tree id _ children => id :: idsIn children
  | .gap id _ => [id]

/-- All nodes of some plots, in document order. -/
def idsIn : List Plot → List NodeId
  | [] => []
  | plot :: rest => ids plot ++ idsIn rest

end

mutual

/-- The nodes whose children a plot tells. -/
def told : Plot → List NodeId
  | .tree id _ children => id :: toldIn children
  | .gap _ _ => []

/-- The nodes whose children some plots tell. -/
def toldIn : List Plot → List NodeId
  | [] => []
  | plot :: rest => told plot ++ toldIn rest

end

/-- The nodes below the top. -/
def inner : Plot → List NodeId
  | .tree _ _ children => idsIn children
  | .gap _ _ => []

mutual

/-- The shape of a plot; a gap has nothing below it. -/
def shape : Plot → Shape
  | .tree _ kind children => .node kind (shapes children)
  | .gap _ kind => .node kind []

/-- The shapes of some plots. -/
def shapes : List Plot → List Shape
  | [] => []
  | plot :: rest => shape plot :: shapes rest

end

mutual

/-- How many levels of nodes there are below the top. -/
def height : Plot → Nat
  | .tree _ _ children => heightIn children
  | .gap _ _ => 0

/-- How many levels of nodes some plots have. -/
def heightIn : List Plot → Nat
  | [] => 0
  | plot :: rest => max (height plot + 1) (heightIn rest)

end

mutual

/-- The first place for nested content. -/
def place? : Plot → Option NodeId
  | .tree id kind children => if kind.isPlace then some id else placeIn? children
  | .gap id kind => if kind.isPlace then some id else none

/-- The first place for nested content in some plots. -/
def placeIn? : List Plot → Option NodeId
  | [] => none
  | plot :: rest => (place? plot).or (placeIn? rest)

end

mutual

/-- A plot with another one put for its first place. -/
def swap (put : NodeId → Plot) : Plot → Plot
  | .tree id kind children => if kind.isPlace then put id else .tree id kind (swapIn put children)
  | .gap id kind => if kind.isPlace then put id else .gap id kind

/-- Plots with another one put for the first place in them. -/
def swapIn (put : NodeId → Plot) : List Plot → List Plot
  | [] => []
  | plot :: rest =>
    if (place? plot).isSome then swap put plot :: rest else plot :: swapIn put rest

end

/-- A place whose content is not told. -/
def hole (id : NodeId) : Plot := .gap id (.anchor Template.childAnchor)

/-- Plots with the content of their first place left out. -/
def openIn (plots : List Plot) : List Plot := swapIn hole plots

/-- Plots with other ones as the content of their first place. -/
def plantIn (nested plots : List Plot) : List Plot :=
  swapIn (.tree · (.anchor Template.childAnchor) nested) plots

mutual

/-- Whether a plot tells everything. -/
def IsWhole : Plot → Prop
  | .tree _ _ children => AreWhole children
  | .gap _ _ => False

/-- Whether some plots tell everything. -/
def AreWhole : List Plot → Prop
  | [] => True
  | plot :: rest => IsWhole plot ∧ AreWhole rest

end

mutual

/-- Whether a forest has the nodes of a plot as the plot tells. -/
def Stands (markup : Markup) : Plot → Prop
  | .tree id kind children =>
    id < markup.size ∧ markup.kind id = kind ∧ markup.children id = children.map root ∧
      StandAll markup children
  | .gap id kind => id < markup.size ∧ markup.kind id = kind

/-- Whether a forest has the nodes of some plots as the plots tell. -/
def StandAll (markup : Markup) : List Plot → Prop
  | [] => True
  | plot :: rest => Stands markup plot ∧ StandAll markup rest

end

/-! ## Lists of plots -/

theorem idsIn_eq_flatMap (plots : List Plot) : idsIn plots = plots.flatMap ids := by
  induction plots with
  | nil => rfl
  | cons plot rest ih => rw [idsIn, ih, List.flatMap_cons]

theorem toldIn_eq_flatMap (plots : List Plot) : toldIn plots = plots.flatMap told := by
  induction plots with
  | nil => rfl
  | cons plot rest ih => rw [toldIn, ih, List.flatMap_cons]

theorem shapes_eq_map (plots : List Plot) : shapes plots = plots.map shape := by
  induction plots with
  | nil => rfl
  | cons plot rest ih => rw [shapes, ih, List.map_cons]

@[simp] theorem idsIn_append (plots more : List Plot) :
    idsIn (plots ++ more) = idsIn plots ++ idsIn more := by
  rw [idsIn_eq_flatMap, idsIn_eq_flatMap, idsIn_eq_flatMap, List.flatMap_append]

@[simp] theorem shapes_append (plots more : List Plot) :
    shapes (plots ++ more) = shapes plots ++ shapes more := by
  rw [shapes_eq_map, shapes_eq_map, shapes_eq_map, List.map_append]

theorem standAll_iff {markup : Markup} {plots : List Plot} :
    StandAll markup plots ↔ ∀ plot ∈ plots, Stands markup plot := by
  induction plots with
  | nil => exact ⟨fun _ _ h => absurd h (by simp), fun _ => trivial⟩
  | cons plot rest ih => rw [StandAll, ih, List.forall_mem_cons]

theorem areWhole_iff {plots : List Plot} : AreWhole plots ↔ ∀ plot ∈ plots, IsWhole plot := by
  induction plots with
  | nil => exact ⟨fun _ _ h => absurd h (by simp), fun _ => trivial⟩
  | cons plot rest ih => rw [AreWhole, ih, List.forall_mem_cons]

theorem AreWhole.append {plots more : List Plot} (h : AreWhole plots) (hmore : AreWhole more) :
    AreWhole (plots ++ more) := by
  rw [areWhole_iff] at h hmore ⊢
  exact List.forall_mem_append.mpr ⟨h, hmore⟩

@[simp] theorem standAll_append {markup : Markup} {plots more : List Plot} :
    StandAll markup (plots ++ more) ↔ StandAll markup plots ∧ StandAll markup more := by
  rw [standAll_iff, standAll_iff, standAll_iff, List.forall_mem_append]

theorem ids_eq (plot : Plot) : plot.ids = plot.root :: plot.inner := by
  cases plot <;> rfl

theorem root_mem_ids (plot : Plot) : plot.root ∈ plot.ids := by
  rw [ids_eq]
  exact List.mem_cons_self

theorem ids_subset_idsIn {plot : Plot} {plots : List Plot} (h : plot ∈ plots) :
    plot.ids ⊆ idsIn plots := by
  intro id hid
  rw [idsIn_eq_flatMap]
  exact List.mem_flatMap.mpr ⟨plot, h, hid⟩

theorem roots_subset_idsIn (plots : List Plot) : plots.map root ⊆ idsIn plots := by
  intro id hid
  obtain ⟨plot, hplot, rfl⟩ := List.mem_map.mp hid
  exact ids_subset_idsIn hplot (root_mem_ids plot)

theorem roots_sublist_idsIn (plots : List Plot) : (plots.map root).Sublist (idsIn plots) := by
  induction plots with
  | nil => exact List.Sublist.refl _
  | cons plot rest ih =>
      rw [idsIn, ids_eq, List.map_cons, List.cons_append]
      exact (ih.trans (List.sublist_append_right _ _)).cons_cons _

mutual

theorem told_subset_ids : ∀ plot : Plot, plot.told ⊆ plot.ids
  | .tree id kind children => by
      rw [told, ids]
      exact List.cons_subset_cons _ (toldIn_subset_idsIn children)
  | .gap id kind => by
      rw [told]
      exact List.nil_subset _

theorem toldIn_subset_idsIn : ∀ plots : List Plot, toldIn plots ⊆ idsIn plots
  | [] => List.nil_subset _
  | plot :: rest => by
      rw [toldIn, idsIn]
      exact List.append_subset.mpr
        ⟨List.Subset.trans (told_subset_ids plot) (List.subset_append_left _ _),
          List.Subset.trans (toldIn_subset_idsIn rest) (List.subset_append_right _ _)⟩

end

/-! ## What standing tells about a forest -/

mutual

theorem Stands.lt_size {markup : Markup} : ∀ {plot : Plot}, Stands markup plot →
    ∀ id ∈ plot.ids, id < markup.size
  | .tree root kind children, h, id, hid => by
      rcases List.mem_cons.mp hid with rfl | hin
      · exact h.1
      · exact StandAll.lt_size h.2.2.2 id hin
  | .gap root kind, h, id, hid => by
      rw [ids, List.mem_singleton] at hid
      rw [hid]
      exact h.1

theorem StandAll.lt_size {markup : Markup} : ∀ {plots : List Plot}, StandAll markup plots →
    ∀ id ∈ idsIn plots, id < markup.size
  | [], _, id, hid => by cases hid
  | plot :: rest, h, id, hid => by
      rcases List.mem_append.mp hid with hin | hin
      · exact Stands.lt_size h.1 id hin
      · exact StandAll.lt_size h.2 id hin

end

mutual

/-- The children a plot tells are nodes of the plot, and none of them is its top. -/
theorem Stands.children_subset {markup : Markup} : ∀ {plot : Plot}, Stands markup plot →
    ∀ id ∈ plot.told, markup.children id ⊆ plot.inner
  | .tree root kind children, h, id, hid => by
      rcases List.mem_cons.mp hid with rfl | hin
      · rw [h.2.2.1]
        exact roots_subset_idsIn children
      · exact StandAll.children_subset h.2.2.2 id hin
  | .gap root kind, _, id, hid => by cases hid

theorem StandAll.children_subset {markup : Markup} : ∀ {plots : List Plot},
    StandAll markup plots → ∀ id ∈ toldIn plots, markup.children id ⊆ idsIn plots
  | [], _, id, hid => by cases hid
  | plot :: rest, h, id, hid => by
      rw [idsIn]
      rcases List.mem_append.mp hid with hin | hin
      · refine List.Subset.trans (Stands.children_subset h.1 id hin)
          (List.Subset.trans ?_ (List.subset_append_left _ _))
        rw [ids_eq]
        exact List.subset_cons_self _ _
      · exact List.Subset.trans (StandAll.children_subset h.2 id hin)
          (List.subset_append_right _ _)

end

mutual

/-- A plot goes on standing when the forest only grows, its nodes stay what they are, and the lists
of children it tells stay the same. -/
theorem Stands.frame {markup changed : Markup} (hsize : markup.size ≤ changed.size) :
    ∀ {plot : Plot}, Stands markup plot →
    (∀ id ∈ plot.ids, changed.kind id = markup.kind id) →
    (∀ id ∈ plot.told, changed.children id = markup.children id) → Stands changed plot
  | .tree root kind children, h, hkind, hchildren => by
      refine ⟨Nat.lt_of_lt_of_le h.1 hsize, ?_, ?_, ?_⟩
      · rw [hkind root (by simp [ids]), h.2.1]
      · rw [hchildren root (by simp [told]), h.2.2.1]
      · exact StandAll.frame hsize h.2.2.2 (fun id hid => hkind id (List.mem_cons_of_mem _ hid))
          (fun id hid => hchildren id (List.mem_cons_of_mem _ hid))
  | .gap root kind, h, hkind, _ =>
      ⟨Nat.lt_of_lt_of_le h.1 hsize, by rw [hkind root (by simp [ids]), h.2]⟩

theorem StandAll.frame {markup changed : Markup} (hsize : markup.size ≤ changed.size) :
    ∀ {plots : List Plot}, StandAll markup plots →
    (∀ id ∈ idsIn plots, changed.kind id = markup.kind id) →
    (∀ id ∈ toldIn plots, changed.children id = markup.children id) → StandAll changed plots
  | [], _, _, _ => trivial
  | _ :: _, h, hkind, hchildren =>
      ⟨Stands.frame hsize h.1 (fun id hid => hkind id (List.mem_append_left _ hid))
          (fun id hid => hchildren id (List.mem_append_left _ hid)),
        StandAll.frame hsize h.2 (fun id hid => hkind id (List.mem_append_right _ hid))
          (fun id hid => hchildren id (List.mem_append_right _ hid))⟩

end

end Plot

end ReactiveMarkup
