import ReactiveMarkup.Proofs.Markup.Shown

/-!
# What a row can change in HTML

HTML is written piece by piece: markup as it is, and between it texts and attribute values, which are
escaped. Filling a row into a template changes what the texts and the values say and nothing else, so
the pieces of two rows are the same but for these. What is written for a text or a value holds none of
the characters that would end it, whatever the row says, and undoing the escapes gives back what it
says. Escapes are undone from left to right in one go, so an escape that a row spells out itself is a
text like any other.
-/

namespace ReactiveMarkup

namespace Piece

/-! ## Escapes -/

/-- Undoes the four escapes. -/
def unescape : List Char → List Char
  | '&' :: 'a' :: 'm' :: 'p' :: ';' :: rest => '&' :: unescape rest
  | '&' :: 'l' :: 't' :: ';' :: rest => '<' :: unescape rest
  | '&' :: 'g' :: 't' :: ';' :: rest => '>' :: unescape rest
  | '&' :: 'q' :: 'u' :: 'o' :: 't' :: ';' :: rest => '"' :: unescape rest
  | c :: rest => c :: unescape rest
  | [] => []

theorem unescape_cons {c : Char} (h : c ≠ '&') (rest : List Char) :
    unescape (c :: rest) = c :: unescape rest := by
  rw [unescape]
  all_goals intros; contradiction

theorem unescape_escapeInText (c : Char) (rest : List Char) :
    unescape (escapeInText c ++ rest) = c :: unescape rest := by
  rw [escapeInText]
  split
  · next h => rw [h]; simp [unescape]
  · next hamp =>
      split
      · next h => rw [h]; simp [unescape]
      · split
        · next h => rw [h]; simp [unescape]
        · exact unescape_cons hamp rest

theorem unescape_escapeInValue (c : Char) (rest : List Char) :
    unescape (escapeInValue c ++ rest) = c :: unescape rest := by
  rw [escapeInValue]
  split
  · next h => rw [h]; simp [unescape]
  · exact unescape_escapeInText c rest

/-- Escapes that are undone one by one are undone all along. -/
theorem unescape_flatMap {escape : Char → List Char}
    (h : ∀ c rest, unescape (escape c ++ rest) = c :: unescape rest) (text : List Char) :
    unescape (text.flatMap escape) = text := by
  induction text with
  | nil => rfl
  | cons c rest ih => rw [List.flatMap_cons, h, ih]

theorem not_mem_escapeInText (c : Char) : '<' ∉ escapeInText c ∧ '>' ∉ escapeInText c := by
  rw [escapeInText]
  split
  · simp
  · split
    · simp
    · split
      · simp
      · next hlt hgt => simp [Ne.symm hlt, Ne.symm hgt]

theorem not_mem_escapeInValue (c : Char) :
    '<' ∉ escapeInValue c ∧ '>' ∉ escapeInValue c ∧ '"' ∉ escapeInValue c := by
  rw [escapeInValue]
  split
  · simp
  · next hquote =>
      obtain ⟨hlt, hgt⟩ := not_mem_escapeInText c
      refine ⟨hlt, hgt, ?_⟩
      rw [escapeInText]
      split
      · simp
      · split
        · simp
        · split
          · simp
          · simp [Ne.symm hquote]

/-! ## Pieces -/

/-- What a piece says. -/
def content : Piece → String
  | .markup html => html
  | .text content => content
  | .value content => content

/-- The characters that would end what a piece says. -/
def enders : Piece → List Char
  | .markup _ => []
  | .text _ => ['<', '>']
  | .value _ => ['<', '>', '"']

/-- What a written piece says; markup stands for itself. -/
def reread : Piece → String → String
  | .markup _, written => written
  | .text _, written => String.ofList (unescape written.toList)
  | .value _, written => String.ofList (unescape written.toList)

/-- No piece is ended by what it says. -/
theorem ender_not_mem_written {piece : Piece} {c : Char} (h : c ∈ piece.enders) :
    c ∉ piece.written.toList := by
  cases piece with
  | markup html => cases h
  | text content =>
      rw [written, String.toList_ofList, List.mem_flatMap]
      rintro ⟨d, -, hmem⟩
      obtain ⟨hlt, hgt⟩ := not_mem_escapeInText d
      simp only [enders, List.mem_cons, List.not_mem_nil, or_false] at h
      rcases h with rfl | rfl
      · exact hlt hmem
      · exact hgt hmem
  | value content =>
      rw [written, String.toList_ofList, List.mem_flatMap]
      rintro ⟨d, -, hmem⟩
      obtain ⟨hlt, hgt, hquote⟩ := not_mem_escapeInValue d
      simp only [enders, List.mem_cons, List.not_mem_nil, or_false] at h
      rcases h with rfl | rfl | rfl
      · exact hlt hmem
      · exact hgt hmem
      · exact hquote hmem

/-- What a piece says is what it is written as, with the escapes undone. -/
theorem reread_written (piece : Piece) : piece.reread piece.written = piece.content := by
  cases piece with
  | markup html => rfl
  | text content =>
      rw [reread, written, String.toList_ofList, unescape_flatMap unescape_escapeInText,
        String.ofList_toList]
      rfl
  | value content =>
      rw [reread, written, String.toList_ofList, unescape_flatMap unescape_escapeInValue,
        String.ofList_toList]
      rfl

/-- A piece with the columns of a row filled in where it is no markup. -/
def fill (pattern : Pattern) (row : Row) : Piece → Piece
  | .markup html => .markup html
  | .text content => .text (Template.fill pattern row content)
  | .value content => .value (Template.fill pattern row content)

/-- Two pieces are the same markup, or two texts, or two values. -/
inductive SameMarkup : Piece → Piece → Prop
  | markup (html : String) : SameMarkup (.markup html) (.markup html)
  | text (content other : String) : SameMarkup (.text content) (.text other)
  | value (content other : String) : SameMarkup (.value content) (.value other)

theorem sameMarkup_fill (pattern : Pattern) (row other : Row) (piece : Piece) :
    SameMarkup (piece.fill pattern row) (piece.fill pattern other) := by
  cases piece with
  | markup html => exact .markup html
  | text content => exact .text _ _
  | value content => exact .value _ _

end Piece

/-! ## Filled templates -/

namespace Shape

variable (pattern : Pattern) (row : Row)

theorem attributePieces_fill (attributes : List (String × String)) :
    Fragment.attributePieces
        (attributes.map fun (name, value) => (name, Template.fill pattern row value)) =
      (Fragment.attributePieces attributes).map (Piece.fill pattern row) := by
  induction attributes with
  | nil => rfl
  | cons entry rest ih =>
      obtain ⟨name, value⟩ := entry
      simp only [List.map_cons, Fragment.attributePieces, ih, Piece.fill]

theorem startPieces_fill (tag : String) (attributes : List (String × String)) :
    Fragment.startPieces tag
        (attributes.map fun (name, value) => (name, Template.fill pattern row value)) =
      (Fragment.startPieces tag attributes).map (Piece.fill pattern row) := by
  simp only [Fragment.startPieces, attributePieces_fill, List.cons_append, List.map_cons,
    List.map_append, List.map_nil, Piece.fill]

mutual

/-- A row is filled in piece by piece. -/
theorem pieces_fill : ∀ shape : Shape,
    (shape.fill pattern row).fragment.pieces = shape.fragment.pieces.map (Piece.fill pattern row)
  | .node (.element tag attributes) children => by
      have hbelow := piecesOfAll_fillAll children
      simp only [fill, Template.fillKind, Template.fillsBelow, if_true, fragment, Fragment.pieces,
        startPieces_fill, hbelow]
      split
      · rfl
      · simp only [List.map_append, List.map_cons, List.map_nil, Piece.fill]
  | .node (.text content) children => by
      simp only [fill, Template.fillKind, fragment, Fragment.pieces, List.map_cons, List.map_nil,
        Piece.fill]
  | .node (.comment content) children => by
      simp only [fill, Template.fillKind, fragment, Fragment.pieces, List.map_cons, List.map_nil,
        Piece.fill]
  | .node (.anchor name) children => by
      simp only [fill, Template.fillKind, Template.fillsBelow, if_true, fragment, Fragment.pieces,
        piecesOfAll_fillAll children]

theorem piecesOfAll_fillAll : ∀ shapes : List Shape,
    Fragment.piecesOfAll (fragments (fillAll pattern row shapes)) =
      (Fragment.piecesOfAll (fragments shapes)).map (Piece.fill pattern row)
  | [] => rfl
  | shape :: rest => by
      simp only [fillAll, fragments, Fragment.piecesOfAll, List.map_append, pieces_fill shape,
        piecesOfAll_fillAll rest]

end

end Shape

namespace Markup

/-- The pieces of the HTML of some nodes. -/
def pieces (markup : Markup) (ids : List NodeId) : List Piece :=
  Fragment.piecesOfAll (ids.map markup.fragment)

/-- The pieces of a template with a row filled in. -/
def filledPieces (markup : Markup) (template : List NodeId) (pattern : Pattern) (row : Row) :
    List Piece :=
  (markup.substitute template pattern row).1.pieces (markup.substitute template pattern row).2

theorem filledPieces_eq {markup : Markup} {plots : List Plot} {template : List NodeId}
    (h : Garden markup plots)
    (htemplate : ∀ id ∈ template, ∃ plot ∈ plots, plot.IsWhole ∧ plot.root = id)
    (pattern : Pattern) (row : Row) :
    markup.filledPieces template pattern row =
      (markup.pieces template).map (Piece.fill pattern row) := by
  have hblank : template.map markup.fragment = Shape.fragments (template.map markup.shape) := by
    induction template with
    | nil => rfl
    | cons id rest ih =>
        obtain ⟨plot, hplot, hwhole, rfl⟩ := htemplate id List.mem_cons_self
        rw [List.map_cons, List.map_cons, Shape.fragments, h.fragment_eq hplot hwhole,
          h.shape_eq hplot hwhole, ih fun other hother => htemplate other (by simp [hother])]
  obtain ⟨copies, hnodes, hshapes, hwhole, hgarden⟩ := h.substitute pattern row (h.rooted_shape htemplate)
  rw [filledPieces, pieces, ← hnodes, hgarden.left.fragments_eq hwhole, hshapes,
    Shape.piecesOfAll_fillAll, ← hblank]
  rfl

end Markup

/-- Whatever two rows are filled into a template, their HTML is the same sequence of pieces but for
what texts and attribute values say, which is the template's with the row filled in. No text or value
is ended by what it says, and undoing the escapes gives it back. -/
theorem rows_share_markup {markup : Markup} {plots : List Plot} {template : List NodeId}
    (h : Garden markup plots)
    (htemplate : ∀ id ∈ template, ∃ plot ∈ plots, plot.IsWhole ∧ plot.root = id)
    (pattern : Pattern) (row other : Row) :
    (markup.substitute template pattern row).1.html (markup.substitute template pattern row).2 =
        Fragment.write (markup.filledPieces template pattern row) ∧
      List.Forall₂ Piece.SameMarkup (markup.filledPieces template pattern row)
        (markup.filledPieces template pattern other) ∧
      markup.filledPieces template pattern row =
        (markup.pieces template).map (Piece.fill pattern row) ∧
      ∀ piece ∈ markup.filledPieces template pattern row,
        (∀ c ∈ piece.enders, c ∉ piece.written.toList) ∧
          piece.reread piece.written = piece.content := by
  have hrow := Markup.filledPieces_eq h htemplate pattern row
  have hother := Markup.filledPieces_eq h htemplate pattern other
  refine ⟨rfl, ?_, hrow, fun piece _ => ⟨fun c hc => Piece.ender_not_mem_written hc, ?_⟩⟩
  · rw [hrow, hother, List.forall₂_map_left_iff, List.forall₂_map_right_iff, List.forall₂_same]
    exact fun piece _ => Piece.sameMarkup_fill pattern row other piece
  · exact Piece.reread_written piece

/-- A template that shows the column `v` in a text and in an attribute; the comment stays. -/
def badge : Markup := ⟨#[
  { kind := .element "b" [("title", "@v")], children := [1, 2] },
  { kind := .text "@v", parent := some 0 },
  { kind := .comment "@v", parent := some 0 }]⟩

/-- The column `v` behind a sign. -/
def signPattern : Pattern :=
  .ofRule (.sequence (.one (.single '@')) (.group 1 (.one (.single 'v'))))

/-- A row that is out to end a value, to begin an element, and to pass for an escape. -/
def hostileRow : Row := [("v", .string "\"><i>&lt;")]

theorem hostile_row_contained :
    Garden badge [.tree 0 (.element "b" [("title", "@v")])
      [.tree 1 (.text "@v") [], .tree 2 (.comment "@v") []]] ∧
    List.Forall₂ Piece.SameMarkup (badge.filledPieces [0] signPattern hostileRow)
      (badge.filledPieces [0] signPattern [("v", .string "x")]) ∧
    (badge.substitute [0] signPattern hostileRow).1.html
        (badge.substitute [0] signPattern hostileRow).2 =
      "<b title=\"&quot;&gt;&lt;i&gt;&amp;lt;\">\"&gt;&lt;i&gt;&amp;lt;<!--@v--></b>" := by
  have hgarden : Garden badge [.tree 0 (.element "b" [("title", "@v")])
      [.tree 1 (.text "@v") [], .tree 2 (.comment "@v") []]] := by
    refine ⟨?_, by decide⟩
    simp only [Plot.StandAll, Plot.Stands]
    decide
  have htemplate : ∀ id ∈ [0], ∃ plot ∈ [Plot.tree 0 (.element "b" [("title", "@v")])
      [.tree 1 (.text "@v") [], .tree 2 (.comment "@v") []]], plot.IsWhole ∧ plot.root = id := by
    intro id hid
    exact ⟨_, List.mem_singleton_self _, by simp [Plot.IsWhole, Plot.AreWhole],
      (List.mem_singleton.mp hid).symm⟩
  obtain ⟨-, hsame, -, -⟩ :=
    rows_share_markup hgarden htemplate signPattern hostileRow [("v", .string "x")]
  exact ⟨hgarden, hsame, by decide +kernel⟩

end ReactiveMarkup
