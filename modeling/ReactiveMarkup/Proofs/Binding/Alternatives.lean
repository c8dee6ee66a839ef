import ReactiveMarkup.Binding.Path
import Mathlib.Data.List.TakeDrop

/-!
# Bodies of object bindings read back

An alternative is written as a literal in parentheses, as a path, or as a path with a key in
brackets, and a body is such alternatives between bars with blanks around them. The body is cut at
its bars before anything else is known about it, and the cutting only counts parentheses. So it is
the count that decides what reads back: as long as every alternative holds its bars inside its own
parentheses and leaves none open for the next one, each piece is an alternative with its blanks, and
each alternative reads as what it was written for.

Literals and dotted names always behave, brackets do not: they protect nothing. A bar in a key ends
the alternative unless the key has parentheses around it.
-/

namespace ReactiveMarkup

/-! ## Blanks -/

namespace Unicode

/-- The code points of a table. -/
def Ranges.members (ranges : Ranges) : List Nat :=
  ranges.flatMap fun range => List.range' range.1 (range.2 + 1 - range.1)

theorem Ranges.mem_members {ranges : Ranges} {code : Nat} (h : ranges.covers code = true) :
    code ∈ ranges.members := by
  induction ranges with
  | nil => cases h
  | cons range rest ih =>
    obtain ⟨first, last⟩ := range
    simp only [covers] at h
    rw [members, List.flatMap_cons, List.mem_append, List.mem_range'_1]
    split at h
    · cases h
    · split at h
      · exact .inl (by omega)
      · exact .inr (ih h)

theorem blanks_apart : (blankRanges.members.all fun code =>
    !letterRanges.covers code && !numericRanges.covers code) = true := by decide +kernel

/-- No letter and no number is a blank. -/
theorem isBlank_of_isLetterOrNumber {c : Char} (h : isLetterOrNumber c = true) :
    isBlank c = false := by
  rw [← Bool.not_eq_true]
  intro hblank
  have hapart := List.all_eq_true.mp blanks_apart _ (Ranges.mem_members hblank)
  simp only [isLetterOrNumber, isLetter] at h
  simp_all

end Unicode

namespace Text

/-- No blank stands at an end of the text. -/
structure Tight (text : List Char) : Prop where
  head : ∀ c ∈ text.head?, Unicode.isBlank c = false
  last : ∀ c ∈ text.getLast?, Unicode.isBlank c = false

theorem Tight.reverse {text : List Char} (h : Tight text) : Tight text.reverse :=
  ⟨by simpa using h.last, by simpa using h.head⟩

theorem Tight.of_forall {text : List Char} (h : ∀ c ∈ text, Unicode.isBlank c = false) :
    Tight text :=
  ⟨fun c hc => h c (List.mem_of_mem_head? hc), fun c hc => h c (List.mem_of_getLast? hc)⟩

/-- Dropping blanks stops at the first character of a tight text. -/
theorem Tight.dropWhile {blanks text : List Char} (h : Tight text)
    (hblanks : ∀ c ∈ blanks, Unicode.isBlank c = true) :
    (blanks ++ text).dropWhile Unicode.isBlank = text := by
  rw [List.dropWhile_append_of_pos hblanks]
  cases text with
  | nil => rfl
  | cons c rest => rw [List.dropWhile_cons_of_neg (by simp [h.head c rfl])]

theorem Tight.trimChars {before text after : List Char} (h : Tight text)
    (hbefore : ∀ c ∈ before, Unicode.isBlank c = true)
    (hafter : ∀ c ∈ after, Unicode.isBlank c = true) :
    trimChars (before ++ text ++ after) = text := by
  cases text with
  | nil =>
    have hblank : (before ++ [] ++ after).dropWhile Unicode.isBlank = [] := by
      rw [List.append_nil, List.dropWhile_append_of_pos hbefore, ← List.append_nil after,
        h.dropWhile hafter]
    rw [Text.trimChars, hblank]
    rfl
  | cons c rest =>
    have hfront : (before ++ (c :: rest) ++ after).dropWhile Unicode.isBlank
        = (c :: rest) ++ after := by
      rw [List.append_assoc, List.dropWhile_append_of_pos hbefore, List.cons_append,
        List.dropWhile_cons_of_neg (by simp [h.head c rfl])]
    rw [Text.trimChars, hfront, List.reverse_append,
      h.reverse.dropWhile (by simpa using hafter), List.reverse_reverse]

theorem piecesBy_eq_splitOnP (isBreak : Char → Bool) (text : List Char) :
    piecesBy isBreak text = text.splitOnP isBreak := by
  induction text with
  | nil => rw [piecesBy, List.splitOnP_nil]
  | cons c rest ih =>
    rw [piecesBy, ih, List.splitOnP_cons_eq_if_modifyHead]
    cases hpieces : rest.splitOnP isBreak with
    | nil => exact absurd hpieces (List.splitOnP_ne_nil _ _)
    | cons piece more => rfl

end Text

/-! ## Counting parentheses -/

namespace Alternative

/-- How many parentheses are open behind a text in front of which `depth` were, as bars are looked
for: none if a bar stands outside of them, and closing where nothing is open changes nothing. -/
def depthAfter : Nat → List Char → Option Nat
  | depth, [] => some depth
  | depth, c :: rest =>
    if c = '|' && depth = 0 then none
    else depthAfter (if c = '(' then depth + 1 else if c = ')' then depth - 1 else depth) rest

theorem depthAfter_append {text : List Char} {depth inner : Nat}
    (h : depthAfter depth text = some inner) (rest : List Char) :
    depthAfter depth (text ++ rest) = depthAfter inner rest := by
  induction text generalizing depth with
  | nil =>
    cases h
    rfl
  | cons c text ih =>
    simp only [depthAfter, List.cons_append] at h ⊢
    split at h
    · cases h
    · rename_i hbar
      rw [if_neg hbar, ih h]

/-- Characters that are neither bars nor parentheses do not count. -/
theorem depthAfter_of_forall {text : List Char}
    (h : ∀ c ∈ text, c ≠ '|' ∧ c ≠ '(' ∧ c ≠ ')') (depth : Nat) :
    depthAfter depth text = some depth := by
  induction text with
  | nil => rfl
  | cons c rest ih =>
    obtain ⟨hbar, hopen, hclose⟩ := h c (List.mem_cons_self ..)
    simp only [depthAfter, hbar, hopen, hclose, if_false, decide_false, Bool.false_and,
      Bool.false_eq_true]
    exact ih fun other hother => h other (List.mem_cons_of_mem _ hother)

theorem splitBars_ne_nil (depth : Nat) (text : List Char) : splitBars depth text ≠ [] := by
  cases text with
  | nil => simp [splitBars]
  | cons c rest =>
    rw [splitBars]
    split
    · exact List.cons_ne_nil _ _
    · dsimp only
      generalize splitBars _ rest = pieces
      cases pieces <;> exact List.cons_ne_nil _ _

/-- A text that holds its bars goes to the first of the pieces. -/
theorem splitBars_append {text : List Char} {depth inner : Nat}
    (h : depthAfter depth text = some inner) (rest : List Char) :
    splitBars depth (text ++ rest) = (splitBars inner rest).modifyHead (text ++ ·) := by
  induction text generalizing depth with
  | nil =>
    cases h
    cases hpieces : splitBars inner rest with
    | nil => exact absurd hpieces (splitBars_ne_nil _ _)
    | cons piece more => exact hpieces
  | cons c text ih =>
    simp only [depthAfter] at h
    split at h
    · cases h
    · rename_i hbar
      rw [List.cons_append, splitBars, if_neg hbar]
      simp only [ih h]
      cases hpieces : splitBars inner rest with
      | nil => exact absurd hpieces (splitBars_ne_nil _ _)
      | cons piece more => rfl

/-- A text whose parentheses match. -/
inductive Balanced : List Char → Prop
  | nil : Balanced []
  | char {c : Char} {rest : List Char} (hopen : c ≠ '(') (hclose : c ≠ ')')
      (hrest : Balanced rest) : Balanced (c :: rest)
  | group {inner rest : List Char} (hinner : Balanced inner) (hrest : Balanced rest) :
      Balanced ('(' :: inner ++ ')' :: rest)

/-- Inside a parenthesis a balanced text leaves the count as it is, whatever bars it has. -/
theorem Balanced.depthAfter {text : List Char} (h : Balanced text) (depth : Nat) :
    depthAfter (depth + 1) text = some (depth + 1) := by
  induction h generalizing depth with
  | nil => rfl
  | char hopen hclose hrest ih =>
    simp only [Alternative.depthAfter, hopen, hclose, Nat.add_one_ne_zero, decide_false,
      Bool.and_false, Bool.false_eq_true, if_false]
    exact ih depth
  | @group inner rest hinner hrest ihInner ihRest =>
    have hgroup : Alternative.depthAfter (depth + 1) ('(' :: inner ++ ')' :: rest)
        = Alternative.depthAfter (depth + 2) (inner ++ ')' :: rest) := rfl
    have hclosed : Alternative.depthAfter (depth + 2) (')' :: rest)
        = Alternative.depthAfter (depth + 1) rest := rfl
    rw [hgroup, depthAfter_append (ihInner (depth + 1)), hclosed, ihRest depth]

/-! ## Alternatives as they are written -/

/-- A segment of a path, as it is written. -/
structure Segment where
  text : List Char
  isSegment : ObjectPath.isSegment text = true

/-- A key in brackets, as it is written: any text without brackets, quotes and outer blanks. -/
structure Key where
  text : List Char
  ne_nil : text ≠ []
  tight : Text.Tight text
  plain : (text.all fun c => c != '[' && c != ']' && !ObjectPath.isQuote c) = true

theorem Key.plain_of_mem (key : Key) {c : Char} (hc : c ∈ key.text) :
    c ≠ ']' ∧ ObjectPath.isQuote c = false := by
  have hplain := List.all_eq_true.mp key.plain c hc
  simp only [Bool.and_eq_true, bne_iff_ne, Bool.not_eq_true'] at hplain
  exact ⟨hplain.1.2, hplain.2⟩

/-- An alternative, as it is written. -/
inductive Spelling where
  | literal (text : List Char) (balanced : Balanced text)
  | path (space name : Segment) (columns : List Segment) (key : Option Key)

namespace Spelling

/-- The segments of a path with dots between them. -/
def dotted (segments : List Segment) : List Char :=
  List.intercalate ['.'] (segments.map Segment.text)

/-- A key in its brackets, and nothing without a key. -/
def bracketed : Option Key → List Char
  | none => []
  | some key => '[' :: key.text ++ [']']

/-- The text of an alternative. -/
def written : Spelling → List Char
  | literal text _ => '(' :: text ++ [')']
  | path space name columns key => dotted (space :: name :: columns) ++ bracketed key

/-- The columns of a path: its further segments, and the key as the last one. -/
def columnNames (columns : List Segment) (key : Option Key) : List String :=
  (columns.map Segment.text ++ key.toList.map Key.text).map String.ofList

/-- What an alternative is written for. -/
def meaning : Spelling → Alternative
  | literal text _ => .literal (String.ofList text)
  | path space name columns key =>
    .path ⟨Unicode.lower (String.ofList space.text ++ "." ++ String.ofList name.text),
      if columns.isEmpty && key.isNone then none else some (columnNames columns key)⟩

/-- How many parentheses the key of an alternative leaves open; none if the key has a bar outside of
parentheses of its own. -/
def leavesOpen : Spelling → Option Nat
  | path _ _ _ (some key) => depthAfter 0 key.text
  | _ => some 0

end Spelling

/-- An alternative with the blanks around it. -/
structure Entry where
  before : List Char
  spelling : Spelling
  after : List Char
  blank_before : ∀ c ∈ before, Unicode.isBlank c = true
  blank_after : ∀ c ∈ after, Unicode.isBlank c = true

/-- The text of an alternative with its blanks. -/
def Entry.written (entry : Entry) : List Char :=
  entry.before ++ entry.spelling.written ++ entry.after

/-- The body of an object binding: alternatives between bars. -/
def bodyOf (entries : List Entry) : String :=
  String.ofList (List.intercalate ['|'] (entries.map Entry.written))

/-! ## Each alternative reads back -/

/-- The characters of a segment are none of those that mean something to a reader of bodies. -/
theorem Segment.plain (segment : Segment) : ∀ c ∈ segment.text,
    Unicode.isBlank c = false ∧ c ∉ ['.', '[', '|', '(', ')'] := by
  have hallowed : ∀ c : Char,
      (Unicode.isLetterOrNumber c || c == '_' || c == '$' || c == '-') = true →
      Unicode.isBlank c = false ∧ c ∉ ['.', '[', '|', '(', ')'] := by
    intro c hc
    refine ⟨?_, ?_⟩
    · simp only [Bool.or_eq_true, beq_iff_eq] at hc
      rcases hc with ((hc | rfl) | rfl) | rfl
      · exact Unicode.isBlank_of_isLetterOrNumber hc
      all_goals decide
    · intro hmem
      simp only [List.mem_cons, List.not_mem_nil, or_false] at hmem
      rcases hmem with rfl | rfl | rfl | rfl | rfl <;> revert hc <;> decide +kernel
  obtain ⟨text, hsegment⟩ := segment
  cases text with
  | nil => cases hsegment
  | cons first rest =>
    simp only [ObjectPath.isSegment, Bool.and_eq_true, List.all_eq_true] at hsegment
    intro c hc
    rcases List.mem_cons.mp hc with rfl | hc
    · apply hallowed
      have hfirst := hsegment.1
      simp only [Unicode.isLetterOrNumber, Bool.or_eq_true] at hfirst ⊢
      rcases hfirst with (hletter | hlow) | hdollar
      · exact .inl (.inl (.inl (.inl hletter)))
      · exact .inl (.inl (.inr hlow))
      · exact .inl (.inr hdollar)
    · exact hallowed c (hsegment.2 c hc)

theorem Segment.ne_nil (segment : Segment) : segment.text ≠ [] := by
  obtain ⟨text, hsegment⟩ := segment
  rintro rfl
  cases hsegment

namespace Spelling

theorem dotted_cons_cons (first second : Segment) (rest : List Segment) :
    dotted (first :: second :: rest) = first.text ++ '.' :: dotted (second :: rest) := by
  rw [dotted, List.map_cons, List.map_cons, List.intercalate_cons_cons, List.append_assoc]
  rfl

theorem plain_dotted (segments : List Segment) : ∀ c ∈ dotted segments,
    Unicode.isBlank c = false ∧ c ∉ ['[', '|', '(', ')'] := by
  have hsegment : ∀ segment : Segment, ∀ c ∈ segment.text,
      Unicode.isBlank c = false ∧ c ∉ ['[', '|', '(', ')'] := fun segment c hc =>
    ⟨(segment.plain c hc).1, fun hmem => (segment.plain c hc).2 (List.mem_cons_of_mem _ hmem)⟩
  induction segments with
  | nil => exact fun c hc => absurd hc List.not_mem_nil
  | cons first rest ih =>
    cases rest with
    | nil => simpa [dotted] using hsegment first
    | cons second more =>
      intro c hc
      rw [dotted_cons_cons, List.mem_append, List.mem_cons] at hc
      rcases hc with hc | rfl | hc
      · exact hsegment first c hc
      · decide
      · exact ih c hc

/-- Dots and no blanks stand between the segments, so cutting at the dots gives them back. -/
theorem pieces_dotted (segments : List Segment) (h : segments ≠ []) :
    (Text.pieces '.' (dotted segments)).map Text.trimChars = segments.map Segment.text := by
  have hdots : ∀ text ∈ segments.map Segment.text, '.' ∉ text := by
    intro text htext hdot
    obtain ⟨segment, -, rfl⟩ := List.mem_map.mp htext
    exact (segment.plain _ hdot).2 (List.mem_cons_self ..)
  have hpieces : Text.pieces '.' (dotted segments) = segments.map Segment.text := by
    rw [Text.pieces, Text.piecesBy_eq_splitOnP]
    exact List.splitOn_intercalate '.' hdots (by simpa using h)
  rw [hpieces, List.map_map]
  refine List.map_congr_left fun segment _ => ?_
  have htight : Text.Tight segment.text := .of_forall fun c hc => (segment.plain c hc).1
  simpa using @Text.Tight.trimChars [] _ [] htight (by simp) (by simp)

theorem dotted_ne_nil (first second : Segment) (rest : List Segment) :
    dotted (first :: second :: rest) ≠ [] := by
  rw [dotted_cons_cons]
  exact List.append_ne_nil_of_left_ne_nil first.ne_nil _

/-- A key in brackets is read as it is. -/
theorem bracketKey_text (key : Key) : ObjectPath.bracketKey key.text = key.text := by
  have htrim : Text.trimChars key.text = key.text := by
    simpa using @Text.Tight.trimChars [] _ [] key.tight (by simp) (by simp)
  have hquotes : ∀ text : List Char, (∀ c ∈ text, c ∈ key.text) →
      text.dropWhile ObjectPath.isQuote = text := by
    intro text hsub
    cases text with
    | nil => rfl
    | cons c rest =>
      exact List.dropWhile_cons_of_neg (by simp [(key.plain_of_mem (hsub c (by simp))).2])
  rw [ObjectPath.bracketKey, htrim, hquotes _ (fun _ hc => hc),
    hquotes _ (fun _ hc => List.mem_reverse.mp hc), List.reverse_reverse]

/-- What stands behind the segments of a path begins with the first bracket, if it is empty or
begins with a bracket. -/
theorem span_dotted (segments : List Segment) {rest : List Char}
    (h : rest.head? ∈ [none, some '[']) :
    (dotted segments ++ rest).span (· != '[') = (dotted segments, rest) := by
  have hplain : ∀ c ∈ dotted segments, (c != '[') = true := fun c hc => by
    simpa using fun h => (plain_dotted segments c hc).2 (by simp [h])
  rw [List.span_eq_takeWhile_dropWhile, List.takeWhile_append_of_pos hplain,
    List.dropWhile_append_of_pos hplain]
  cases rest with
  | nil => simp
  | cons c rest =>
    simp only [List.head?_cons, List.mem_cons, List.not_mem_nil, or_false, Option.some.injEq,
      reduceCtorEq, false_or] at h
    simp [h]

theorem splitBracket_written (segments : List Segment) (key : Option Key) :
    ObjectPath.splitBracket (dotted segments ++ bracketed key)
      = .ok (dotted segments, key.map Key.text) := by
  cases key with
  | none =>
    rw [ObjectPath.splitBracket, bracketed, span_dotted segments (by simp)]
    rfl
  | some key =>
    rw [ObjectPath.splitBracket, bracketed, span_dotted segments (by simp)]
    simp only [List.cons_append, List.getLast?_concat, List.dropLast_concat, if_true,
      bracketKey_text]
    cases htext : key.text with
    | nil => exact absurd htext key.ne_nil
    | cons c rest => rw [Option.map_some, htext]

/-- A bracket that is not the last character of a path is not closed. -/
theorem splitBracket_cut (segments : List Segment) {inner : List Char} (h : ']' ∉ inner) :
    ObjectPath.splitBracket (dotted segments ++ '[' :: inner) = .error .unterminatedBracket := by
  have hlast : inner.getLast? ≠ some ']' := fun hmem => h (List.mem_of_getLast? hmem)
  rw [ObjectPath.splitBracket, span_dotted segments (by simp)]
  exact if_neg hlast

theorem find?_segments (segments : List Segment) :
    (segments.map Segment.text).find? (fun segment => !ObjectPath.isSegment segment) = none := by
  rw [List.find?_eq_none]
  intro text htext
  obtain ⟨segment, -, rfl⟩ := List.mem_map.mp htext
  simp [segment.isSegment]

theorem ofSegments_text (space name : Segment) (columns : List Segment) (key : Option Key) :
    ObjectPath.ofSegments ((space :: name :: columns).map Segment.text) (key.map Key.text) = .ok
      ⟨Unicode.lower (String.ofList space.text ++ "." ++ String.ofList name.text),
        if columns.isEmpty && key.isNone then none else some (columnNames columns key)⟩ := by
  have hsegments := find?_segments (space :: name :: columns)
  simp only [List.map_cons] at hsegments
  simp only [ObjectPath.ofSegments, List.map_cons, hsegments]
  cases key <;> cases columns <;> simp [columnNames]

theorem parse_path {text : String} {space name : Segment} {columns : List Segment}
    {key : Option Key}
    (h : Text.trimChars text.toList = dotted (space :: name :: columns) ++ bracketed key) :
    (ObjectPath.parse text).map .path = .ok (path space name columns key).meaning := by
  simp only [ObjectPath.parse, h, splitBracket_written]
  have hpieces := pieces_dotted (space :: name :: columns) (List.cons_ne_nil _ _)
  simp only [bind, Except.bind, hpieces, ofSegments_text]
  rfl

theorem tight_written (spelling : Spelling) : Text.Tight spelling.written := by
  cases spelling with
  | literal text balanced =>
    constructor
    · rintro c ⟨⟩
      decide
    · intro c hc
      rw [written, List.getLast?_concat] at hc
      cases hc
      decide
  | path space name columns key =>
    have hdotted : Text.Tight (dotted (space :: name :: columns)) :=
      .of_forall fun c hc => (plain_dotted _ c hc).1
    cases key with
    | none => simpa [written, bracketed] using hdotted
    | some key =>
      constructor
      · obtain ⟨first, rest, hcons⟩ :=
          List.exists_cons_of_ne_nil (dotted_ne_nil space name columns)
        intro c hc
        rw [written, hcons] at hc
        exact hdotted.head c (hcons ▸ hc)
      · intro c hc
        rw [written, bracketed, ← List.append_assoc, List.getLast?_concat] at hc
        cases hc
        decide

end Spelling

theorem trimChars_written (entry : Entry) : Text.trimChars entry.written = entry.spelling.written :=
  entry.spelling.tight_written.trimChars entry.blank_before entry.blank_after

/-- A text that begins with a segment is read as a path. -/
theorem parse_dotted {text : String} {space name : Segment} {columns : List Segment}
    {rest : List Char}
    (h : Text.trimChars text.toList = Spelling.dotted (space :: name :: columns) ++ rest) :
    parse text = (ObjectPath.parse text).map .path := by
  obtain ⟨c, more, hcons⟩ :=
    List.exists_cons_of_ne_nil (Spelling.dotted_ne_nil space name columns)
  have hopen : c ≠ '(' := by
    rintro rfl
    exact (Spelling.plain_dotted _ _ (hcons ▸ List.mem_cons_self ..)).2 (by simp)
  rw [parse, h, hcons, List.cons_append]
  split
  · rename_i heq
    exact absurd (List.cons.inj heq).1 hopen
  · rfl

/-- An alternative reads as what it was written for, whatever blanks stand around it. -/
theorem parse_written (entry : Entry) :
    parse (String.ofList entry.written) = .ok entry.spelling.meaning := by
  have htrim : Text.trimChars (String.ofList entry.written).toList = entry.spelling.written := by
    rw [String.toList_ofList, trimChars_written]
  cases hspelling : entry.spelling with
  | literal text balanced =>
    rw [parse, htrim, hspelling]
    simp [Spelling.written, Spelling.meaning]
  | path space name columns key =>
    rw [hspelling, Spelling.written] at htrim
    rw [parse_dotted htrim, Spelling.parse_path htrim]

/-! ## Whole bodies -/

theorem depthAfter_blanks {blanks : List Char} (h : ∀ c ∈ blanks, Unicode.isBlank c = true)
    (depth : Nat) : depthAfter depth blanks = some depth := by
  refine depthAfter_of_forall (fun c hc => ?_) depth
  refine ⟨?_, ?_, ?_⟩ <;> rintro rfl <;> exact absurd (h _ hc) (by decide)

theorem Spelling.depthAfter_dotted (segments : List Segment) (depth : Nat) :
    depthAfter depth (dotted segments) = some depth := by
  refine depthAfter_of_forall (fun c hc => ?_) depth
  have hplain := (plain_dotted segments c hc).2
  simp only [List.mem_cons, not_or] at hplain
  exact ⟨hplain.2.1, hplain.2.2.1, hplain.2.2.2.1⟩

theorem Spelling.depthAfter_written {spelling : Spelling} {depth : Nat}
    (h : spelling.leavesOpen = some depth) : depthAfter 0 spelling.written = some depth := by
  cases spelling with
  | literal text balanced =>
    cases h
    have hopen : depthAfter 0 ('(' :: text ++ [')']) = depthAfter 1 (text ++ [')']) := rfl
    rw [written, hopen, depthAfter_append (balanced.depthAfter 0)]
    rfl
  | path space name columns key =>
    rw [written, depthAfter_append (depthAfter_dotted _ 0)]
    cases key with
    | none => exact h
    | some key =>
      have hbracket : depthAfter 0 ('[' :: key.text ++ [']']) = depthAfter 0 (key.text ++ [']']) :=
        rfl
      rw [bracketed, hbracket, depthAfter_append h]
      exact depthAfter_of_forall (by simp) depth

theorem Entry.depthAfter_written {entry : Entry} {depth : Nat}
    (h : entry.spelling.leavesOpen = some depth) : depthAfter 0 entry.written = some depth := by
  rw [written, List.append_assoc, depthAfter_append (depthAfter_blanks entry.blank_before 0),
    depthAfter_append (Spelling.depthAfter_written h), depthAfter_blanks entry.blank_after]

/-- Alternatives that hold their bars are cut off one by one, whatever comes behind them. -/
theorem splitBars_intercalate {earlier : List Entry}
    (hearlier : ∀ entry ∈ earlier, entry.spelling.leavesOpen = some 0) {later : List (List Char)}
    (hlater : later ≠ []) :
    splitBars 0 (List.intercalate ['|'] (earlier.map Entry.written ++ later))
      = earlier.map Entry.written ++ splitBars 0 (List.intercalate ['|'] later) := by
  induction earlier with
  | nil => rfl
  | cons first rest ih =>
    have hfirst := Entry.depthAfter_written (hearlier first (List.mem_cons_self ..))
    have hrest := ih fun entry hentry => hearlier entry (List.mem_cons_of_mem _ hentry)
    obtain ⟨second, more, hmore⟩ := List.exists_cons_of_ne_nil
      (List.append_ne_nil_of_right_ne_nil (rest.map Entry.written) hlater)
    have hbar (text : List Char) : splitBars 0 (['|'] ++ text) = [] :: splitBars 0 text := rfl
    rw [List.map_cons, List.cons_append, List.cons_append, ← hrest, hmore,
      List.intercalate_cons_cons, List.append_assoc, splitBars_append hfirst, hbar,
      List.modifyHead_cons, List.append_nil]

/-- The last alternative is the rest of the body, also with a parenthesis left open. -/
theorem splitBars_last {last : Entry} (h : last.spelling.leavesOpen ≠ none) :
    splitBars 0 last.written = [last.written] := by
  obtain ⟨depth, hdepth⟩ := Option.ne_none_iff_exists'.mp h
  simpa [splitBars] using splitBars_append (Entry.depthAfter_written hdepth) []

theorem mapM_parse_written (entries : List Entry) :
    (entries.map Entry.written).mapM (fun piece => parse (String.ofList piece))
      = .ok (entries.map fun entry => entry.spelling.meaning) := by
  induction entries with
  | nil => rfl
  | cons entry rest ih =>
    rw [List.map_cons, List.mapM_cons, parse_written, ih]
    rfl

/-- **Bodies read back.** A body gives exactly the alternatives it was written for, if each of them
holds its bars in parentheses of its own and all but the last close what they open. -/
theorem parseAll_bodyOf (earlier : List Entry) (last : Entry)
    (hearlier : ∀ entry ∈ earlier, entry.spelling.leavesOpen = some 0)
    (hlast : last.spelling.leavesOpen ≠ none) :
    parseAll (bodyOf (earlier ++ [last]))
      = .ok ((earlier ++ [last]).map fun entry => entry.spelling.meaning) := by
  have hpieces : splitBars 0 (bodyOf (earlier ++ [last])).toList
      = (earlier ++ [last]).map Entry.written := by
    rw [bodyOf, String.toList_ofList, List.map_append, List.map_singleton,
      splitBars_intercalate hearlier (List.cons_ne_nil _ _)]
    simpa using splitBars_last hlast
  rw [parseAll, hpieces, mapM_parse_written]

/-- A path without a blank around it. -/
def Entry.ofPath (space name : Segment) (columns : List Segment) (key : Option Key) : Entry where
  before := []
  spelling := .path space name columns key
  after := []
  blank_before := fun _ h => absurd h List.not_mem_nil
  blank_after := fun _ h => absurd h List.not_mem_nil

/-- The literal `n|(a)` with a blank on either side. -/
def nestedLiteral : Entry where
  before := [' ']
  spelling := .literal ['n', '|', '(', 'a', ')']
    (.char (by decide) (by decide) (.char (by decide) (by decide)
      (.group (.char (by decide) (by decide) .nil) .nil)))
  after := ['\t']
  blank_before := List.forall_mem_singleton.mpr (by decide)
  blank_after := List.forall_mem_singleton.mpr (by decide)

/-- The key `(|)`, which holds its bar. -/
def shieldedKey : Key where
  text := ['(', '|', ')']
  ne_nil := List.cons_ne_nil _ _
  tight := ⟨by rintro _ ⟨⟩; decide, by rintro _ ⟨⟩; decide⟩
  plain := by decide

/-- The key `z(`, which leaves a parenthesis open. -/
def openKey : Key where
  text := ['z', '(']
  ne_nil := List.cons_ne_nil _ _
  tight := ⟨by rintro _ ⟨⟩; decide, by rintro _ ⟨⟩; decide⟩
  plain := by decide

/-- A literal and a path with a column, and both of them hold their bars. -/
def shieldedBody : List Entry := [nestedLiteral,
  .ofPath ⟨['D', 'b'], by decide +kernel⟩ ⟨['c'], by decide +kernel⟩
    [⟨['_', '1'], by decide +kernel⟩] (some shieldedKey)]

/-- A path to end a body with. -/
def openPath : Entry :=
  .ofPath ⟨['a'], by decide +kernel⟩ ⟨['b'], by decide +kernel⟩ [] (some openKey)

theorem mixed_body_reads_back :
    bodyOf (shieldedBody ++ [openPath]) = " (n|(a))\t|Db.c._1[(|)]|a.b[z(]" ∧
      parseAll (bodyOf (shieldedBody ++ [openPath])) = .ok [.literal "n|(a)",
        .path ⟨"db.c", some ["_1", "(|)"]⟩, .path ⟨"a.b", some ["z("]⟩] := by
  refine ⟨by decide +kernel, ?_⟩
  rw [parseAll_bodyOf shieldedBody openPath
    (List.forall_mem_cons.mpr ⟨rfl, List.forall_mem_singleton.mpr rfl⟩) (by decide +kernel)]
  decide +kernel

/-! ## A bar in a key -/

theorem depthAfter_eq_none {text : List Char} {depth : Nat} (h : depthAfter depth text = none) :
    ∃ front back, text = front ++ '|' :: back ∧ depthAfter depth front = some 0 := by
  induction text generalizing depth with
  | nil => cases h
  | cons c rest ih =>
    simp only [depthAfter] at h
    split at h
    · rename_i hbar
      simp only [Bool.and_eq_true, decide_eq_true_eq] at hbar
      exact ⟨[], rest, by rw [hbar.1, List.nil_append], by rw [hbar.2]; rfl⟩
    · rename_i hbar
      obtain ⟨front, back, rfl, hfront⟩ := ih h
      exact ⟨c :: front, back, rfl, by rw [depthAfter, if_neg hbar, hfront]⟩

/-- Trimming a text cut off behind a bracket takes nothing from in front of the bracket. -/
theorem trimChars_cut {before dotted front : List Char}
    (hbefore : ∀ c ∈ before, Unicode.isBlank c = true)
    (hdotted : ∀ c ∈ dotted, Unicode.isBlank c = false) :
    ∃ inner, Text.trimChars (before ++ (dotted ++ '[' :: front)) = dotted ++ '[' :: inner ∧
      ∀ c ∈ inner, c ∈ front := by
  refine ⟨(front.reverse.dropWhile Unicode.isBlank).reverse, ?_, fun c hc => ?_⟩
  · have hhead : Text.Tight (dotted ++ ['[']) := .of_forall fun c hc => by
      rcases List.mem_append.mp hc with hc | hc
      · exact hdotted c hc
      · rw [List.mem_singleton.mp hc]
        decide
    have hleft : (dotted ++ '[' :: front).dropWhile Unicode.isBlank = dotted ++ '[' :: front := by
      cases dotted with
      | nil => rfl
      | cons c rest => exact List.dropWhile_cons_of_neg (by simp [hdotted c])
    have hright : (front.reverse ++ (dotted ++ ['[']).reverse).dropWhile Unicode.isBlank
        = front.reverse.dropWhile Unicode.isBlank ++ (dotted ++ ['[']).reverse := by
      have hbracket := @Text.Tight.dropWhile [] _ hhead.reverse (by simp)
      rw [List.dropWhile_append]
      split
      · rename_i hempty
        rw [List.isEmpty_iff.mp hempty, List.nil_append]
        exact hbracket
      · rfl
    have hreverse : (dotted ++ '[' :: front).reverse
        = front.reverse ++ (dotted ++ ['[']).reverse := by simp
    rw [Text.trimChars, List.dropWhile_append_of_pos hbefore, hleft, hreverse, hright]
    simp
  · exact List.mem_reverse.mp ((List.dropWhile_sublist _).subset (List.mem_reverse.mp hc))

/-- A path cut off inside its brackets is refused. -/
theorem parse_cut {text : String} {space name : Segment} {columns : List Segment}
    {inner : List Char}
    (htrim : Text.trimChars text.toList
      = Spelling.dotted (space :: name :: columns) ++ '[' :: inner) (hinner : ']' ∉ inner) :
    parse text = .error (.malformedPath (String.ofList (Text.trimChars text.toList))
      .unterminatedBracket) := by
  rw [parse_dotted htrim, ObjectPath.parse]
  simp only [htrim, Spelling.splitBracket_cut _ hinner]
  rfl

/-- An alternative whose key has a bar is cut off inside its brackets, at the first such bar. -/
theorem exists_cut {barred : Entry} (h : barred.spelling.leavesOpen = none) :
    ∃ piece rest, barred.written = piece ++ '|' :: rest ∧ depthAfter 0 piece = some 0 ∧
      ∃ text, parse (String.ofList piece) = .error (.malformedPath text .unterminatedBracket) := by
  obtain ⟨before, spelling, after, hbefore, hafter⟩ := barred
  cases spelling with
  | literal text balanced => cases h
  | path space name columns key =>
    cases key with
    | none => cases h
    | some key =>
      obtain ⟨front, back, htext, hfront⟩ := depthAfter_eq_none h
      obtain ⟨inner, htrim, hsub⟩ := @trimChars_cut _ _ front hbefore fun c hc =>
        (Spelling.plain_dotted (space :: name :: columns) c hc).1
      have hinner : ']' ∉ inner := fun hmem =>
        (key.plain_of_mem (htext ▸ List.mem_append_left _ (hsub _ hmem))).1 rfl
      rw [← String.toList_ofList (l := before ++ _)] at htrim
      refine ⟨_, back ++ ']' :: after, ?_, ?_, _, parse_cut htrim hinner⟩
      · simp [Entry.written, Spelling.written, Spelling.bracketed, htext]
      · rw [depthAfter_append (depthAfter_blanks hbefore 0),
          depthAfter_append (Spelling.depthAfter_dotted _ 0)]
        exact hfront

/-- Whatever stands around it, a key with a bar outside of its own parentheses makes a body
malformed. -/
theorem parseAll_bar {earlier : List Entry} {barred : Entry}
    (hearlier : ∀ entry ∈ earlier, entry.spelling.leavesOpen = some 0)
    (hbarred : barred.spelling.leavesOpen = none) (later : List Entry) :
    ∃ text, parseAll (bodyOf (earlier ++ barred :: later))
      = .error (.malformedPath text .unterminatedBracket) := by
  obtain ⟨piece, rest, hwritten, hdepth, text, hparse⟩ := exists_cut hbarred
  have hbody : ∃ more, List.intercalate ['|'] (barred.written :: later.map Entry.written)
      = barred.written ++ more := by
    cases later with
    | nil => exact ⟨[], by simp⟩
    | cons next others =>
      exact ⟨_, by rw [List.map_cons, List.intercalate_cons_cons, List.append_assoc]⟩
  obtain ⟨more, hmore⟩ := hbody
  have hcut : splitBars 0 (barred.written ++ more) = piece :: splitBars 0 (rest ++ more) := by
    have hbar : splitBars 0 ('|' :: (rest ++ more)) = [] :: splitBars 0 (rest ++ more) := rfl
    rw [hwritten, List.append_assoc, splitBars_append hdepth, List.cons_append, hbar,
      List.modifyHead_cons, List.append_nil]
  refine ⟨text, ?_⟩
  rw [parseAll, bodyOf, String.toList_ofList, List.map_append, List.map_cons,
    splitBars_intercalate hearlier (List.cons_ne_nil _ _), hmore, hcut, List.mapM_append,
    mapM_parse_written, List.mapM_cons, hparse]
  rfl

/-- A path whose key is `x|y`. -/
def barredPath : Entry :=
  .ofPath ⟨['a'], by decide +kernel⟩ ⟨['b'], by decide +kernel⟩ [] (some {
    text := ['x', '|', 'y']
    ne_nil := List.cons_ne_nil _ _
    tight := ⟨by rintro _ ⟨⟩; decide, by rintro _ ⟨⟩; decide⟩
    plain := by decide })

theorem barred_key_not_read_back :
    bodyOf [barredPath] = "a.b[x|y]" ∧
      [barredPath].map (fun entry => entry.spelling.meaning) = [.path ⟨"a.b", some ["x|y"]⟩] ∧
      parseAll (bodyOf [barredPath]) = .error (.malformedPath "a.b[x" .unterminatedBracket) := by
  decide +kernel

end Alternative

end ReactiveMarkup
