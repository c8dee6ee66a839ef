import ReactiveMarkup.Proofs.Expression.Longest

/-!
# Where lexemes stand

The lexemes of a text fill it from the front to the end, up to white space: each is the longest that
any rule matches where it stands, none is empty, none overlaps the next, and a character that is in
none of them is white space. A text that has no lexemes is filled like that up to a place where no
rule matches, which is the place that is reported. Places count bytes, so what is told of them is told
of the characters in front: a part of a text that ends later has more bytes.

The walk through a text leaves lexemes behind and goes on with what is left. What it keeps is told of
the part of the text it has gone through, with everything in front of that part held fixed.
-/

namespace ReactiveMarkup

namespace Text

@[simp] theorem byteLength_nil : byteLength [] = 0 := rfl

theorem byteLength_append (front rest : List Char) :
    byteLength (front ++ rest) = byteLength front + byteLength rest := by
  rw [byteLength, String.ofList_append, String.utf8ByteSize_append]
  rfl

theorem byteLength_le_append (front rest : List Char) :
    byteLength front ≤ byteLength (front ++ rest) := by
  rw [byteLength_append]
  exact Nat.le_add_right _ _

theorem byteLength_pos {text : List Char} (h : text ≠ []) : 0 < byteLength text := by
  rw [byteLength, Nat.pos_iff_ne_zero, Ne, String.utf8ByteSize_eq_zero_iff, ← String.toList_inj]
  simpa using h

end Text

namespace Expression

open Text (byteLength byteLength_append byteLength_le_append)

/-- Lexemes fill a part of a text behind some front of it. Each is the longest one where it stands, and
what is in none of them is white space. -/
structure Fills (text before part : List Char) (placed : List Placed) : Prop where
  filled : ∀ word ∈ placed, word.start < word.stop
  apart : placed.Pairwise fun word next => word.stop ≤ next.start
  inside : ∀ word ∈ placed,
    byteLength before ≤ word.start ∧ word.stop ≤ byteLength (before ++ part)
  longest : ∀ word ∈ placed, ∃ front behind rest, text = front ++ behind ∧
    word.start = byteLength front ∧ Longest behind word.lexeme rest ∧
    word.stop = byteLength (front ++ word.lexeme.spelling)
  gaps : ∀ front c rest, part = front ++ c :: rest → isGap c = true ∨
    ∃ word ∈ placed, word.start ≤ byteLength (before ++ front) ∧
      byteLength (before ++ front ++ [c]) ≤ word.stop

/-- No lexeme and no white space is at the front of a text, which is not at its end. -/
structure Stuck (text : List Char) : Prop where
  solid : ∃ c rest, text = c :: rest ∧ isGap c = false
  unmatched : ∀ word : Lexeme, word.Regular → ¬ word.spelling <+: text

theorem Lexeme.Regular.spelling_ne_nil {word : Lexeme} (h : word.Regular) : word.spelling ≠ [] := by
  cases word with
  | name text =>
    obtain ⟨c, rest, htext, -⟩ := mem_oneOf_mul_star.mp h
    rw [Lexeme.spelling, htext]
    exact List.cons_ne_nil _ _
  | numeral text =>
    rcases mem_numeralRule.mp h with hword | ⟨whole, -, fraction, -, htext⟩
    · exact (mem_digitsRule.mp hword).1
    · rw [Lexeme.spelling, htext]
      exact List.append_ne_nil_of_right_ne_nil _ (List.cons_ne_nil _ _)
  | _ => exact List.cons_ne_nil _ _

/-- A character of two texts in a row is in the one or in the other. -/
theorem append_eq_append_cons {first second front rest : List Char} {c : Char}
    (h : first ++ second = front ++ c :: rest) :
    (∃ more, first = front ++ c :: more) ∨ ∃ more, front = first ++ more ∧ second = more ++ c :: rest := by
  rcases List.append_eq_append_iff.mp h with hright | ⟨more, rfl, hrest⟩
  · exact .inr hright
  · cases more with
    | nil => exact .inr ⟨[], by simp, hrest.symm⟩
    | cons d more =>
      obtain ⟨rfl, -⟩ := List.cons.inj hrest
      exact .inl ⟨more, rfl⟩

namespace Fills

variable {text before gap part behind rest : List Char} {word : Lexeme} {placed : List Placed}

/-- White space needs no lexeme. -/
theorem of_gap (h : ∀ c ∈ gap, isGap c = true) : Fills text before gap [] where
  filled _ hword := by cases hword
  apart := .nil
  inside _ hword := by cases hword
  longest _ hword := by cases hword
  gaps front c rest hgap := .inl (h c (by simp [hgap]))

/-- White space and the longest lexeme behind it, and then what is filled further on. -/
theorem cons (hgap : ∀ c ∈ gap, isGap c = true) (htext : text = before ++ gap ++ behind)
    (hword : Longest behind word rest) (h : Fills text (before ++ gap ++ word.spelling) part placed) :
    Fills text before (gap ++ word.spelling ++ part)
      (⟨word, byteLength (before ++ gap), byteLength (before ++ gap ++ word.spelling)⟩ :: placed) where
  filled := by
    refine List.forall_mem_cons.mpr ⟨?_, h.filled⟩
    rw [byteLength_append (before ++ gap)]
    exact Nat.lt_add_of_pos_right (Text.byteLength_pos hword.regular.spelling_ne_nil)
  apart := List.pairwise_cons.mpr ⟨fun next hnext => (h.inside next hnext).1, h.apart⟩
  inside := by
    refine List.forall_mem_cons.mpr ⟨⟨byteLength_le_append _ _, ?_⟩, fun next hnext => ?_⟩
    · rw [← List.append_assoc, ← List.append_assoc]
      exact byteLength_le_append _ _
    · obtain ⟨hstart, hstop⟩ := h.inside next hnext
      rw [List.append_assoc before] at hstart
      rw [← List.append_assoc, ← List.append_assoc]
      exact ⟨(byteLength_le_append _ _).trans hstart, hstop⟩
  longest := List.forall_mem_cons.mpr ⟨⟨before ++ gap, behind, rest, htext, rfl, hword, rfl⟩, h.longest⟩
  gaps front c more hpart := by
    rw [List.append_assoc] at hpart
    rcases append_eq_append_cons hpart with ⟨tail, hin⟩ | ⟨inner, rfl, hbehind⟩
    · exact .inl (hgap c (by simp [hin]))
    · rcases append_eq_append_cons hbehind with ⟨tail, hin⟩ | ⟨inner, rfl, hrest⟩
      · refine .inr ⟨_, List.mem_cons_self, ?_, ?_⟩
        · rw [← List.append_assoc]
          exact byteLength_le_append _ _
        · have hword : before ++ gap ++ word.spelling = before ++ (gap ++ inner) ++ [c] ++ tail := by
            rw [hin]
            simp
          rw [hword]
          exact byteLength_le_append _ _
      · rcases h.gaps inner c more hrest with hc | ⟨next, hnext, hstart, hstop⟩
        · exact .inl hc
        · refine .inr ⟨next, List.mem_cons_of_mem _ hnext, ?_, ?_⟩
          · simpa only [List.append_assoc] using hstart
          · simpa only [List.append_assoc] using hstop

end Fills

/-! ## The walk through a text -/

/-- What the walk through a text comes to, from some place in it on. -/
def Comes (text before part : List Char) : Except Nat (List Placed) → Prop
  | .ok placed => Fills text before part placed
  | .error offset => ∃ front behind placed, part = front ++ behind ∧
      Fills text before front placed ∧ Stuck behind ∧ offset = byteLength (before ++ front)

/-- A lexeme is left behind. -/
theorem Comes.cons {text before gap behind rest : List Char} {word : Lexeme}
    {lexed : Except Nat (List Placed)} (hgap : ∀ c ∈ gap, isGap c = true)
    (htext : text = before ++ gap ++ behind) (hword : Longest behind word rest)
    (h : Comes text (before ++ gap ++ word.spelling) rest lexed) :
    Comes text before (gap ++ behind) (lexed.map
      (⟨word, byteLength (before ++ gap), byteLength (before ++ gap ++ word.spelling)⟩ :: ·)) := by
  rw [hword.text_eq, ← List.append_assoc]
  cases lexed with
  | ok placed => exact Fills.cons hgap htext hword h
  | error offset =>
    obtain ⟨front, left, placed, rfl, hfills, hstuck, rfl⟩ := h
    refine ⟨gap ++ word.spelling ++ front, left, _, by simp, .cons hgap htext hword hfills, hstuck, ?_⟩
    simp only [List.append_assoc]

theorem lexFrom_of_gap {part : List Char} (h : part.dropWhile isGap = []) (fuel position : Nat) :
    lexFrom fuel position part = .ok [] := by
  rw [lexFrom.eq_def]
  dsimp only
  rw [h]

/-- Behind white space the walk goes on with one lexeme. -/
theorem lexFrom_step {part behind : List Char} (h : part.dropWhile isGap = behind) (hne : behind ≠ [])
    (fuel position : Nat) :
    lexFrom (fuel + 1) position part =
      let start := position + byteLength (part.takeWhile isGap)
      match readLexeme behind with
      | none => .error start
      | some (word, rest) =>
        let stop := start + (byteLength behind - byteLength rest)
        (lexFrom fuel stop rest).map (⟨word, start, stop⟩ :: ·) := by
  obtain ⟨c, more, rfl⟩ := List.exists_cons_of_ne_nil hne
  rw [lexFrom.eq_def]
  dsimp only
  rw [h]
  dsimp only
  cases readLexeme (c :: more) with
  | none => rfl
  | some found => rfl

/-- The walk takes the longest lexeme wherever it comes, to the end or to where no rule matches. -/
theorem lexFrom_comes {fuel : Nat} {before part : List Char} (hfuel : part.length ≤ fuel) :
    Comes (before ++ part) before part (lexFrom fuel (byteLength before) part) := by
  induction fuel generalizing before part with
  | zero =>
    rw [List.length_eq_zero_iff.mp (Nat.le_zero.mp hfuel), lexFrom_of_gap rfl]
    exact Fills.of_gap (by simp)
  | succ fuel ih =>
    have hgap : ∀ c ∈ part.takeWhile isGap, isGap c = true := fun c hc => List.mem_takeWhile_imp hc
    have hpart : part.takeWhile isGap ++ part.dropWhile isGap = part := List.takeWhile_append_dropWhile
    obtain ⟨behind, hbehind⟩ : ∃ behind, part.dropWhile isGap = behind := ⟨_, rfl⟩
    have hsolid : ∀ c rest, behind = c :: rest → isGap c = false := fun c rest hcons => by
      have hhead := List.head?_dropWhile_not isGap part
      rwa [hbehind, hcons] at hhead
    rcases eq_or_ne behind [] with rfl | hne
    · rw [lexFrom_of_gap hbehind]
      rw [hbehind, List.append_nil] at hpart
      exact .of_gap (hpart ▸ hgap)
    · rw [lexFrom_step hbehind hne]
      rw [hbehind] at hpart
      generalize part.takeWhile isGap = gap at hgap hpart ⊢
      obtain rfl := hpart
      rw [← byteLength_append]
      cases hread : readLexeme behind with
      | none =>
        obtain ⟨c, rest, rfl⟩ := List.exists_cons_of_ne_nil hne
        exact ⟨gap, c :: rest, [], rfl, .of_gap hgap, ⟨⟨c, rest, rfl, hsolid c rest rfl⟩,
          fun word hword => not_prefix_of_readLexeme_eq_none hread hword⟩, rfl⟩
      | some found =>
        obtain ⟨word, rest⟩ := found
        have hword := readLexeme_longest hread
        have hstop : byteLength (before ++ gap) + (byteLength behind - byteLength rest) =
            byteLength (before ++ gap ++ word.spelling) := by
          rw [hword.text_eq, byteLength_append word.spelling, byteLength_append (before ++ gap)]
          omega
        have hlen : rest.length ≤ fuel := by
          have hpos := List.length_pos_iff.mpr hword.regular.spelling_ne_nil
          rw [hword.text_eq, List.length_append, List.length_append] at hfuel
          omega
        have htext : before ++ gap ++ word.spelling ++ rest = before ++ (gap ++ behind) := by
          rw [hword.text_eq]
          simp only [List.append_assoc]
        have hrest := @ih (before ++ gap ++ word.spelling) rest hlen
        rw [htext] at hrest
        dsimp only
        rw [hstop]
        exact hrest.cons hgap (List.append_assoc _ _ _).symm hword

/-! ## Whole texts -/

/-- A text in double quotes, with a backslash before each quote and each backslash. -/
def quoted (text : String) : String := String.ofList ('"' :: (escape text.toList ++ ['"']))

theorem lex_quoted (text : String) :
    lex (quoted text) = .ok [⟨.doubleQuoted (String.ofList (escape text.toList)), 0,
      (quoted text).utf8ByteSize⟩] := by
  have hread := readLexeme_quoted text.toList []
  have hgap : ('"' :: (escape text.toList ++ ['"'])).dropWhile isGap =
      '"' :: (escape text.toList ++ ['"']) := rfl
  rw [lex, quoted, String.toList_ofList, List.length_cons,
    lexFrom_step hgap (List.cons_ne_nil _ _), hread]
  dsimp only
  rw [lexFrom_of_gap rfl, Except.map, List.takeWhile_cons_of_neg (by decide), Text.byteLength_nil,
    Nat.add_zero, Nat.zero_add, Nat.sub_zero]
  rfl

/-- A text is filled with lexemes from the front to the end, each the longest where it stands, or up
to the place that is reported, where there is no lexeme. A text in quotes is one lexeme, and what it
stands for is the text. -/
theorem lex_takes_longest (text : String) :
    (match lex text with
      | .ok placed => Fills text.toList [] text.toList placed
      | .error error => ∃ front behind placed, text.toList = front ++ behind ∧
          Fills text.toList [] front placed ∧ Stuck behind ∧
          error = .invalidExpression text (byteLength front) .unexpectedCharacter) ∧
      ∃ body, lex (quoted text) = .ok [⟨.doubleQuoted body, 0, (quoted text).utf8ByteSize⟩] ∧
        unescape body = text := by
  have hbody : unescape (String.ofList (escape text.toList)) = text := by
    rw [unescape, String.toList_ofList, unescapeChars_escape, String.ofList_toList]
  refine ⟨?_, _, lex_quoted text, hbody⟩
  have hcomes : Comes text.toList [] text.toList (lexFrom text.toList.length 0 text.toList) :=
    @lexFrom_comes _ [] text.toList (Nat.le_refl _)
  rw [lex]
  cases hlexed : lexFrom text.toList.length 0 text.toList with
  | ok placed =>
    rw [hlexed] at hcomes
    exact hcomes
  | error offset =>
    rw [hlexed] at hcomes
    obtain ⟨front, behind, placed, htext, hfills, hstuck, rfl⟩ := hcomes
    exact ⟨front, behind, placed, htext, hfills, hstuck, rfl⟩

end Expression

end ReactiveMarkup
