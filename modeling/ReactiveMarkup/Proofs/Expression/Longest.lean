import Mathlib.Data.List.TakeWhile
import ReactiveMarkup.Proofs.Expression.Rules

/-!
# The longest lexeme

Reading a lexeme takes the longest word that a rule matches at the front of a text, and fails exactly
where no rule matches. For every kind of word there are two facts: what is read is matched by its rule,
and a word that the rule matches at the front is read or gives way to a longer one. Names and numbers
run as far as their characters go; a quoted text has one end only, because its body cannot hold the
closing quote; an operator gives way to at most one other operator.
-/

namespace ReactiveMarkup.Expression

/-! ## Quoted texts -/

/-- A quoted text that is read is matched by its rule. -/
theorem spanQuoted_sound {quote : Char} {text body rest : List Char}
    (h : spanQuoted quote text = some (body, rest)) :
    body ∈ bodyRule quote ∧ text = body ++ quote :: rest := by
  fun_induction spanQuoted quote text generalizing body rest with
  | case1 => cases h
  | case2 =>
    cases h
    exact ⟨nil_mem_bodyRule _, rfl⟩
  | case3 c hc => cases h
  | case4 d more =>
    cases h
    exact ⟨nil_mem_bodyRule _, rfl⟩
  | case5 => cases h
  | case6 d more hd _ ih =>
    obtain ⟨⟨inner, behind⟩, hinner, hmade⟩ := Option.map_eq_some_iff.mp h
    cases hmade
    obtain ⟨hregular, rfl⟩ := ih hinner
    exact ⟨escaped_mem_bodyRule hd hregular, rfl⟩
  | case7 c d more hc hescape ih =>
    obtain ⟨⟨inner, behind⟩, hinner, hmade⟩ := Option.map_eq_some_iff.mp h
    cases hmade
    obtain ⟨hregular, htext⟩ := ih hinner
    exact ⟨cons_mem_bodyRule hc hescape hregular, by rw [htext, List.cons_append]⟩

/-- A quoted text is read up to its one end. -/
theorem spanQuoted_append {quote : Char} (hquote : quote ≠ '\\') {body : List Char}
    (h : body ∈ bodyRule quote) (rest : List Char) :
    spanQuoted quote (body ++ quote :: rest) = some (body, rest) := by
  refine bodyRule_induction (P := fun body =>
    spanQuoted quote (body ++ quote :: rest) = some (body, rest)) ?_ ?_ ?_ h
  · cases rest <;> simp [spanQuoted]
  · intro c more hc hescape _ ih
    rw [List.cons_append, spanQuoted_cons hc hescape (by simp), ih]
    rfl
  · intro c more hc _ ih
    rw [List.cons_append, List.cons_append, spanQuoted, if_neg (Ne.symm hquote), if_pos rfl,
      if_neg hc, ih]
    rfl

/-! ## Names -/

theorem spelling_ofName (text : List Char) : (Lexeme.ofName text).spelling = text := by
  unfold Lexeme.ofName
  split
  · next h => exact h.symm
  · split
    · next h => exact h.symm
    · split
      · next h => exact h.symm
      · exact String.toList_ofList

/-- A name is a keyword as a whole, or stays a name. -/
theorem ofName_cases (text : List Char) :
    (Lexeme.ofName text).isKeyword = true ∨ Lexeme.ofName text = .name (String.ofList text) := by
  unfold Lexeme.ofName
  split
  · exact .inl rfl
  · split
    · exact .inl rfl
    · split
      · exact .inl rfl
      · exact .inr rfl

theorem regular_ofName {text : List Char} (h : text ∈ nameRule) : (Lexeme.ofName text).Regular := by
  unfold Lexeme.ofName
  split
  · trivial
  · split
    · trivial
    · split
      · trivial
      · rw [Lexeme.Regular, String.toList_ofList]
        exact h

/-- A name is read with all characters of names that follow. -/
theorem readLexeme_of_name {word : List Char} (h : word ∈ nameRule) (rest : List Char) :
    readLexeme (word ++ rest) =
      some (.ofName (word ++ rest.takeWhile isNamePart), rest.dropWhile isNamePart) := by
  obtain ⟨c, more, rfl, hc, hmore⟩ := mem_oneOf_mul_star.mp h
  have hpart : ∀ d ∈ c :: more, isNamePart d = true :=
    List.forall_mem_cons.mpr ⟨by rw [isNamePart, hc, Bool.true_or], hmore⟩
  have hspan : ((c :: more) ++ rest).span isNamePart =
      ((c :: more) ++ rest.takeWhile isNamePart, rest.dropWhile isNamePart) := by
    rw [List.span_eq_takeWhile_dropWhile, List.takeWhile_append_of_pos hpart,
      List.dropWhile_append_of_pos hpart]
  rw [List.cons_append] at hspan ⊢
  rw [readLexeme, if_pos hc, hspan]

/-! ## Numbers -/

/-- A number takes the digits at the front, and a fraction or nothing more. -/
theorem spanNumeral_cases (text : List Char) :
    spanNumeral text = text.span Char.isDigit ∨
      ∃ fraction ∈ digitsRule, ∃ rest, text.dropWhile Char.isDigit = '.' :: (fraction ++ rest) ∧
        spanNumeral text = (text.takeWhile Char.isDigit ++ '.' :: fraction, rest) := by
  rw [spanNumeral, List.span_eq_takeWhile_dropWhile]
  dsimp only
  split
  · next more hpoint =>
    rw [List.span_eq_takeWhile_dropWhile]
    split
    · exact .inl rfl
    · next fraction rest hne hmore =>
      obtain ⟨rfl, rfl⟩ := Prod.mk.inj hmore
      refine .inr ⟨_, mem_digitsRule.mpr ⟨fun hnil => ?_, fun c hc => List.mem_takeWhile_imp hc⟩,
        _, ?_, rfl⟩
      · exact hne hnil
      · rw [hpoint, List.takeWhile_append_dropWhile]
  · exact .inl rfl

/-- A fraction behind the digits at the front is taken, with all digits that follow. -/
theorem spanNumeral_of_point {text fraction rest : List Char} (hfraction : fraction ∈ digitsRule)
    (h : text.dropWhile Char.isDigit = '.' :: (fraction ++ rest)) :
    spanNumeral text = (text.takeWhile Char.isDigit ++
      '.' :: (fraction ++ rest.takeWhile Char.isDigit), rest.dropWhile Char.isDigit) := by
  obtain ⟨hne, hdigits⟩ := mem_digitsRule.mp hfraction
  obtain ⟨c, more, rfl⟩ := List.exists_cons_of_ne_nil hne
  have hspan : (c :: more ++ rest).span Char.isDigit =
      (c :: more ++ rest.takeWhile Char.isDigit, rest.dropWhile Char.isDigit) := by
    rw [List.span_eq_takeWhile_dropWhile, List.takeWhile_append_of_pos hdigits,
      List.dropWhile_append_of_pos hdigits]
  rw [spanNumeral, List.span_eq_takeWhile_dropWhile, h]
  simp only [hspan]
  rfl

/-- What a number takes is a number. -/
theorem spanNumeral_sound {c : Char} {text word rest : List Char} (hc : c.isDigit = true)
    (h : spanNumeral (c :: text) = (word, rest)) :
    word ∈ numeralRule ∧ c :: text = word ++ rest := by
  have hwhole : (c :: text).takeWhile Char.isDigit ∈ digitsRule :=
    mem_digitsRule.mpr ⟨by simp [hc], fun d hd => List.mem_takeWhile_imp hd⟩
  have htext := List.takeWhile_append_dropWhile (p := Char.isDigit) (l := c :: text)
  rw [mem_numeralRule]
  rcases spanNumeral_cases (c :: text) with hspan | ⟨fraction, hfraction, behind, hpoint, hspan⟩
  · rw [hspan, List.span_eq_takeWhile_dropWhile] at h
    obtain ⟨rfl, rfl⟩ := Prod.mk.inj h
    exact ⟨.inl hwhole, htext.symm⟩
  · rw [hspan] at h
    obtain ⟨rfl, rfl⟩ := Prod.mk.inj h
    refine ⟨.inr ⟨_, hwhole, fraction, hfraction, rfl⟩, ?_⟩
    rw [List.append_assoc, List.cons_append, ← hpoint, htext]

/-- A number at the front of a text is the front of the one that is taken. -/
theorem prefix_spanNumeral {word : List Char} (h : word ∈ numeralRule) (rest : List Char) :
    word <+: (spanNumeral (word ++ rest)).1 := by
  rcases mem_numeralRule.mp h with hword | ⟨whole, hwhole, fraction, hfraction, rfl⟩
  · have htaken : word <+: (word ++ rest).takeWhile Char.isDigit := by
      rw [List.takeWhile_append_of_pos (mem_digitsRule.mp hword).2]
      exact List.prefix_append _ _
    rcases spanNumeral_cases (word ++ rest) with hspan | ⟨fraction, -, behind, -, hspan⟩
    · rw [hspan, List.span_eq_takeWhile_dropWhile]
      exact htaken
    · rw [hspan]
      exact htaken.trans (List.prefix_append _ _)
  · obtain ⟨-, hdigits⟩ := mem_digitsRule.mp hwhole
    have hpoint : (whole ++ '.' :: fraction ++ rest).dropWhile Char.isDigit =
        '.' :: (fraction ++ rest) := by
      rw [List.append_assoc, List.dropWhile_append_of_pos hdigits, List.cons_append,
        List.dropWhile_cons_of_neg (by decide)]
    have htaken : (whole ++ '.' :: fraction ++ rest).takeWhile Char.isDigit = whole := by
      rw [List.append_assoc, List.takeWhile_append_of_pos hdigits, List.cons_append,
        List.takeWhile_cons_of_neg (by decide), List.append_nil]
    rw [spanNumeral_of_point hfraction hpoint, htaken]
    refine (List.prefix_append_right_inj whole).mpr (List.cons_prefix_cons.mpr ⟨rfl, ?_⟩)
    exact List.prefix_append _ _

theorem readLexeme_of_numeral {word : List Char} (h : word ∈ numeralRule) (rest : List Char) :
    readLexeme (word ++ rest) =
      some (.numeral (String.ofList (spanNumeral (word ++ rest)).1), (spanNumeral (word ++ rest)).2) := by
  obtain ⟨c, more, rfl, hc⟩ : ∃ c more, word = c :: more ∧ c.isDigit = true := by
    rcases mem_numeralRule.mp h with hword | ⟨whole, hwhole, fraction, -, rfl⟩
    · obtain ⟨c, more, rfl, hc, -⟩ := mem_oneOf_mul_star.mp hword
      exact ⟨c, more, rfl, hc⟩
    · obtain ⟨c, more, rfl, hc, -⟩ := mem_oneOf_mul_star.mp hwhole
      exact ⟨c, _, rfl, hc⟩
  rw [List.cons_append, readLexeme, isNameStart_eq_false_of_isDigit hc, hc]
  rfl

/-! ## Operators -/

theorem readOperator_sound {text rest : List Char} {word : Lexeme}
    (h : readOperator text = some (word, rest)) :
    word.Regular ∧ text = word.spelling ++ rest := by
  unfold readOperator at h
  split at h <;> cases h <;> exact ⟨trivial, rfl⟩

/-- An operator at the front of a text is read, or a longer one is. -/
theorem readOperator_of_isOperator {word : Lexeme} (h : word.isOperator = true) (rest : List Char) :
    ∃ found behind, readOperator (word.spelling ++ rest) = some (found, behind) ∧
      (word = found ∨ word.spelling.length < found.spelling.length) := by
  cases word with
  | less | greater | bang =>
    by_cases hrest : ∃ more, rest = '=' :: more
    · obtain ⟨more, rfl⟩ := hrest
      exact ⟨_, more, rfl, .inr (by decide)⟩
    · refine ⟨_, rest, ?_, .inl rfl⟩
      rw [Lexeme.spelling, List.singleton_append, readOperator]
      exact fun more hmore => hrest ⟨more, hmore⟩
  | name _ | numeral _ | doubleQuoted _ | singleQuoted _ | trueWord | falseWord | nullWord => cases h
  | _ => exact ⟨_, rest, rfl, .inl rfl⟩

/-! ## All lexemes -/

/-- What is read is matched by its rule. -/
theorem readLexeme_sound {text rest : List Char} {word : Lexeme}
    (h : readLexeme text = some (word, rest)) : word.Regular ∧ text = word.spelling ++ rest := by
  cases text with
  | nil => cases h
  | cons c more =>
    rw [readLexeme] at h
    split at h
    · next hc =>
      rw [List.span_eq_takeWhile_dropWhile] at h
      cases h
      refine ⟨regular_ofName (mem_oneOf_mul_star.mpr ?_), ?_⟩
      · have hpart : isNamePart c = true := by rw [isNamePart, hc, Bool.true_or]
        exact ⟨c, _, List.takeWhile_cons_of_pos hpart, hc, fun d hd => List.mem_takeWhile_imp hd⟩
      · rw [spelling_ofName, List.takeWhile_append_dropWhile]
    · split at h
      · next hc =>
        cases h
        obtain ⟨hnumber, htext⟩ := @spanNumeral_sound c more _ _ hc rfl
        rw [Lexeme.Regular, Lexeme.spelling, String.toList_ofList]
        exact ⟨hnumber, htext⟩
      · split at h
        · next hc =>
          obtain ⟨⟨body, behind⟩, hspan, hmade⟩ := Option.map_eq_some_iff.mp h
          cases hmade
          obtain ⟨hbody, rfl⟩ := spanQuoted_sound hspan
          rw [Lexeme.Regular, Lexeme.spelling, String.toList_ofList, hc]
          exact ⟨hbody, by simp⟩
        · split at h
          · next hc =>
            obtain ⟨⟨body, behind⟩, hspan, hmade⟩ := Option.map_eq_some_iff.mp h
            cases hmade
            obtain ⟨hbody, rfl⟩ := spanQuoted_sound hspan
            rw [Lexeme.Regular, Lexeme.spelling, String.toList_ofList, hc]
            exact ⟨hbody, by simp⟩
          · exact readOperator_sound h

/-- A word of a rule is what was read, or is shorter, or is spelled like the keyword that was read. -/
def Yields (word found : Lexeme) : Prop :=
  word = found ∨ word.spelling.length < found.spelling.length ∨
    found.isKeyword = true ∧ word.spelling = found.spelling

theorem Yields.of_front {word found : Lexeme} (h : word.spelling <+: found.spelling)
    (hsame : word.spelling = found.spelling → word = found ∨ found.isKeyword = true) :
    Yields word found := by
  rcases Nat.lt_or_ge word.spelling.length found.spelling.length with hlt | hge
  · exact .inr (.inl hlt)
  · have heq := h.eq_of_length_le hge
    exact (hsame heq).imp_right fun hkeyword => .inr ⟨hkeyword, heq⟩

theorem readLexeme_yields_name {word : Lexeme} (h : word.spelling ∈ nameRule)
    (hword : word = .ofName word.spelling ∨ (Lexeme.ofName word.spelling).isKeyword = true)
    (rest : List Char) :
    ∃ found behind, readLexeme (word.spelling ++ rest) = some (found, behind) ∧
      Yields word found := by
  refine ⟨_, _, readLexeme_of_name h rest, .of_front ?_ fun hsame => ?_⟩
  · rw [spelling_ofName]
    exact List.prefix_append _ _
  · rw [spelling_ofName] at hsame
    rwa [← hsame]

theorem readLexeme_yields_operator {word : Lexeme} (h : word.isOperator = true) (rest : List Char) :
    ∃ found behind, readLexeme (word.spelling ++ rest) = some (found, behind) ∧
      Yields word found := by
  obtain ⟨found, behind, hread, hyields⟩ := readOperator_of_isOperator h rest
  have hsame : readLexeme (word.spelling ++ rest) = readOperator (word.spelling ++ rest) := by
    cases word with
    | name _ | numeral _ | doubleQuoted _ | singleQuoted _ | trueWord | falseWord | nullWord =>
      cases h
    | _ => exact readLexeme_operator (by decide)
  exact ⟨found, behind, hsame.trans hread, hyields.imp_right .inl⟩

/-- Where a rule matches at the front of a text, its word is read or yields to another. -/
theorem readLexeme_yields {word : Lexeme} (h : word.Regular) (rest : List Char) :
    ∃ found behind, readLexeme (word.spelling ++ rest) = some (found, behind) ∧
      Yields word found := by
  cases word with
  | trueWord | falseWord | nullWord =>
    refine readLexeme_yields_name (mem_oneOf_mul_star.mpr ⟨_, _, rfl, by decide, ?_⟩) (.inl rfl) rest
    exact List.all_eq_true.mp (by decide)
  | name text =>
    refine @readLexeme_yields_name (.name text) h ?_ rest
    rcases ofName_cases text.toList with hkeyword | hname
    · exact .inr hkeyword
    · exact .inl (by rw [Lexeme.spelling, hname, String.ofList_toList])
  | numeral text =>
    refine ⟨_, _, readLexeme_of_numeral h rest, .of_front ?_ fun hsame => .inl ?_⟩
    · rw [Lexeme.spelling, Lexeme.spelling, String.toList_ofList]
      exact prefix_spanNumeral h rest
    · rw [Lexeme.spelling, Lexeme.spelling, String.toList_ofList] at hsame
      rw [← hsame, String.ofList_toList]
  | doubleQuoted body =>
    refine ⟨.doubleQuoted body, rest, ?_, .inl rfl⟩
    rw [Lexeme.spelling, List.cons_append, List.cons_append, List.append_assoc,
      List.singleton_append, readLexeme, if_neg (by decide), if_neg (by decide), if_pos rfl,
      spanQuoted_append (by decide) h, Option.map_some]
    simp only [String.ofList_toList]
  | singleQuoted body =>
    refine ⟨.singleQuoted body, rest, ?_, .inl rfl⟩
    rw [Lexeme.spelling, List.cons_append, List.cons_append, List.append_assoc,
      List.singleton_append, readLexeme, if_neg (by decide), if_neg (by decide),
      if_neg (by decide), if_pos rfl, spanQuoted_append (by decide) h, Option.map_some]
    simp only [String.ofList_toList]
  | _ => exact readLexeme_yields_operator rfl rest

/-- What is read is the longest lexeme. -/
theorem readLexeme_longest {text rest : List Char} {word : Lexeme}
    (h : readLexeme text = some (word, rest)) : Longest text word rest := by
  obtain ⟨hregular, htext⟩ := readLexeme_sound h
  have hyields : ∀ other : Lexeme, other.Regular → other.spelling <+: text → Yields other word := by
    rintro other hother ⟨behind, rfl⟩
    obtain ⟨found, left, hread, hyields⟩ := readLexeme_yields hother behind
    rw [h] at hread
    cases hread
    exact hyields
  refine ⟨hregular, htext, fun other hother hfront => ?_, fun other hother hsame hne => ?_⟩
  · rcases hyields other hother hfront with rfl | hlt | ⟨-, hsame⟩
    · exact Nat.le_refl _
    · exact Nat.le_of_lt hlt
    · rw [hsame]
  · have hfront : other.spelling <+: text := by
      rw [hsame, htext]
      exact List.prefix_append _ _
    rcases hyields other hother hfront with heq | hlt | ⟨hkeyword, -⟩
    · exact absurd heq hne
    · exact absurd (hsame ▸ hlt) (Nat.lt_irrefl _)
    · exact hkeyword

/-- Where nothing is read, no rule matches. -/
theorem not_prefix_of_readLexeme_eq_none {text : List Char} (h : readLexeme text = none)
    {word : Lexeme} (hword : word.Regular) : ¬ word.spelling <+: text := by
  rintro ⟨behind, rfl⟩
  obtain ⟨found, left, hread, -⟩ := readLexeme_yields hword behind
  rw [h] at hread
  cases hread

end ReactiveMarkup.Expression
