import ReactiveMarkup.Proofs.Expression.Grammar
import ReactiveMarkup.Proofs.Number.Integers

/-!
# Words that are read back

How a lexeme is written, and that a text of written lexemes with a blank between neighbours is read
as them. A lexeme is read back from the front of a text if what follows cannot be taken for more of
it, and a blank never is.
-/

namespace ReactiveMarkup.Expression

/-- A text in double quotes is written with a backslash before each quote and each backslash. -/
def escape (text : List Char) : List Char :=
  text.flatMap fun c => if c = '"' ∨ c = '\\' then ['\\', c] else [c]

/-- Whether a text can be written as a name: it is one by its characters, and no keyword. -/
def isIdentifier (text : String) : Bool :=
  text.toList.head?.any isNameStart && text.toList.all isNamePart &&
    Lexeme.ofName text.toList == .name text

theorem isIdentifier_iff {text : String} : isIdentifier text = true ↔
    text.toList.head?.any isNameStart = true ∧ (∀ c ∈ text.toList, isNamePart c = true) ∧
      Lexeme.ofName text.toList = .name text := by
  simp only [isIdentifier, Bool.and_eq_true, List.all_eq_true, beq_iff_eq, and_assoc]

namespace Lexeme

/-- The characters a lexeme is written with. -/
def spelling : Lexeme → List Char
  | .trueWord => ['t', 'r', 'u', 'e']
  | .falseWord => ['f', 'a', 'l', 's', 'e']
  | .nullWord => ['n', 'u', 'l', 'l']
  | .name text => text.toList
  | .doubleQuoted body => '"' :: body.toList ++ ['"']
  | .singleQuoted body => '\'' :: body.toList ++ ['\'']
  | .numeral text => text.toList
  | .plus => ['+']
  | .minus => ['-']
  | .star => ['*']
  | .slash => ['/']
  | .percent => ['%']
  | .equals => ['=', '=']
  | .notEquals => ['!', '=']
  | .less => ['<']
  | .lessOrEqual => ['<', '=']
  | .greater => ['>']
  | .greaterOrEqual => ['>', '=']
  | .conjunction => ['&', '&']
  | .disjunction => ['|', '|']
  | .bang => ['!']
  | .question => ['?']
  | .colon => [':']
  | .leftParen => ['(']
  | .rightParen => [')']
  | .leftBracket => ['[']
  | .rightBracket => [']']
  | .comma => [',']
  | .dot => ['.']

/-- The lexemes that are written: names that are identifiers, digits of natural numbers, and texts
in double quotes with their escapes. -/
def IsWritten : Lexeme → Prop
  | .name text => isIdentifier text = true
  | .numeral text => ∃ n : Nat, text = String.ofList (Nat.toDigits 10 n)
  | .doubleQuoted body => ∃ text : List Char, body = String.ofList (escape text)
  | .singleQuoted _ => False
  | _ => True

end Lexeme

/-- Written lexemes with a blank between neighbours. -/
def spell : List Lexeme → List Char
  | [] => []
  | [word] => word.spelling
  | word :: next :: rest => word.spelling ++ ' ' :: spell (next :: rest)

/-! ### Quoted texts -/

theorem unescapeChars_cons {c : Char} (h : c ≠ '\\') (rest : List Char) :
    unescapeChars (c :: rest) = c :: unescapeChars rest := by
  rw [unescapeChars.eq_def]
  split <;> simp_all

/-- Escapes are undone. -/
theorem unescapeChars_escape (text : List Char) : unescapeChars (escape text) = text := by
  induction text with
  | nil => rfl
  | cons c text ih =>
    rw [escape, List.flatMap_cons, ← escape]
    split
    · next hspecial =>
      rcases hspecial with rfl | rfl <;> simp [unescapeChars, ih]
    · next hplain =>
      rw [List.singleton_append, unescapeChars_cons (fun h => hplain (.inr h)), ih]

theorem spanQuoted_cons {quote c : Char} (hquote : c ≠ quote) (hescape : c ≠ '\\')
    {rest : List Char} (hrest : rest ≠ []) :
    spanQuoted quote (c :: rest) =
      (spanQuoted quote rest).map fun found => (c :: found.1, found.2) := by
  obtain ⟨d, rest, rfl⟩ := List.exists_cons_of_ne_nil hrest
  rw [spanQuoted, if_neg hquote, if_neg hescape]

/-- The body of a quoted text goes up to its closing quote. -/
theorem spanQuoted_escape (text rest : List Char) :
    spanQuoted '"' (escape text ++ '"' :: rest) = some (escape text, rest) := by
  induction text with
  | nil => cases rest <;> rfl
  | cons c text ih =>
    rw [escape, List.flatMap_cons, ← escape]
    split
    · next hspecial =>
      rcases hspecial with rfl | rfl <;> simp [spanQuoted, ih]
    · next hplain =>
      obtain ⟨hquote, hescape⟩ := not_or.mp hplain
      rw [List.singleton_append, List.cons_append, spanQuoted_cons hquote hescape (by simp), ih]
      rfl

/-! ### Single lexemes -/

/-- What cannot be taken for more of a lexeme: the end or a blank. -/
def Apart (rest : List Char) : Prop := ∀ c ∈ rest.head?, c = ' '

theorem Apart.head_eq_false {p : Char → Bool} (hp : p ' ' = false) {rest : List Char}
    (h : Apart rest) : ∀ c ∈ rest.head?, p c = false :=
  fun c hc => by rw [h c hc, hp]

theorem isNameStart_eq_false_of_isDigit {c : Char} (h : c.isDigit = true) :
    isNameStart c = false := by
  have hle : c.toNat ≤ 57 := (Char.isDigit_iff_toNat.mp h).2
  have hge : 48 ≤ c.toNat := (Char.isDigit_iff_toNat.mp h).1
  have hupper : c.isUpper = false := decide_eq_false fun hc => by
    have hfirst : 65 ≤ c.toNat := UInt32.le_iff_toNat_le.mp hc.1
    omega
  have hlower : c.isLower = false := Bool.eq_false_iff.mpr fun hc => by
    have hge := of_decide_eq_true (Bool.and_eq_true_iff.mp hc).1
    have hfirst : 97 ≤ c.toNat := UInt32.le_iff_toNat_le.mp hge
    omega
  have hother : ∀ other : Char, 57 < other.toNat ∨ other.toNat < 48 → (c == other) = false := by
    rintro other hother
    refine beq_eq_false_iff_ne.mpr ?_
    rintro rfl
    omega
  have hstart : isNameStart c = (c.isUpper || c.isLower || c == '_' || c == '$') := rfl
  simp only [hstart, hupper, hlower, hother '_' (by decide), hother '$' (by decide), Bool.or_self]

/-- A blank begins neither a name nor a number. -/
theorem isGap_eq_false {c : Char} (h : isNameStart c = true ∨ c.isDigit = true) :
    isGap c = false := by
  refine Bool.eq_false_iff.mpr fun hgap => ?_
  simp only [isGap, Bool.or_eq_true, beq_iff_eq] at hgap
  rcases hgap with ((rfl | rfl) | rfl) | rfl <;> revert h <;> decide

/-- A word of name characters is read as a whole. -/
theorem readLexeme_name {text rest : List Char} (hstart : text.head?.any isNameStart = true)
    (hparts : ∀ c ∈ text, isNamePart c = true) (hrest : Apart rest) :
    readLexeme (text ++ rest) = some (.ofName text, rest) := by
  have hspan : (text ++ rest).span isNamePart = (text, rest) :=
    span_append hparts (hrest.head_eq_false (by decide))
  cases text with
  | nil => cases hstart
  | cons c more =>
    have hc : isNameStart c = true := hstart
    rw [List.cons_append] at hspan ⊢
    rw [readLexeme, if_pos hc, hspan]

theorem readLexeme_digits {digits rest : List Char} (hne : digits ≠ [])
    (hdigits : ∀ c ∈ digits, c.isDigit = true) (hrest : Apart rest) :
    readLexeme (digits ++ rest) = some (.numeral (String.ofList digits), rest) := by
  have hspan : (digits ++ rest).span Char.isDigit = (digits, rest) :=
    span_append hdigits (hrest.head_eq_false (by decide))
  have hnumeral : spanNumeral (digits ++ rest) = (digits, rest) := by
    rw [spanNumeral, hspan]
    dsimp only
    split
    · cases hrest _ rfl
    · rfl
  obtain ⟨c, more, rfl⟩ := List.exists_cons_of_ne_nil hne
  have hc : c.isDigit = true := hdigits c List.mem_cons_self
  rw [List.cons_append] at hnumeral ⊢
  rw [readLexeme, isNameStart_eq_false_of_isDigit hc]
  simp only [Bool.false_eq_true, if_false, hc, if_true, hnumeral]

theorem readLexeme_quoted (text rest : List Char) :
    readLexeme ('"' :: (escape text ++ '"' :: rest)) =
      some (.doubleQuoted (String.ofList (escape text)), rest) := by
  rw [readLexeme, if_neg (by decide), if_neg (by decide), if_pos rfl, spanQuoted_escape]
  rfl

/-- An operator is read where no longer one is begun. -/
theorem readLexeme_operator {c : Char} {rest : List Char}
    (h : (isNameStart c || c.isDigit || c == '"' || c == '\'') = false) :
    readLexeme (c :: rest) = readOperator (c :: rest) := by
  simp only [Bool.or_eq_false_iff, beq_eq_false_iff_ne] at h
  obtain ⟨⟨⟨hname, hdigit⟩, hdouble⟩, hsingle⟩ := h
  rw [readLexeme, hname, hdigit]
  simp only [Bool.false_eq_true, if_false, hdouble, hsingle]

theorem Lexeme.IsWritten.spelling_cons {word : Lexeme} (h : word.IsWritten) :
    ∃ c rest, word.spelling = c :: rest ∧ isGap c = false := by
  cases word with
  | name text =>
    obtain ⟨hstart, -, -⟩ := isIdentifier_iff.mp h
    cases htext : text.toList with
    | nil => rw [htext] at hstart; cases hstart
    | cons c rest =>
      rw [htext] at hstart
      exact ⟨c, rest, htext, isGap_eq_false (.inl hstart)⟩
  | numeral text =>
    obtain ⟨n, rfl⟩ := h
    obtain ⟨c, rest, hdigits⟩ := List.exists_cons_of_ne_nil (Nat.toDigits_ne_nil (n := n) (b := 10))
    have hc : c.isDigit = true :=
      Nat.isDigit_of_mem_toDigits (b := 10) (n := n) (by decide) (by decide) (by simp [hdigits])
    exact ⟨c, rest, String.toList_ofList.trans hdigits, isGap_eq_false (.inr hc)⟩
  | singleQuoted body => cases h
  | _ => exact ⟨_, _, rfl, by decide⟩

theorem readLexeme_spelling {word : Lexeme} (h : word.IsWritten) {rest : List Char}
    (hrest : Apart rest) : readLexeme (word.spelling ++ rest) = some (word, rest) := by
  cases word with
  | name text =>
    obtain ⟨hstart, hparts, hname⟩ := isIdentifier_iff.mp h
    rw [Lexeme.spelling, readLexeme_name hstart hparts hrest, hname]
  | numeral text =>
    obtain ⟨n, rfl⟩ := h
    rw [Lexeme.spelling, String.toList_ofList]
    exact readLexeme_digits Nat.toDigits_ne_nil
      (fun c hc => Nat.isDigit_of_mem_toDigits (b := 10) (n := n) (by decide) (by decide) hc) hrest
  | doubleQuoted body =>
    obtain ⟨text, rfl⟩ := h
    rw [Lexeme.spelling, String.toList_ofList, List.cons_append, List.cons_append,
      List.append_assoc]
    exact readLexeme_quoted text rest
  | singleQuoted body => cases h
  | trueWord => exact readLexeme_name (by decide) (List.all_eq_true.mp (by decide)) hrest
  | falseWord => exact readLexeme_name (by decide) (List.all_eq_true.mp (by decide)) hrest
  | nullWord => exact readLexeme_name (by decide) (List.all_eq_true.mp (by decide)) hrest
  | _ =>
    refine (readLexeme_operator (by decide)).trans ?_
    cases rest with
    | nil => rfl
    | cons c rest => cases hrest c rfl; rfl

/-! ### Whole texts -/

/-- A written text does not begin with a blank. -/
theorem dropWhile_spell {words : List Lexeme} (h : ∀ word ∈ words, word.IsWritten) :
    (spell words).dropWhile isGap = spell words := by
  cases words with
  | nil => rfl
  | cons word rest =>
    obtain ⟨c, more, hspelling, hc⟩ := (h word List.mem_cons_self).spelling_cons
    cases rest with
    | nil => rw [spell, hspelling, List.dropWhile_cons_of_neg (by simp [hc])]
    | cons next rest =>
      rw [spell, hspelling, List.cons_append, List.dropWhile_cons_of_neg (by simp [hc])]

/-- A written text is its first lexeme and something apart, behind whose blank the rest follows. -/
theorem spell_cons (word : Lexeme) {rest : List Lexeme} (h : ∀ word ∈ rest, word.IsWritten) :
    ∃ behind, spell (word :: rest) = word.spelling ++ behind ∧ Apart behind ∧
      behind.dropWhile isGap = spell rest := by
  cases rest with
  | nil => exact ⟨[], (List.append_nil _).symm, by simp [Apart], rfl⟩
  | cons next rest =>
    refine ⟨' ' :: spell (next :: rest), rfl, by simp [Apart], ?_⟩
    rw [List.dropWhile_cons_of_pos (by decide), dropWhile_spell h]

theorem lexFrom_spell {words : List Lexeme} (h : ∀ word ∈ words, word.IsWritten)
    (fuel position : Nat) {text : List Char} (hfuel : words.length ≤ fuel)
    (htext : text.dropWhile isGap = spell words) :
    ∃ placed, lexFrom fuel position text = .ok placed ∧ lexemes placed = words := by
  induction words generalizing fuel position text with
  | nil =>
    refine ⟨[], ?_, rfl⟩
    rw [lexFrom.eq_def]
    dsimp only
    rw [htext, spell]
  | cons word rest ih =>
    have hword : word.IsWritten := h word List.mem_cons_self
    have hrest : ∀ word ∈ rest, word.IsWritten :=
      fun word hmem => h word (List.mem_cons_of_mem _ hmem)
    obtain ⟨steps, rfl⟩ : ∃ steps, fuel = steps + 1 :=
      ⟨fuel - 1, by rw [List.length_cons] at hfuel; omega⟩
    obtain ⟨behind, hspell, hapart, hbehind⟩ := spell_cons word hrest
    obtain ⟨c, more, hspelling, -⟩ := hword.spelling_cons
    have hread := readLexeme_spelling hword hapart
    rw [hspelling, List.cons_append] at hread
    rw [hspell, hspelling, List.cons_append] at htext
    let start := position + Text.byteLength (text.takeWhile isGap)
    let stop := start + (Text.byteLength (c :: (more ++ behind)) - Text.byteLength behind)
    obtain ⟨placed, hplaced, hlexemes⟩ :=
      ih hrest steps stop (Nat.le_of_succ_le_succ hfuel) hbehind
    refine ⟨⟨word, start, stop⟩ :: placed, ?_, by rw [lexemes_cons, hlexemes]⟩
    rw [lexFrom.eq_def]
    dsimp only
    rw [htext]
    simp only [hread]
    rw [hplaced]
    rfl

theorem length_le_spell {words : List Lexeme} (h : ∀ word ∈ words, word.IsWritten) :
    words.length ≤ (spell words).length := by
  induction words with
  | nil => exact Nat.le_refl _
  | cons word rest ih =>
    have hrest := ih fun word hmem => h word (List.mem_cons_of_mem _ hmem)
    obtain ⟨c, more, hspelling, -⟩ := (h word List.mem_cons_self).spelling_cons
    cases rest with
    | nil => simp [spell, hspelling]
    | cons next rest =>
      simp only [spell, hspelling, List.length_append, List.length_cons] at hrest ⊢
      omega

/-- A text of written lexemes is read as them. -/
theorem lex_spell {words : List Lexeme} (h : ∀ word ∈ words, word.IsWritten) :
    ∃ placed, lex (String.ofList (spell words)) = .ok placed ∧ lexemes placed = words := by
  obtain ⟨placed, hplaced, hlexemes⟩ :=
    lexFrom_spell h (spell words).length 0 (length_le_spell h) (dropWhile_spell h)
  exact ⟨placed, by rw [lex, String.toList_ofList, hplaced], hlexemes⟩

end ReactiveMarkup.Expression
