import Mathlib.Computability.Language
import ReactiveMarkup.Proofs.Expression.Wording

/-!
# Rules of lexemes

Which words are lexemes, told as regular languages and without a word about reading. A name, a number
and a quoted text each have a rule; every keyword and every operator is a rule of its own. Rules
overlap: a keyword is a name as well, the front of a name is a name, the front of an operator may be
one, and a number with a fraction begins with a number without. What is read is the longest word that
any rule matches, and where two rules match the same word, one of them is a keyword, which is taken.

For every rule the work is the same: a word that is matched at the front of a text is read, or a longer
one is. That nothing is read where no rule matches follows.
-/

namespace ReactiveMarkup.Expression

open scoped Computability

/-! ## Rules -/

/-- The words of one character that is of a class. -/
def oneOf (p : Char → Bool) : Language Char := {word | ∃ c, p c = true ∧ word = [c]}

/-- A word alone. -/
def only (word : List Char) : Language Char := {word}

def nameRule : Language Char := oneOf isNameStart * (oneOf isNamePart)∗

def digitsRule : Language Char := oneOf Char.isDigit * (oneOf Char.isDigit)∗

def numeralRule : Language Char := digitsRule * (1 + only ['.'] * digitsRule)

/-- The bodies of quoted texts: characters that neither end the text nor escape, and a backslash with
any character but a line feed. -/
def bodyRule (quote : Char) : Language Char :=
  (oneOf (fun c => c != quote && c != '\\') + only ['\\'] * oneOf (· != '\n'))∗

namespace Lexeme

/-- Whether a rule matches what a lexeme is written with. Keywords and operators are rules of their
own. -/
def Regular : Lexeme → Prop
  | .name text => text.toList ∈ nameRule
  | .numeral text => text.toList ∈ numeralRule
  | .doubleQuoted body => body.toList ∈ bodyRule '"'
  | .singleQuoted body => body.toList ∈ bodyRule '\''
  | _ => True

def isKeyword : Lexeme → Bool
  | .trueWord | .falseWord | .nullWord => true
  | _ => false

/-- Whether a lexeme has a fixed spelling that is no keyword. -/
def isOperator : Lexeme → Bool
  | .name _ | .numeral _ | .doubleQuoted _ | .singleQuoted _ => false
  | word => !word.isKeyword

end Lexeme

/-- A lexeme is the one to take at the front of a text: no rule matches a longer word there, and of
two rules that match its word it follows the one of the keyword. -/
structure Longest (text : List Char) (word : Lexeme) (rest : List Char) : Prop where
  regular : word.Regular
  text_eq : text = word.spelling ++ rest
  longest : ∀ other : Lexeme, other.Regular → other.spelling <+: text →
    other.spelling.length ≤ word.spelling.length
  keyword : ∀ other : Lexeme, other.Regular → other.spelling = word.spelling → other ≠ word →
    word.isKeyword = true

/-! ## Words of the rules -/

theorem mem_oneOf_star {p : Char → Bool} {word : List Char} :
    word ∈ (oneOf p)∗ ↔ ∀ c ∈ word, p c = true := by
  rw [Language.mem_kstar]
  constructor
  · rintro ⟨parts, rfl, hparts⟩ c hc
    obtain ⟨part, hpart, hin⟩ := List.mem_flatten.mp hc
    obtain ⟨d, hd, rfl⟩ := hparts part hpart
    rw [List.mem_singleton.mp hin]
    exact hd
  · intro h
    refine ⟨word.map ([·]), by simp [List.flatten_eq_flatMap, List.flatMap_map], fun part hpart => ?_⟩
    obtain ⟨c, hc, rfl⟩ := List.mem_map.mp hpart
    exact ⟨c, h c hc, rfl⟩

/-- A first character of one class and others of another. -/
theorem mem_oneOf_mul_star {p q : Char → Bool} {word : List Char} :
    word ∈ oneOf p * (oneOf q)∗ ↔
      ∃ c rest, word = c :: rest ∧ p c = true ∧ ∀ d ∈ rest, q d = true := by
  rw [Language.mem_mul]
  constructor
  · rintro ⟨-, ⟨c, hc, rfl⟩, rest, hrest, rfl⟩
    exact ⟨c, rest, rfl, hc, mem_oneOf_star.mp hrest⟩
  · rintro ⟨c, rest, rfl, hc, hrest⟩
    exact ⟨[c], ⟨c, hc, rfl⟩, rest, mem_oneOf_star.mpr hrest, rfl⟩

theorem mem_digitsRule {word : List Char} :
    word ∈ digitsRule ↔ word ≠ [] ∧ ∀ c ∈ word, c.isDigit = true := by
  rw [digitsRule, mem_oneOf_mul_star]
  constructor
  · rintro ⟨c, rest, rfl, hc, hrest⟩
    exact ⟨List.cons_ne_nil _ _, List.forall_mem_cons.mpr ⟨hc, hrest⟩⟩
  · rintro ⟨hne, hdigits⟩
    obtain ⟨c, rest, rfl⟩ := List.exists_cons_of_ne_nil hne
    obtain ⟨hc, hrest⟩ := List.forall_mem_cons.mp hdigits
    exact ⟨c, rest, rfl, hc, hrest⟩

/-- A number has digits, and a point only with digits behind it. -/
theorem mem_numeralRule {word : List Char} :
    word ∈ numeralRule ↔ word ∈ digitsRule ∨
      ∃ whole ∈ digitsRule, ∃ fraction ∈ digitsRule, word = whole ++ '.' :: fraction := by
  rw [numeralRule, Language.mem_mul]
  constructor
  · rintro ⟨whole, hwhole, tail, htail | htail, rfl⟩
    · rw [(Language.mem_one tail).mp htail, List.append_nil]
      exact .inl hwhole
    · obtain ⟨-, rfl, fraction, hfraction, rfl⟩ := Language.mem_mul.mp htail
      exact .inr ⟨whole, hwhole, fraction, hfraction, rfl⟩
  · rintro (hword | ⟨whole, hwhole, fraction, hfraction, rfl⟩)
    · exact ⟨word, hword, [], .inl rfl, List.append_nil word⟩
    · exact ⟨whole, hwhole, '.' :: fraction,
        .inr (Language.mem_mul.mpr ⟨['.'], rfl, fraction, hfraction, rfl⟩), rfl⟩

/-- Bodies of quoted texts, part by part. -/
theorem bodyRule_induction {quote : Char} {P : List Char → Prop} (hnil : P [])
    (hplain : ∀ c rest, c ≠ quote → c ≠ '\\' → rest ∈ bodyRule quote → P rest → P (c :: rest))
    (hescaped : ∀ c rest, c ≠ '\n' → rest ∈ bodyRule quote → P rest → P ('\\' :: c :: rest))
    {body : List Char} (h : body ∈ bodyRule quote) : P body := by
  obtain ⟨parts, rfl, hparts⟩ := Language.mem_kstar.mp h
  clear h
  induction parts with
  | nil => exact hnil
  | cons part more ih =>
    obtain ⟨hpart, hmore⟩ := List.forall_mem_cons.mp hparts
    have hrest : more.flatten ∈ bodyRule quote := Language.mem_kstar.mpr ⟨more, rfl, hmore⟩
    rw [List.flatten_cons]
    rcases hpart with ⟨c, hc, rfl⟩ | hpart
    · obtain ⟨hquote, hescape⟩ := Bool.and_eq_true_iff.mp hc
      exact hplain c _ (bne_iff_ne.mp hquote) (bne_iff_ne.mp hescape) hrest (ih hmore)
    · obtain ⟨-, rfl, -, ⟨c, hc, rfl⟩, rfl⟩ := Language.mem_mul.mp hpart
      exact hescaped c _ (bne_iff_ne.mp hc) hrest (ih hmore)

theorem nil_mem_bodyRule (quote : Char) : [] ∈ bodyRule quote := Language.nil_mem_kstar _

theorem cons_mem_bodyRule {quote c : Char} {rest : List Char} (hquote : c ≠ quote)
    (hescape : c ≠ '\\') (hrest : rest ∈ bodyRule quote) : c :: rest ∈ bodyRule quote := by
  obtain ⟨parts, rfl, hparts⟩ := Language.mem_kstar.mp hrest
  refine Language.mem_kstar.mpr ⟨[c] :: parts, rfl, List.forall_mem_cons.mpr ⟨.inl ?_, hparts⟩⟩
  exact ⟨c, by simp [hquote, hescape], rfl⟩

theorem escaped_mem_bodyRule {quote c : Char} {rest : List Char} (hc : c ≠ '\n')
    (hrest : rest ∈ bodyRule quote) : '\\' :: c :: rest ∈ bodyRule quote := by
  obtain ⟨parts, rfl, hparts⟩ := Language.mem_kstar.mp hrest
  refine Language.mem_kstar.mpr ⟨['\\', c] :: parts, rfl,
    List.forall_mem_cons.mpr ⟨.inr (Language.mem_mul.mpr ⟨['\\'], rfl, [c], ?_, rfl⟩), hparts⟩⟩
  exact ⟨c, by simp [hc], rfl⟩

end ReactiveMarkup.Expression
