import ReactiveMarkup.Proofs.Expression.Reading
import ReactiveMarkup.Proofs.Expression.Unambiguous
import ReactiveMarkup.Proofs.Expression.Wording

/-!
# The parser and its grammar

The parser succeeds exactly on the texts whose lexemes are derivable, and its result is the tree of
the one derivation. So an expression can be written down and read back: the written form has a
derivation with the expression as its tree, and no other. Parentheses stand only around what binds
more loosely than its place allows.
-/

namespace ReactiveMarkup

namespace Expression

/-- The sign an operator is written with. -/
def UnaryOp.word : UnaryOp → Lexeme
  | .not => .bang
  | .negate => .minus

/-- The word an operator is written with. -/
def BinaryOp.word : BinaryOp → Lexeme
  | .add => .plus
  | .subtract => .minus
  | .multiply => .star
  | .divide => .slash
  | .modulo => .percent
  | .equals => .equals
  | .notEquals => .notEquals
  | .lessThan => .less
  | .lessThanOrEqual => .lessOrEqual
  | .greaterThan => .greater
  | .greaterThanOrEqual => .greaterOrEqual
  | .and => .conjunction
  | .or => .disjunction

/-- The level an operator is on. -/
def BinaryOp.level : BinaryOp → Level
  | .add | .subtract => .sum
  | .multiply | .divide | .modulo => .product
  | .equals | .notEquals => .equality
  | .lessThan | .lessThanOrEqual | .greaterThan | .greaterThanOrEqual => .comparison
  | .and => .conjunction
  | .or => .disjunction

/-- The word of a literal; a value that no literal stands for has none of its own. -/
def literalWord : Value → Lexeme
  | .bool true => .trueWord
  | .bool false => .falseWord
  | .number (.int n) => .numeral (String.ofList (Nat.toDigits 10 n.toNat))
  | .string text => .doubleQuoted (String.ofList (escape text.toList))
  | _ => .nullWord

/-- A key as a segment: behind a dot if it is a name, else in brackets. -/
def Segment.ofKey (key : String) : Segment :=
  if isIdentifier key then .dotted key else .doubleQuoted (String.ofList (escape key.toList))

/-- How loosely a phrase may bind. -/
def Phrase.rank : Phrase → Nat
  | .primary => 0
  | .operand level => operandLooseness level + 1
  | .conditional => 8
  | .arguments => 9

end Expression

open Expression

namespace Expr

/-- The phrase an expression is by its outermost operator. -/
def phrase : Expr → Phrase
  | .conditional .. => .conditional
  | .binary op _ _ => .operand (some op.level)
  | .unary .. => .operand none
  | _ => .primary

theorem rank_phrase_le (e : Expr) : e.phrase.rank ≤ Phrase.conditional.rank := by
  cases e with
  | conditional => exact Nat.le_refl _
  | binary op => exact Nat.succ_le_succ (Nat.le_succ_of_le (operandLooseness_le _))
  | unary => exact Nat.succ_le_succ (Nat.zero_le _)
  | _ => exact Nat.zero_le _

/-- The words of an expression in some place: in parentheses if it binds too loosely for it. -/
def grouped (place : Phrase) (e : Expr) (words : List Lexeme) : List Lexeme :=
  if e.phrase.rank ≤ place.rank then words else .leftParen :: words ++ [.rightParen]

mutual

/-- The lexemes an expression is written with. -/
def words : Expr → List Lexeme
  | .literal value => [literalWord value]
  | .path segments =>
    (segments.take 1).map .name ++ (segments.drop 1).flatMap fun key => (Segment.ofKey key).yield
  | .unary op operand => op.word :: grouped (.operand none) operand (words operand)
  | .binary op left right =>
    grouped (.operand (some op.level)) left (words left) ++
      op.word :: grouped (.operand op.level.tighter) right (words right)
  | .conditional condition thenBranch elseBranch =>
    grouped (.operand (some .disjunction)) condition (words condition) ++
      .question :: (words thenBranch ++ .colon :: words elseBranch)
  | .call function arguments =>
    .name function.name :: .leftParen :: argumentWords arguments ++ [.rightParen]

/-- The arguments of a call with commas between them. -/
def argumentWords : List Expr → List Lexeme
  | [] => []
  | [argument] => words argument
  | argument :: next :: rest => words argument ++ .comma :: argumentWords (next :: rest)

end

/-- The expressions that can be written down: their numbers are integers from 0 to `2 ^ 53`, and
their paths begin with an identifier and go on with any keys. -/
inductive Printable : Expr → Prop where
  | null : Printable (.literal .null)
  | bool (b : Bool) : Printable (.literal (.bool b))
  | string (text : String) : Printable (.literal (.string text))
  | integer (n : Nat) (h : n ≤ 1 <<< 53) : Printable (.literal (.number (.int n)))
  | path (first : String) (keys : List String) (h : isIdentifier first = true) :
    Printable (.path (first :: keys))
  | unary (op : UnaryOp) {operand : Expr} (h : Printable operand) : Printable (.unary op operand)
  | binary (op : BinaryOp) {left right : Expr} (hleft : Printable left)
    (hright : Printable right) : Printable (.binary op left right)
  | conditional {condition thenBranch elseBranch : Expr} (h : Printable condition)
    (hthen : Printable thenBranch) (helse : Printable elseBranch) :
    Printable (.conditional condition thenBranch elseBranch)
  | call (function : Function) {arguments : List Expr}
    (h : ∀ argument ∈ arguments, Printable argument) : Printable (.call function arguments)

/-- The text of an expression. -/
def print (e : Expr) : String := String.ofList (spell e.words)

end Expr

namespace Expression

/-! ### The parser by its grammar -/

theorem parseLexemes_eq_ok_iff {placed : List Placed} {e : Expr} :
    parseLexemes placed = .ok e ↔
      ∃ d : Derivation .conditional, d.yield = lexemes placed ∧ d.tree = e := by
  cases placed with
  | nil =>
    constructor
    · intro h
      cases h
    · rintro ⟨d, hyield, -⟩
      exact absurd hyield d.yield_ne_nil
  | cons next more =>
    rw [parseLexemes.eq_2 _ (by simp)]
    constructor
    · intro h
      obtain ⟨⟨found, rest⟩, hfound, h⟩ := exists_of_bind_eq_ok h
      obtain ⟨d, rfl, hinput⟩ := (sound _).conditional hfound
      dsimp only at h
      split at h
      · next hrest =>
        obtain rfl := List.isEmpty_iff.mp hrest
        cases h
        exact ⟨d, by rw [hinput, lexemes_nil, List.append_nil], rfl⟩
      · cases h
    · rintro ⟨d, hyield, rfl⟩
      have hread := d.parses (parseFuel (next :: more).length) (next :: more) []
        (by rw [parseFuel]; omega) hyield.symm (ends_nil _)
      rw [List.append_nil] at hread
      rw [hread]
      rfl

/-- Of a text that lexes, the parser returns the trees of its derivations. -/
theorem parse_eq_ok_iff {text : String} {placed : List Placed} (h : lex text = .ok placed)
    {e : Expr} : parse text = .ok e ↔
      ∃ d : Derivation .conditional, d.yield = lexemes placed ∧ d.tree = e := by
  rw [← parseLexemes_eq_ok_iff, parse, h]
  cases hparse : parseLexemes placed with
  | ok found => simp [bind, Except.bind, hparse, pure, Except.pure]
  | error misfit => simp [bind, Except.bind, hparse, throw, throwThe, MonadExceptOf.throw]

/-! ### Derivations of written expressions -/

/-- Some lexemes are an expression as a phrase. -/
def Stands : Phrase → List Lexeme → Expr → Prop
  | .conditional, words, e => ∃ d : Derivation .conditional, d.yield = words ∧ d.tree = e
  | .operand level, words, e => ∃ d : Derivation (.operand level), d.yield = words ∧ d.tree = e
  | .primary, words, e => ∃ d : Derivation .primary, d.yield = words ∧ d.tree = e
  | .arguments, _, _ => False

namespace Stands

variable {words : List Lexeme} {e : Expr}

theorem unsigned (h : Stands .primary words e) : Stands (.operand none) words e := by
  obtain ⟨d, rfl, rfl⟩ := h
  exact ⟨.unsigned d, rfl, rfl⟩

theorem plain (h : Stands (.operand (some .disjunction)) words e) :
    Stands .conditional words e := by
  obtain ⟨d, rfl, rfl⟩ := h
  exact ⟨.plain d, rfl, rfl⟩

theorem group (h : Stands .conditional words e) :
    Stands .primary (.leftParen :: words ++ [.rightParen]) e := by
  obtain ⟨d, rfl, rfl⟩ := h
  exact ⟨.group d, rfl, rfl⟩

/-- An operand of some level is one of every looser level. -/
theorem operand_of_le {level bound : Option Level} (h : Stands (.operand level) words e)
    (hle : operandLooseness level ≤ operandLooseness bound) : Stands (.operand bound) words e := by
  induction hbound : operandLooseness bound generalizing bound with
  | zero =>
    obtain rfl : level = bound := operandLooseness_injective (by omega)
    exact h
  | succ n ih =>
    rcases Nat.lt_or_eq_of_le hle with hlt | heq
    · cases bound with
      | none => cases hbound
      | some bound =>
        have htighter : operandLooseness bound.tighter + 1 = operandLooseness (some bound) :=
          bound.tighter_looseness
        obtain ⟨d, rfl, rfl⟩ : Stands (.operand bound.tighter) words e := ih (by omega) (by omega)
        exact ⟨.single bound d, rfl, rfl⟩
    · obtain rfl := operandLooseness_injective heq
      exact h

/-- What may stand in one place may stand in a looser one. -/
theorem of_rank_le {phrase place : Phrase} (h : Stands phrase words e)
    (hle : phrase.rank ≤ place.rank) (hplace : place ≠ .arguments) : Stands place words e := by
  have hwhole : ∀ level, Stands (.operand level) words e → Stands .conditional words e :=
    fun level hstands =>
      plain (hstands.operand_of_le (operandLooseness_le level))
  cases place with
  | arguments => exact absurd rfl hplace
  | primary =>
    cases phrase with
    | primary => exact h
    | arguments => exact h.elim
    | operand level => cases hle
    | conditional => cases hle
  | operand bound =>
    cases phrase with
    | primary => exact h.unsigned.operand_of_le (Nat.zero_le _)
    | arguments => exact h.elim
    | operand level => exact h.operand_of_le (Nat.le_of_succ_le_succ hle)
    | conditional =>
      exact absurd (Nat.le_trans (Nat.le_of_succ_le_succ hle) (operandLooseness_le bound)) (by decide)
  | conditional =>
    cases phrase with
    | primary => exact hwhole none h.unsigned
    | arguments => exact h.elim
    | operand level => exact hwhole level h
    | conditional => exact h

theorem grouped (h : Stands e.phrase words e) {place : Phrase} (hplace : place ≠ .arguments) :
    Stands place (e.grouped place words) e := by
  unfold Expr.grouped
  split
  · next hle => exact h.of_rank_le hle hplace
  · have hwhole : Stands .conditional words e := h.of_rank_le e.rank_phrase_le (by simp)
    exact hwhole.group.of_rank_le (Nat.zero_le _) hplace

end Stands

theorem exists_arguments {arguments : List Expr} (hne : arguments ≠ [])
    (h : ∀ argument ∈ arguments, Stands argument.phrase argument.words argument) :
    ∃ d : Derivation .arguments, d.yield = Expr.argumentWords arguments ∧ d.tree = arguments := by
  induction arguments with
  | nil => exact absurd rfl hne
  | cons argument rest ih =>
    obtain ⟨first, hfirst, htree⟩ : Stands .conditional argument.words argument :=
      (h argument List.mem_cons_self).of_rank_le argument.rank_phrase_le (by simp)
    cases rest with
    | nil => exact ⟨.lastArgument first, hfirst, congrArg (· :: []) htree⟩
    | cons next rest =>
      obtain ⟨more, hmore, htrees⟩ :=
        ih (by simp) fun argument hmem => h argument (List.mem_cons_of_mem _ hmem)
      refine ⟨.nextArgument first more, ?_, ?_⟩
      · rw [Derivation.yield, hfirst, hmore]
        rfl
      · exact congr (congrArg List.cons htree) htrees

/-- The escaped form of a text stands for it. -/
theorem unescape_escape (text : String) : unescape (String.ofList (escape text.toList)) = text := by
  rw [unescape, String.toList_ofList, unescapeChars_escape, String.ofList_toList]

theorem Segment.key_ofKey (key : String) : (Segment.ofKey key).key = key := by
  unfold Segment.ofKey
  split
  · rfl
  · exact unescape_escape key

/-- The digits of an integer stand for it. -/
theorem numeralValue_toDigits {n : Nat} (h : n ≤ 1 <<< 53) :
    numeralValue (String.ofList (Nat.toDigits 10 n)) = .number (.int n) := by
  have hread := ofDouble_readDouble_toDigits h
  rw [numeralValue, String.toList_ofList]
  cases hdouble : Decimal.readDouble (Nat.toDigits 10 n) with
  | none => rw [hdouble] at hread; cases hread
  | some d => rw [hdouble] at hread; exact Option.some.inj hread

/-- What is written of an expression has the expression as its tree. -/
theorem stands_words {e : Expr} (h : e.Printable) : Stands e.phrase e.words e := by
  induction h with
  | null => exact ⟨.literal .nullWord .null rfl, rfl, rfl⟩
  | bool b =>
    cases b with
    | true => exact ⟨.literal .trueWord (.bool true) rfl, rfl, rfl⟩
    | false => exact ⟨.literal .falseWord (.bool false) rfl, rfl, rfl⟩
  | string text =>
    have hmeans : (literalWord (.string text)).literal? = some (.string text) :=
      congrArg (some ∘ Value.string) (unescape_escape text)
    exact ⟨.literal _ _ hmeans, rfl, rfl⟩
  | integer n h =>
    have hmeans : (literalWord (.number (.int n))).literal? = some (.number (.int n)) :=
      congrArg some (numeralValue_toDigits h)
    exact ⟨.literal _ _ hmeans, rfl, rfl⟩
  | path first keys h =>
    refine ⟨.path first (keys.map Segment.ofKey), ?_, ?_⟩
    · simp [Derivation.yield, Expr.words, List.flatMap_map]
    · simp [Derivation.tree, Function.comp_def, Segment.key_ofKey]
  | unary op h ih =>
    obtain ⟨d, hyield, htree⟩ : Stands (.operand none) _ _ := ih.grouped (by simp)
    have hmeans : op.word.sign? = some op := by cases op <;> rfl
    exact ⟨.signed op.word op hmeans d, congrArg (List.cons _) hyield, congrArg (Expr.unary op) htree⟩
  | binary op hleft hright ihLeft ihRight =>
    obtain ⟨left, hleftYield, hleftTree⟩ : Stands (.operand (some op.level)) _ _ :=
      ihLeft.grouped (by simp)
    obtain ⟨right, hrightYield, hrightTree⟩ : Stands (.operand op.level.tighter) _ _ :=
      ihRight.grouped (by simp)
    have hmeans : op.level.operator? op.word = some op := by cases op <;> rfl
    refine ⟨.chain op.level left op.word op hmeans right, ?_, ?_⟩
    · rw [Derivation.yield, hleftYield, hrightYield]
      rfl
    · exact congr (congrArg (Expr.binary op) hleftTree) hrightTree
  | conditional h hthen helse ih ihThen ihElse =>
    obtain ⟨condition, hyield, htree⟩ : Stands (.operand (some .disjunction)) _ _ :=
      ih.grouped (by simp)
    obtain ⟨thenBranch, hthenYield, hthenTree⟩ : Stands .conditional _ _ :=
      ihThen.of_rank_le (Expr.rank_phrase_le _) (by simp)
    obtain ⟨elseBranch, helseYield, helseTree⟩ : Stands .conditional _ _ :=
      ihElse.of_rank_le (Expr.rank_phrase_le _) (by simp)
    refine ⟨.choice condition thenBranch elseBranch, ?_, ?_⟩
    · rw [Derivation.yield, hyield, hthenYield, helseYield]
      rfl
    · exact congr (congr (congrArg Expr.conditional htree) hthenTree) helseTree
  | @call function arguments h ih =>
    have hmeans : Unicode.lower function.name = function.name := by
      cases function <;> decide +kernel
    cases arguments with
    | nil => exact ⟨.bareCall function.name function hmeans, rfl, rfl⟩
    | cons argument rest =>
      obtain ⟨more, hyield, htrees⟩ := exists_arguments (by simp) ih
      refine ⟨.call function.name function hmeans more, ?_, congrArg (Expr.call function) htrees⟩
      rw [Derivation.yield, hyield]
      rfl

theorem isWritten_grouped {place : Phrase} {e : Expr} (h : ∀ word ∈ e.words, word.IsWritten) :
    ∀ word ∈ e.grouped place e.words, word.IsWritten := by
  unfold Expr.grouped
  split
  · exact h
  · intro word hword
    simp only [List.cons_append, List.mem_cons, List.mem_append, List.not_mem_nil, or_false] at hword
    rcases hword with rfl | hword | rfl
    · trivial
    · exact h word hword
    · trivial

theorem isWritten_argumentWords {arguments : List Expr}
    (h : ∀ argument ∈ arguments, ∀ word ∈ argument.words, word.IsWritten) :
    ∀ word ∈ Expr.argumentWords arguments, word.IsWritten := by
  induction arguments with
  | nil => simp [Expr.argumentWords]
  | cons argument rest ih =>
    have hfirst := h argument List.mem_cons_self
    have hrest := ih fun argument hmem => h argument (List.mem_cons_of_mem _ hmem)
    cases rest with
    | nil => exact hfirst
    | cons next rest =>
      intro word hword
      simp only [Expr.argumentWords, List.mem_append, List.mem_cons] at hword
      rcases hword with hword | rfl | hword
      · exact hfirst word hword
      · trivial
      · exact hrest word hword

theorem isWritten_ofKey (key : String) : ∀ word ∈ (Segment.ofKey key).yield, word.IsWritten := by
  intro word hword
  unfold Segment.ofKey at hword
  split at hword
  · next hname =>
    simp only [Segment.yield, List.mem_cons, List.not_mem_nil, or_false] at hword
    rcases hword with rfl | rfl
    · trivial
    · exact hname
  · simp only [Segment.yield, List.mem_cons, List.not_mem_nil, or_false] at hword
    rcases hword with rfl | rfl | rfl
    · trivial
    · exact ⟨key.toList, rfl⟩
    · trivial

theorem isWritten_words {e : Expr} (h : e.Printable) : ∀ word ∈ e.words, word.IsWritten := by
  induction h with
  | null => simp [Expr.words, literalWord, Lexeme.IsWritten]
  | bool b => cases b <;> simp [Expr.words, literalWord, Lexeme.IsWritten]
  | string text =>
    simp only [Expr.words, List.mem_singleton, forall_eq]
    exact ⟨text.toList, rfl⟩
  | integer n h =>
    simp only [Expr.words, List.mem_singleton, forall_eq]
    exact ⟨n, rfl⟩
  | path first keys h =>
    intro word hword
    simp only [Expr.words, List.take_succ_cons, List.take_zero, List.map_cons, List.map_nil,
      List.drop_succ_cons, List.drop_zero, List.mem_append, List.mem_singleton,
      List.mem_flatMap] at hword
    rcases hword with rfl | ⟨key, -, hword⟩
    · exact h
    · exact isWritten_ofKey key word hword
  | unary op h ih =>
    simp only [Expr.words, List.forall_mem_cons]
    exact ⟨by cases op <;> trivial, isWritten_grouped ih⟩
  | binary op hleft hright ihLeft ihRight =>
    simp only [Expr.words, List.forall_mem_append, List.forall_mem_cons]
    exact ⟨isWritten_grouped ihLeft, by cases op <;> trivial, isWritten_grouped ihRight⟩
  | conditional h hthen helse ih ihThen ihElse =>
    simp only [Expr.words, List.forall_mem_append, List.forall_mem_cons]
    exact ⟨isWritten_grouped ih, trivial, ihThen, trivial, ihElse⟩
  | @call function arguments h ih =>
    have hname : isIdentifier function.name = true := by cases function <;> decide
    simp only [Expr.words, List.forall_mem_append, List.forall_mem_cons, List.cons_append]
    exact ⟨hname, trivial, isWritten_argumentWords ih, trivial, List.forall_mem_nil _⟩

/-- Where an expression stands in parentheses, it could not stand without them. -/
theorem not_stands_words {e : Expr} (h : e.Printable) {place : Phrase}
    (hplace : place.rank < e.phrase.rank) : ¬ Stands place e.words e := by
  intro hstands
  have hne : place ≠ .arguments := by
    rintro rfl
    exact hstands
  cases h with
  | conditional h hthen helse =>
    obtain ⟨operand, hoperand, -⟩ : Stands (.operand (some .disjunction)) _ _ :=
      hstands.of_rank_le (Nat.le_of_lt_succ hplace) (by simp)
    obtain ⟨condition, hcondition, -⟩ : Stands (.operand (some .disjunction)) _ _ :=
      (stands_words h).grouped (by simp)
    rw [Expr.words, ← hcondition] at hoperand
    exact operand.parses.operand.ne_append_cons condition.parses.operand (by decide) hoperand
  | @binary op left right hleft hright =>
    have hrank : place.rank ≤ (Phrase.operand op.level.tighter).rank := by
      have hlevel := op.level.tighter_looseness
      simp only [Expr.phrase, Phrase.rank, operandLooseness] at hplace hlevel ⊢
      omega
    obtain ⟨operand, hoperand, -⟩ : Stands (.operand op.level.tighter) _ _ :=
      hstands.of_rank_le hrank (by simp)
    obtain ⟨first, hfirst, -⟩ : Stands (.operand (some op.level)) _ _ :=
      (stands_words hleft).grouped (by simp)
    obtain ⟨second, hsecond, -⟩ : Stands (.operand op.level.tighter) _ _ :=
      (stands_words hright).grouped (by simp)
    have hmeans : op.level.operator? op.word = some op := by cases op <;> rfl
    have hyield : (Derivation.single op.level operand).yield =
        (Derivation.chain op.level first op.word op hmeans second).yield := by
      rw [Derivation.yield, Derivation.yield, hoperand, hfirst, hsecond]
      rfl
    cases (Derivation.determined _).eq hyield
  | @unary op operand h =>
    obtain ⟨primary, hprimary, -⟩ : Stands .primary _ _ :=
      hstands.of_rank_le (Nat.le_of_lt_succ hplace) (by simp)
    have hmeans : op.word.sign? = some op := by cases op <;> rfl
    exact Derivation.unsigned_ne_signed hmeans hprimary
  | _ => cases hplace

/-- A text with the lexemes of an expression is read as the expression, however it is spaced. -/
theorem parse_of_words {e : Expr} (h : e.Printable) {text : String} {placed : List Placed}
    (hlex : lex text = .ok placed) (hwords : lexemes placed = e.words) : parse text = .ok e := by
  have hwhole : Stands .conditional e.words e :=
    (stands_words h).of_rank_le e.rank_phrase_le (by simp)
  rw [parse_eq_ok_iff hlex, hwords]
  exact hwhole

/-- What is written down is read back. -/
theorem parse_print {e : Expr} (h : e.Printable) : parse e.print = .ok e := by
  obtain ⟨placed, hlex, hlexemes⟩ := lex_spell (isWritten_words h)
  exact parse_of_words h hlex hlexemes

/-- The parser implements its grammar: of a text that lexes it returns exactly the trees of the
derivations of its lexemes, of which there is at most one. An expression that is written down, with
parentheses only where it could not stand without them, is read back as itself, and so is any other
text with the same lexemes. -/
theorem parse_meets_grammar :
    (∀ text placed, lex text = .ok placed → ∀ e, parse text = .ok e ↔
      ∃ d : Derivation .conditional, d.yield = lexemes placed ∧ d.tree = e) ∧
    (∀ d d' : Derivation .conditional, d.yield = d'.yield → d = d') ∧
    (∀ e : Expr, e.Printable → parse e.print = .ok e ∧
      (∀ text placed, lex text = .ok placed → lexemes placed = e.words → parse text = .ok e) ∧
      ∀ place : Phrase, place.rank < e.phrase.rank → ¬ Stands place e.words e) :=
  ⟨fun _ _ h _ => parse_eq_ok_iff h, fun d _ h => d.determined.eq h, fun _ h =>
    ⟨parse_print h, fun _ _ hlex hwords => parse_of_words h hlex hwords,
      fun _ hplace => not_stands_words h hplace⟩⟩

/-- The product of a sum, which needs its parentheses. -/
def sumTimesTwo : Expr :=
  .binary .multiply (.binary .add (.literal (.number (.int 1))) (.path ["db", "display name"]))
    (.literal (.number (.int 2)))

theorem printable_sumTimesTwo : sumTimesTwo.Printable :=
  .binary .multiply (.binary .add (.integer 1 (by decide)) (.path "db" ["display name"] (by decide)))
    (.integer 2 (by decide))

theorem sumTimesTwo_read_back :
    sumTimesTwo.print = "( 1 + db [ \"display name\" ] ) * 2" ∧
      parse sumTimesTwo.print = .ok sumTimesTwo ∧
      ∃ placed, lex sumTimesTwo.print = .ok placed ∧
        ∃ d : Derivation .conditional, d.yield = lexemes placed ∧ d.tree = sumTimesTwo := by
  obtain ⟨hread, -, hback⟩ := parse_meets_grammar
  obtain ⟨placed, hlex, -⟩ := lex_spell (isWritten_words printable_sumTimesTwo)
  have hparse := (hback sumTimesTwo printable_sumTimesTwo).1
  exact ⟨by decide +kernel, hparse, placed, hlex, (hread _ placed hlex _).mp hparse⟩

end Expression

end ReactiveMarkup
