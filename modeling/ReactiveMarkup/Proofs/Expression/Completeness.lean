import ReactiveMarkup.Proofs.Expression.Grammar

/-!
# What is derivable is read

Completeness: a parser function that meets the yield of a derivation, and behind it something that
ends the phrase, returns the tree of the derivation. The fuel it needs is sixteen steps for each
lexeme and the depth of the phrase, which is the number of levels above an operand without signs;
`parseFuel` grants that.

The induction is on the derivation. A chain is left recursive while the parser runs it from the
left, so of a chain the induction says less than that it is read: the parser comes to the point
where it has read the chain so far and looks for one more operator.
-/

namespace ReactiveMarkup.Expression

/-- The first of some lexemes does not go on with a phrase whose operators bind at most so
loosely. -/
def Ends (looseness : Nat) (rest : List Lexeme) : Prop :=
  ∀ word ∈ rest.head?, looseness < word.looseness

theorem ends_nil (looseness : Nat) : Ends looseness [] := by simp [Ends]

theorem ends_cons {looseness : Nat} {word : Lexeme} {rest : List Lexeme}
    (h : looseness < word.looseness) : Ends looseness (word :: rest) := by simp [Ends, h]

theorem Ends.of_le {looseness bound : Nat} {rest : List Lexeme} (h : Ends bound rest)
    (hle : looseness ≤ bound) : Ends looseness rest :=
  fun word hword => Nat.lt_of_le_of_lt hle (h word hword)

theorem Ends.append {looseness : Nat} {front rest : List Lexeme} (h : Ends looseness front)
    (h' : Ends looseness rest) : Ends looseness (front ++ rest) := by
  cases front with
  | nil => exact h'
  | cons word front => exact h

theorem exists_of_lexemes_eq_append {words : List Placed} {front rest : List Lexeme}
    (h : lexemes words = front ++ rest) :
    ∃ first second, words = first ++ second ∧ lexemes first = front ∧ lexemes second = rest :=
  List.map_eq_append_iff.mp h

theorem exists_of_lexemes_eq_cons {words : List Placed} {word : Lexeme} {rest : List Lexeme}
    (h : lexemes words = word :: rest) :
    ∃ start stop more, words = ⟨word, start, stop⟩ :: more ∧ lexemes more = rest := by
  obtain ⟨⟨_, start, stop⟩, more, rfl, rfl, hmore⟩ := List.map_eq_cons_iff.mp h
  exact ⟨start, stop, more, rfl, hmore⟩

theorem expect_cons (lexeme : Lexeme) (shown : String) (start stop : Nat) (rest : List Placed) :
    expect lexeme shown (⟨lexeme, start, stop⟩ :: rest) = .ok rest := by simp [expect]

theorem parseChain_of_ends {fuel : Nat} {level : Level} {left : Expr} {rest : List Placed}
    (h : Ends level.looseness (lexemes rest)) :
    parseChain (fuel + 1) level left rest = .ok (left, rest) := by
  cases rest with
  | nil => rw [parseChain.eq_def]
  | cons next rest =>
    have hnone : level.operator? next.lexeme = none := Level.operator?_eq_none (h _ rfl)
    rw [parseChain, hnone]

theorem parseSegments_of_ends {fuel : Nat} {rest : List Placed} (h : Ends 0 (lexemes rest)) :
    parseSegments (fuel + 1) rest = .ok ([], rest) := by
  cases rest with
  | nil => rfl
  | cons next rest =>
    have hnext := h _ rfl
    obtain ⟨word, start, stop⟩ := next
    cases word <;> first | rfl | exact absurd hnext (Nat.lt_irrefl 0)

/-- The segments of a path are read up to what ends an operand. -/
theorem parseSegments_yield (segments : List Segment) (fuel : Nat) {words rest : List Placed}
    (hfuel : words.length < fuel) (hwords : lexemes words = segments.flatMap Segment.yield)
    (hends : Ends 0 (lexemes rest)) :
    parseSegments fuel (words ++ rest) = .ok (segments.map Segment.key, rest) := by
  induction segments generalizing fuel words with
  | nil =>
    obtain rfl := List.map_eq_nil_iff.mp hwords
    obtain ⟨steps, rfl⟩ : ∃ steps, fuel = steps + 1 := ⟨fuel - 1, by omega⟩
    exact parseSegments_of_ends hends
  | cons segment segments ih =>
    obtain ⟨front, more, rfl, hfront, hmore⟩ := exists_of_lexemes_eq_append hwords
    rw [List.length_append] at hfuel
    obtain ⟨steps, rfl⟩ : ∃ steps, fuel = steps + 1 := ⟨fuel - 1, by omega⟩
    cases segment with
    | dotted name =>
      obtain ⟨_, _, front, rfl, hname⟩ := exists_of_lexemes_eq_cons hfront
      obtain ⟨_, _, front, rfl, hnil⟩ := exists_of_lexemes_eq_cons hname
      obtain rfl := List.map_eq_nil_iff.mp hnil
      simp only [List.length_cons] at hfuel
      have hkeys := ih steps (by omega) hmore
      simp only [List.cons_append, List.nil_append, parseSegments, hkeys]
      rfl
    | doubleQuoted body =>
      obtain ⟨_, _, front, rfl, hbody⟩ := exists_of_lexemes_eq_cons hfront
      obtain ⟨_, _, front, rfl, hclose⟩ := exists_of_lexemes_eq_cons hbody
      obtain ⟨_, _, front, rfl, hnil⟩ := exists_of_lexemes_eq_cons hclose
      obtain rfl := List.map_eq_nil_iff.mp hnil
      simp only [List.length_cons] at hfuel
      have hkeys := ih steps (by omega) hmore
      simp only [List.cons_append, List.nil_append, parseSegments, expect_cons, bind, Except.bind,
        hkeys]
      rfl
    | singleQuoted body =>
      obtain ⟨_, _, front, rfl, hbody⟩ := exists_of_lexemes_eq_cons hfront
      obtain ⟨_, _, front, rfl, hclose⟩ := exists_of_lexemes_eq_cons hbody
      obtain ⟨_, _, front, rfl, hnil⟩ := exists_of_lexemes_eq_cons hclose
      obtain rfl := List.map_eq_nil_iff.mp hnil
      simp only [List.length_cons] at hfuel
      have hkeys := ih steps (by omega) hmore
      simp only [List.cons_append, List.nil_append, parseSegments, expect_cons, bind, Except.bind,
        hkeys]
      rfl

/-- A path that is read up to what ends an operand is not taken for a call. -/
theorem ne_leftParen_of_segments {segments : List Segment} {words rest inside : List Placed}
    {start stop : Nat} (hwords : lexemes words = segments.flatMap Segment.yield)
    (hends : Ends 0 (lexemes rest)) : words ++ rest ≠ ⟨.leftParen, start, stop⟩ :: inside := by
  intro h
  cases segments with
  | nil =>
    obtain rfl := List.map_eq_nil_iff.mp hwords
    obtain rfl : rest = _ := h
    exact absurd (hends _ rfl) (Nat.lt_irrefl 0)
  | cons segment segments =>
    have hfirst := congrArg lexemes h
    rw [lexemes_append, hwords] at hfirst
    cases segment <;> cases hfirst

/-- A function of the parser reads a yield as a tree, with so many steps beyond sixteen for each
lexeme. -/
def ReadAs (parse : Nat → List Placed → Except Misfit (Expr × List Placed)) (depth looseness : Nat)
    (yield : List Lexeme) (tree : Expr) : Prop :=
  ∀ fuel words rest, 16 * words.length + depth ≤ fuel → lexemes words = yield →
    Ends looseness (lexemes rest) → parse fuel (words ++ rest) = .ok (tree, rest)

namespace Derivation

/-- No phrase opens with a closing parenthesis. -/
theorem yield_opens {phrase : Phrase} (d : Derivation phrase) :
    ∃ word more, d.yield = word :: more ∧ word ≠ .rightParen := by
  have happend : ∀ {front rest : List Lexeme},
      (∃ word more, front = word :: more ∧ word ≠ .rightParen) →
      ∃ word more, front ++ rest = word :: more ∧ word ≠ .rightParen := by
    rintro _ rest ⟨word, more, rfl, hword⟩
    exact ⟨word, more ++ rest, rfl, hword⟩
  induction d with
  | literal word value means => exact ⟨word, [], rfl, by rintro rfl; cases means⟩
  | group inner => exact ⟨_, _, rfl, by decide⟩
  | path first segments => exact ⟨_, _, rfl, by simp⟩
  | bareCall name function means => exact ⟨_, _, rfl, by simp⟩
  | call name function means arguments => exact ⟨_, _, rfl, by simp⟩
  | signed word op means operand => exact ⟨word, _, rfl, by rintro rfl; cases means⟩
  | lastArgument argument ih => exact ih
  | unsigned operand ih => exact ih
  | single level operand ih => exact ih
  | plain operand ih => exact ih
  | nextArgument argument more ih => exact happend ih
  | chain level left word op means right ih => exact happend ih
  | choice condition thenBranch elseBranch ih => exact happend ih

/-- No operand without signs opens with a sign. -/
theorem yield_opens_primary (d : Derivation .primary) :
    ∃ word more, d.yield = word :: more ∧ word.sign? = none := by
  cases d with
  | literal word value means =>
    exact ⟨word, [], rfl, by cases word <;> first | rfl | cases means⟩
  | group inner => exact ⟨_, _, rfl, rfl⟩
  | path first segments => exact ⟨_, _, rfl, rfl⟩
  | bareCall name function means => exact ⟨_, _, rfl, rfl⟩
  | call name function means arguments => exact ⟨_, _, rfl, rfl⟩

/-- What the induction says of each phrase. -/
def Parses : {phrase : Phrase} → Derivation phrase → Prop
  | .conditional, d => ReadAs parseConditional 9 7 d.yield d.tree
  | .operand none, d => ReadAs (parseLevel · none) 2 0 d.yield d.tree
  | .operand (some level), d =>
    ∀ fuel words rest, 16 * words.length + level.looseness + 1 ≤ fuel → lexemes words = d.yield →
      Ends (operandLooseness level.tighter) (lexemes rest) →
      parseLevel (fuel + 1) (some level) (words ++ rest) =
        parseChain (fuel - d.links) level d.tree rest
  | .primary, d => ReadAs parsePrimary 0 0 d.yield d.tree
  | .arguments, d =>
    ∀ fuel words start stop rest, 16 * words.length + 10 ≤ fuel → lexemes words = d.yield →
      parseArguments fuel (words ++ ⟨.rightParen, start, stop⟩ :: rest) = .ok (d.tree, rest)

/-- An operand is read up to what ends it. -/
theorem Parses.operand {level : Option Level} {d : Derivation (.operand level)} (h : d.Parses) :
    ReadAs (parseLevel · level) (operandLooseness level + 2) (operandLooseness level)
      d.yield d.tree := by
  cases level with
  | none => exact h
  | some level =>
    intro fuel words rest hfuel hwords hends
    have hlinks : d.links < words.length := by
      have hlt := d.links_lt_yield
      rwa [← hwords, lexemes, List.length_map] at hlt
    have hloose := level.tighter_looseness
    simp only [operandLooseness] at hfuel hends
    obtain ⟨steps, rfl⟩ : ∃ steps, fuel = d.links + steps + 2 :=
      ⟨fuel - d.links - 2, by omega⟩
    have hchain := h (d.links + steps + 1) words rest (by omega) hwords (hends.of_le (by omega))
    rw [show d.links + steps + 1 - d.links = steps + 1 by omega, parseChain_of_ends hends] at hchain
    exact hchain

theorem parses_literal (word : Lexeme) (value : Value) (means : word.literal? = some value) :
    (literal word value means).Parses := by
  intro fuel words rest hfuel hwords hends
  obtain ⟨_, _, more, rfl, hmore⟩ := exists_of_lexemes_eq_cons hwords
  obtain rfl := List.map_eq_nil_iff.mp hmore
  obtain ⟨steps, rfl⟩ : ∃ steps, fuel = steps + 1 :=
    ⟨fuel - 1, by rw [List.length_cons] at hfuel; omega⟩
  cases word <;> cases means <;> rfl

theorem parses_group {inner : Derivation .conditional} (ih : inner.Parses) :
    (group inner).Parses := by
  intro fuel words rest hfuel hwords hends
  obtain ⟨_, _, more, rfl, hmore⟩ := exists_of_lexemes_eq_cons hwords
  obtain ⟨inside, closing, rfl, hinside, hclosing⟩ := exists_of_lexemes_eq_append hmore
  obtain ⟨start, stop, closing, rfl, hnil⟩ := exists_of_lexemes_eq_cons hclosing
  obtain rfl := List.map_eq_nil_iff.mp hnil
  simp only [List.length_cons, List.length_append, List.length_nil] at hfuel
  obtain ⟨steps, rfl⟩ : ∃ steps, fuel = steps + 1 := ⟨fuel - 1, by omega⟩
  have hinner := ih steps inside (⟨.rightParen, start, stop⟩ :: rest) (by omega) hinside
    (ends_cons (show 7 < Lexeme.looseness .rightParen by decide))
  simp only [List.cons_append, List.append_assoc, List.nil_append, parsePrimary, hinner, bind,
    Except.bind, expect_cons]
  rfl

theorem parses_path (first : String) (segments : List Segment) : (path first segments).Parses := by
  intro fuel words rest hfuel hwords hends
  obtain ⟨_, _, more, rfl, hmore⟩ := exists_of_lexemes_eq_cons hwords
  rw [List.length_cons] at hfuel
  obtain ⟨steps, rfl⟩ : ∃ steps, fuel = steps + 1 := ⟨fuel - 1, by omega⟩
  have hsegments := parseSegments_yield segments steps (by omega) hmore hends
  rw [List.cons_append, parsePrimary]
  dsimp only
  split
  · next hparen => exact absurd hparen (ne_leftParen_of_segments hmore hends)
  · simp only [hsegments]
    rfl

theorem parses_bareCall (name : String) (function : Function)
    (means : Unicode.lower name = function.name) : (bareCall name function means).Parses := by
  intro fuel words rest hfuel hwords hends
  obtain ⟨_, _, more, rfl, hopen⟩ := exists_of_lexemes_eq_cons hwords
  obtain ⟨_, _, more, rfl, hclose⟩ := exists_of_lexemes_eq_cons hopen
  obtain ⟨_, _, more, rfl, hnil⟩ := exists_of_lexemes_eq_cons hclose
  obtain rfl := List.map_eq_nil_iff.mp hnil
  simp only [List.length_cons] at hfuel
  obtain ⟨steps, rfl⟩ : ∃ steps, fuel = steps + 1 := ⟨fuel - 1, by omega⟩
  simp only [List.cons_append, List.nil_append, parsePrimary,
    Function.ofName?_eq_some_iff.mpr means]
  rfl

theorem parses_call {name : String} {function : Function}
    {means : Unicode.lower name = function.name} {arguments : Derivation .arguments}
    (ih : arguments.Parses) : (call name function means arguments).Parses := by
  intro fuel words rest hfuel hwords hends
  obtain ⟨_, _, more, rfl, hopen⟩ := exists_of_lexemes_eq_cons hwords
  obtain ⟨_, _, more, rfl, hmore⟩ := exists_of_lexemes_eq_cons hopen
  obtain ⟨inside, closing, rfl, hinside, hclosing⟩ := exists_of_lexemes_eq_append hmore
  obtain ⟨start, stop, closing, rfl, hnil⟩ := exists_of_lexemes_eq_cons hclosing
  obtain rfl := List.map_eq_nil_iff.mp hnil
  simp only [List.length_cons, List.length_append, List.length_nil] at hfuel
  obtain ⟨steps, rfl⟩ : ∃ steps, fuel = steps + 1 := ⟨fuel - 1, by omega⟩
  have harguments := ih steps inside start stop rest (by omega) hinside
  simp only [List.cons_append, List.append_assoc, List.nil_append, parsePrimary,
    Function.ofName?_eq_some_iff.mpr means]
  split
  · next hparen =>
    obtain ⟨word, more, hyield, hword⟩ := arguments.yield_opens
    have hfirst := congrArg lexemes hparen
    rw [lexemes_append, hinside, hyield] at hfirst
    exact absurd (List.head_eq_of_cons_eq hfirst) hword
  · simp only [harguments]
    rfl

theorem parses_lastArgument {argument : Derivation .conditional} (ih : argument.Parses) :
    (lastArgument argument).Parses := by
  intro fuel words start stop rest hfuel hwords
  obtain ⟨steps, rfl⟩ : ∃ steps, fuel = steps + 1 := ⟨fuel - 1, by omega⟩
  have hargument := ih steps words (⟨.rightParen, start, stop⟩ :: rest) (by omega) hwords
    (ends_cons (show 7 < Lexeme.looseness .rightParen by decide))
  rw [parseArguments, hargument]
  rfl

theorem parses_nextArgument {argument : Derivation .conditional} {more : Derivation .arguments}
    (ih : argument.Parses) (ihMore : more.Parses) : (nextArgument argument more).Parses := by
  intro fuel words start stop rest hfuel hwords
  obtain ⟨first, behind, rfl, hfirst, hbehind⟩ := exists_of_lexemes_eq_append hwords
  obtain ⟨commaStart, commaStop, others, rfl, hothers⟩ := exists_of_lexemes_eq_cons hbehind
  simp only [List.length_append, List.length_cons] at hfuel
  obtain ⟨steps, rfl⟩ : ∃ steps, fuel = steps + 1 := ⟨fuel - 1, by omega⟩
  have hargument := ih steps first
    (⟨.comma, commaStart, commaStop⟩ :: (others ++ ⟨.rightParen, start, stop⟩ :: rest))
    (by omega) hfirst (ends_cons (show 7 < Lexeme.looseness .comma by decide))
  have hmore := ihMore steps others start stop rest (by omega) hothers
  rw [List.append_assoc, List.cons_append, parseArguments, hargument]
  simp only [bind, Except.bind, hmore]
  rfl

theorem parses_unsigned {operand : Derivation .primary} (ih : operand.Parses) :
    (unsigned operand).Parses := by
  intro fuel words rest hfuel hwords hends
  obtain ⟨steps, rfl⟩ : ∃ steps, fuel = steps + 2 := ⟨fuel - 2, by omega⟩
  have hoperand := ih steps words rest (by omega) hwords hends
  obtain ⟨word, more, hyield, hword⟩ := operand.yield_opens_primary
  obtain ⟨_, _, more, rfl, _⟩ := exists_of_lexemes_eq_cons (hwords.trans hyield)
  cases word <;> first | exact hoperand | cases hword

theorem parses_signed {word : Lexeme} {op : UnaryOp} {means : word.sign? = some op}
    {operand : Derivation (.operand none)} (ih : operand.Parses) :
    (signed word op means operand).Parses := by
  intro fuel words rest hfuel hwords hends
  obtain ⟨_, _, more, rfl, hmore⟩ := exists_of_lexemes_eq_cons hwords
  rw [List.length_cons] at hfuel
  obtain ⟨steps, rfl⟩ : ∃ steps, fuel = steps + 2 := ⟨fuel - 2, by omega⟩
  have hoperand : parseUnary steps (more ++ rest) = .ok (operand.tree, rest) :=
    ih (steps + 1) more rest (by omega) hmore hends
  cases word <;> cases means <;> simp only [List.cons_append, parseLevel, parseUnary, hoperand] <;>
    rfl

theorem parses_single {level : Level} {operand : Derivation (.operand level.tighter)}
    (ih : operand.Parses) : (single level operand).Parses := by
  intro fuel words rest hfuel hwords hends
  have hloose := level.tighter_looseness
  have hoperand : parseLevel fuel level.tighter (words ++ rest) = .ok (operand.tree, rest) :=
    ih.operand fuel words rest (by omega) hwords hends
  rw [parseLevel, hoperand]
  rfl

theorem parses_chain {level : Level} {left : Derivation (.operand (some level))} {word : Lexeme}
    {op : BinaryOp} {means : level.operator? word = some op}
    {right : Derivation (.operand level.tighter)} (ihLeft : left.Parses) (ihRight : right.Parses) :
    (chain level left word op means right).Parses := by
  intro fuel words rest hfuel hwords hends
  obtain ⟨before, behind, rfl, hbefore, hbehind⟩ := exists_of_lexemes_eq_append hwords
  obtain ⟨start, stop, after, rfl, hafter⟩ := exists_of_lexemes_eq_cons hbehind
  have hlinks : left.links < before.length := by
    have hlt := left.links_lt_yield
    rwa [← hbefore, lexemes, List.length_map] at hlt
  have hloose := level.tighter_looseness
  simp only [List.length_append, List.length_cons] at hfuel
  have hleft := ihLeft fuel before (⟨word, start, stop⟩ :: (after ++ rest)) (by omega) hbefore
    (ends_cons (Level.tighter_lt_operator means))
  obtain ⟨steps, rfl⟩ : ∃ steps, fuel = left.links + steps + 1 :=
    ⟨fuel - left.links - 1, by omega⟩
  have hright := ihRight.operand steps after rest (by omega) hafter hends
  rw [List.append_assoc, List.cons_append, hleft,
    show left.links + steps + 1 - left.links = steps + 1 by omega, parseChain, means]
  simp only [hright]
  rw [links, show left.links + steps + 1 - (left.links + 1) = steps by omega]
  rfl

theorem parses_plain {operand : Derivation (.operand (some .disjunction))} (ih : operand.Parses) :
    (plain operand).Parses := by
  intro fuel words rest hfuel hwords hends
  obtain ⟨steps, rfl⟩ : ∃ steps, fuel = steps + 1 := ⟨fuel - 1, by omega⟩
  have hoperand : parseLevel steps (some .disjunction) (words ++ rest) = .ok (operand.tree, rest) :=
    ih.operand steps words rest (by simp only [operandLooseness, Level.looseness]; omega) hwords
      (hends.of_le (by decide))
  rw [parseConditional, hoperand]
  dsimp only [bind, Except.bind]
  split
  · exact absurd (hends _ rfl) (Nat.lt_irrefl 7)
  · rfl

theorem parses_choice {condition : Derivation (.operand (some .disjunction))}
    {thenBranch elseBranch : Derivation .conditional} (ih : condition.Parses)
    (ihThen : thenBranch.Parses) (ihElse : elseBranch.Parses) :
    (choice condition thenBranch elseBranch).Parses := by
  intro fuel words rest hfuel hwords hends
  obtain ⟨before, behind, rfl, hbefore, hbehind⟩ := exists_of_lexemes_eq_append hwords
  obtain ⟨start, stop, behind, rfl, hbranches⟩ := exists_of_lexemes_eq_cons hbehind
  obtain ⟨middle, behind, rfl, hmiddle, hcolon⟩ := exists_of_lexemes_eq_append hbranches
  obtain ⟨colonStart, colonStop, after, rfl, hafter⟩ := exists_of_lexemes_eq_cons hcolon
  simp only [List.length_append, List.length_cons] at hfuel
  obtain ⟨steps, rfl⟩ : ∃ steps, fuel = steps + 1 := ⟨fuel - 1, by omega⟩
  have helse := ihElse steps after rest (by omega) hafter hends
  have hthen := ihThen steps middle (⟨.colon, colonStart, colonStop⟩ :: (after ++ rest)) (by omega)
    hmiddle (ends_cons (show 7 < Lexeme.looseness .colon by decide))
  have hcondition := ih.operand steps before
    (⟨.question, start, stop⟩ :: (middle ++ ⟨.colon, colonStart, colonStop⟩ :: (after ++ rest)))
    (by simp only [operandLooseness, Level.looseness]; omega) hbefore
    (ends_cons (show 6 < Lexeme.looseness .question by decide))
  simp only [List.append_assoc, List.cons_append, parseConditional, hcondition, bind, Except.bind,
    hthen, expect_cons, helse]
  rfl

theorem parses {phrase : Phrase} (d : Derivation phrase) : d.Parses := by
  induction d with
  | literal word value means => exact parses_literal word value means
  | group inner ih => exact parses_group ih
  | path first segments => exact parses_path first segments
  | bareCall name function means => exact parses_bareCall name function means
  | call name function means arguments ih => exact parses_call ih
  | lastArgument argument ih => exact parses_lastArgument ih
  | nextArgument argument more ih ihMore => exact parses_nextArgument ih ihMore
  | unsigned operand ih => exact parses_unsigned ih
  | signed word op means operand ih => exact parses_signed ih
  | single level operand ih => exact parses_single ih
  | chain level left word op means right ihLeft ihRight => exact parses_chain ihLeft ihRight
  | plain operand ih => exact parses_plain ih
  | choice condition thenBranch elseBranch ih ihThen ihElse => exact parses_choice ih ihThen ihElse

end Derivation

end ReactiveMarkup.Expression
