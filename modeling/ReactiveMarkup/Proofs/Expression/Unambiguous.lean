import ReactiveMarkup.Proofs.Expression.Completeness

/-!
# The grammar is unambiguous

Two derivations of one phrase with one yield are equal. That two phrases at the front of one text
stop at one place, if each is ended by what comes behind it, is had from completeness: the parser
is one function, and it stops at both places.

For a chain that is not enough, since its left part is followed by an operator of the same level.
Of two chains at the front of one text, one begins with the other; so if they are of one length,
they are equal.
-/

namespace ReactiveMarkup.Expression

/-- A text of some lexemes, wherever they stand. -/
def place (words : List Lexeme) : List Placed := words.map fun word => ⟨word, 0, 0⟩

@[simp] theorem lexemes_place (words : List Lexeme) : lexemes (place words) = words := by
  simp [lexemes, place, Function.comp_def]

/-- Two yields a function of the parser reads at the front of one text are one. -/
theorem ReadAs.eq_of_append_eq
    {parse : Nat → List Placed → Except Misfit (Expr × List Placed)} {depth looseness : Nat}
    {yield yield' rest rest' : List Lexeme} {tree tree' : Expr}
    (h : ReadAs parse depth looseness yield tree) (h' : ReadAs parse depth looseness yield' tree')
    (heq : yield ++ rest = yield' ++ rest') (hends : Ends looseness rest)
    (hends' : Ends looseness rest') : yield = yield' ∧ rest = rest' := by
  have hread := h (16 * (yield.length + yield'.length) + depth) (place yield) (place rest)
    (by rw [place, List.length_map]; omega) (lexemes_place yield) (by rwa [lexemes_place])
  have hread' := h' (16 * (yield.length + yield'.length) + depth) (place yield') (place rest')
    (by rw [place, List.length_map]; omega) (lexemes_place yield') (by rwa [lexemes_place])
  have hplace : place yield ++ place rest = place yield' ++ place rest' := by
    simp only [place, ← List.map_append, heq]
  rw [hplace, hread'] at hread
  have hrest : rest' = rest := by
    simpa using congrArg lexemes (Prod.mk.inj (Except.ok.inj hread)).2
  subst hrest
  exact ⟨List.append_cancel_right heq, rfl⟩

/-- A yield does not go on to another yield of what the same function reads. -/
theorem ReadAs.ne_append_cons
    {parse : Nat → List Placed → Except Misfit (Expr × List Placed)} {depth looseness : Nat}
    {yield yield' : List Lexeme} {tree tree' : Expr}
    (h : ReadAs parse depth looseness yield tree) (h' : ReadAs parse depth looseness yield' tree')
    {word : Lexeme} {rest : List Lexeme} (hword : looseness < word.looseness) :
    yield ≠ yield' ++ word :: rest := by
  intro heq
  obtain ⟨-, hrest⟩ := h.eq_of_append_eq h' ((List.append_nil yield).trans heq) (ends_nil _)
    (ends_cons hword)
  cases hrest

theorem segments_eq {segments segments' : List Segment}
    (h : segments.flatMap Segment.yield = segments'.flatMap Segment.yield) :
    segments = segments' := by
  induction segments generalizing segments' with
  | nil =>
    cases segments' with
    | nil => rfl
    | cons segment' more' => cases segment' <;> cases h
  | cons segment more ih =>
    cases segments' with
    | nil => cases segment <;> cases h
    | cons segment' more' =>
      cases segment <;> cases segment' <;>
        simp only [Segment.yield, List.flatMap_cons, List.cons_append, List.nil_append,
          List.cons.injEq, Lexeme.name.injEq, Lexeme.doubleQuoted.injEq, Lexeme.singleQuoted.injEq,
          reduceCtorEq, false_and, and_false, true_and] at h
      all_goals
        obtain ⟨rfl, hmore⟩ := h
        rw [ih hmore]

/-- Behind the first name of a path stands no opening parenthesis. -/
theorem segments_ne_leftParen (segments : List Segment) (rest : List Lexeme) :
    segments.flatMap Segment.yield ≠ .leftParen :: rest := by
  intro h
  cases segments with
  | nil => cases h
  | cons segment more => cases segment <;> cases h

namespace Derivation

/-- A call with arguments is not one without. -/
theorem arguments_ne_nil (arguments : Derivation .arguments) :
    [.rightParen] ≠ arguments.yield ++ [.rightParen] := fun h =>
  arguments.yield_ne_nil (List.append_cancel_right h).symm

/-- An operand with a sign is not one without. -/
theorem unsigned_ne_signed {operand : Derivation .primary} {word : Lexeme} {op : UnaryOp}
    {rest : List Lexeme} (means : word.sign? = some op) : operand.yield ≠ word :: rest := by
  intro h
  obtain ⟨first, more, hyield, hfirst⟩ := operand.yield_opens_primary
  rw [h] at hyield
  cases hyield
  rw [means] at hfirst
  cases hfirst

/-- One chain begins with another. -/
inductive Leads {level : Level} : (d d' : Derivation (.operand (some level))) → Prop where
  | refl (d : Derivation (.operand (some level))) : Leads d d
  | chain {d left : Derivation (.operand (some level))} (h : Leads d left) (word : Lexeme)
    (op : BinaryOp) (means : level.operator? word = some op)
    (right : Derivation (.operand level.tighter)) : Leads d (.chain level left word op means right)

namespace Leads

variable {level : Level} {d d' : Derivation (.operand (some level))}

/-- A chain is as long as a beginning of it only if it is the beginning. -/
theorem eq_or_lt (h : Leads d d') : d = d' ∨ d.yield.length < d'.yield.length := by
  induction h with
  | refl => exact .inl rfl
  | chain h word op means right ih =>
    rename_i left
    have hle : d.yield.length ≤ left.yield.length := by
      rcases ih with rfl | ih
      · exact Nat.le_refl _
      · omega
    refine .inr ?_
    rw [yield, List.length_append, List.length_cons]
    omega

/-- Behind a beginning that is not the whole chain comes one more operator with its operand. -/
theorem next (h : Leads d d') : d = d' ∨ ∃ word op means right more,
    Leads (.chain level d word op means right) d' ∧
      d'.yield = d.yield ++ word :: (right.yield ++ more) ∧
      Ends (operandLooseness level.tighter) more := by
  induction h with
  | refl => exact .inl rfl
  | chain h word op means right ih =>
    right
    rcases ih with rfl | ⟨word', op', means', right', more, hleads, hyield, hends⟩
    · exact ⟨word, op, means, right, [], .refl _, by simp [yield], ends_nil _⟩
    · refine ⟨word', op', means', right', more ++ word :: right.yield, hleads.chain .., ?_, ?_⟩
      · simp [yield, hyield]
      · exact hends.append (ends_cons (Level.tighter_lt_operator means))

end Leads

/-- What the induction says of each phrase: no other derivation has its yield; of chains, that one
at the front of the same text begins with it or is a beginning of it. -/
def Determined : {phrase : Phrase} → Derivation phrase → Prop
  | .operand (some level), d => ∀ (d' : Derivation (.operand (some level)))
    (rest rest' : List Lexeme), d.yield ++ rest = d'.yield ++ rest' →
      Ends (operandLooseness level.tighter) rest → Ends (operandLooseness level.tighter) rest' →
        Leads d d' ∨ Leads d' d
  | .operand none, d => ∀ d' : Derivation (.operand none), d.yield = d'.yield → d = d'
  | .conditional, d => ∀ d' : Derivation .conditional, d.yield = d'.yield → d = d'
  | .primary, d => ∀ d' : Derivation .primary, d.yield = d'.yield → d = d'
  | .arguments, d => ∀ d' : Derivation .arguments, d.yield = d'.yield → d = d'

theorem Determined.eq {phrase : Phrase} {d : Derivation phrase} (h : d.Determined)
    {d' : Derivation phrase} (hyield : d.yield = d'.yield) : d = d' := by
  cases phrase with
  | conditional => exact h d' hyield
  | primary => exact h d' hyield
  | arguments => exact h d' hyield
  | operand level =>
    cases level with
    | none => exact h d' hyield
    | some level =>
      rcases h d' [] [] (by rw [hyield]) (ends_nil _) (ends_nil _) with hleads | hleads
      · rcases hleads.eq_or_lt with heq | hlt
        · exact heq
        · rw [hyield] at hlt; omega
      · rcases hleads.eq_or_lt with heq | hlt
        · exact heq.symm
        · rw [hyield] at hlt; omega

theorem determined_single {level : Level} {operand : Derivation (.operand level.tighter)}
    (ih : operand.Determined) : (single level operand).Determined := by
  intro d' rest rest' heq hends hends'
  left
  induction hlinks : d'.links generalizing d' rest' with
  | zero =>
    cases d' with
    | single _ operand' =>
      obtain ⟨hyield, -⟩ := operand.parses.operand.eq_of_append_eq operand'.parses.operand heq hends
        hends'
      rw [ih.eq hyield]
      exact .refl _
    | chain => cases hlinks
  | succ links ihLinks =>
    cases d' with
    | single => cases hlinks
    | chain _ left word op means right =>
      have hfront : operand.yield ++ rest = left.yield ++ word :: (right.yield ++ rest') := by
        simpa [yield] using heq
      have hleft := ihLinks left _ hfront (ends_cons (Level.tighter_lt_operator means))
        (Nat.succ.inj hlinks)
      exact hleft.chain word op means right

theorem determined_chain {level : Level} {left : Derivation (.operand (some level))} {word : Lexeme}
    {op : BinaryOp} {means : level.operator? word = some op}
    {right : Derivation (.operand level.tighter)} (ihLeft : left.Determined)
    (ihRight : right.Determined) : (chain level left word op means right).Determined := by
  intro d' rest rest' heq hends hends'
  rw [yield, List.append_assoc, List.cons_append] at heq
  have hcompared := ihLeft d' _ rest' heq (ends_cons (Level.tighter_lt_operator means)) hends'
  rcases hcompared with hleads | hleads
  · rcases hleads.next with rfl | ⟨word', op', means', right', more, hnext, hyield, hmore⟩
    · exact .inr ((Leads.refl _).chain ..)
    · rw [hyield, List.append_assoc, List.append_cancel_left_eq, List.cons_append,
        List.append_assoc, List.cons.injEq] at heq
      obtain ⟨rfl, heq⟩ := heq
      obtain rfl : op = op' := Option.some.inj (means.symm.trans means')
      obtain ⟨hright, -⟩ := right.parses.operand.eq_of_append_eq right'.parses.operand heq hends
        (hmore.append hends')
      rw [ihRight.eq hright]
      exact .inl hnext
  · exact .inr (hleads.chain ..)

/-! Primaries are told apart by their first word, and calls and paths by the second. -/

theorem determined_literal {word : Lexeme} {value : Value} {means : word.literal? = some value} :
    (literal word value means).Determined := by
  intro d' h
  cases d' with
  | literal word' value' means' =>
    cases h
    cases means.symm.trans means'
    rfl
  | _ => cases List.head_eq_of_cons_eq h; cases means

theorem determined_group {inner : Derivation .conditional} (ih : inner.Determined) :
    (group inner).Determined := by
  intro d' h
  cases d' with
  | group inner' => rw [ih.eq (List.append_cancel_right (List.cons.inj h).2)]
  | literal word' value' means' => cases List.head_eq_of_cons_eq h; cases means'
  | _ => cases List.head_eq_of_cons_eq h

theorem determined_path (first : String) (segments : List Segment) :
    (path first segments).Determined := by
  intro d' h
  cases d' with
  | path first' segments' =>
    obtain ⟨hfirst, hsegments⟩ := List.cons.inj h
    cases hfirst
    rw [segments_eq hsegments]
  | literal word' value' means' => cases List.head_eq_of_cons_eq h; cases means'
  | group => cases List.head_eq_of_cons_eq h
  | bareCall | call => exact absurd (List.cons.inj h).2 (segments_ne_leftParen segments _)

theorem determined_bareCall {name : String} {function : Function}
    {means : Unicode.lower name = function.name} : (bareCall name function means).Determined := by
  intro d' h
  cases d' with
  | bareCall name' function' means' =>
    cases h
    cases Function.name_injective (means.symm.trans means')
    rfl
  | literal word' value' means' => cases List.head_eq_of_cons_eq h; cases means'
  | group => cases List.head_eq_of_cons_eq h
  | path first segments => exact absurd (List.cons.inj h).2.symm (segments_ne_leftParen segments _)
  | call name' function' means' arguments' =>
    exact absurd (List.cons.inj (List.cons.inj h).2).2 arguments'.arguments_ne_nil

theorem determined_call {name : String} {function : Function}
    {means : Unicode.lower name = function.name} {arguments : Derivation .arguments}
    (ih : arguments.Determined) : (call name function means arguments).Determined := by
  intro d' h
  cases d' with
  | call name' function' means' arguments' =>
    obtain ⟨hname, hmore⟩ := List.cons.inj h
    cases hname
    cases Function.name_injective (means.symm.trans means')
    rw [ih.eq (List.append_cancel_right (List.cons.inj hmore).2)]
  | literal word' value' means' => cases List.head_eq_of_cons_eq h; cases means'
  | group => cases List.head_eq_of_cons_eq h
  | path first segments => exact absurd (List.cons.inj h).2.symm (segments_ne_leftParen segments _)
  | bareCall name' function' means' =>
    exact absurd (List.cons.inj (List.cons.inj h).2).2.symm arguments.arguments_ne_nil

/-! Arguments and conditionals end where the parser stops. -/

theorem determined_lastArgument {argument : Derivation .conditional} (ih : argument.Determined) :
    (lastArgument argument).Determined := by
  intro d' h
  cases d' with
  | lastArgument argument' => rw [ih.eq h]
  | nextArgument argument' more' =>
    exact absurd h (argument.parses.ne_append_cons argument'.parses (by decide))

theorem determined_nextArgument {argument : Derivation .conditional} {more : Derivation .arguments}
    (ih : argument.Determined) (ihMore : more.Determined) :
    (nextArgument argument more).Determined := by
  intro d' h
  cases d' with
  | lastArgument argument' =>
    exact absurd h.symm (argument'.parses.ne_append_cons argument.parses (by decide))
  | nextArgument argument' more' =>
    obtain ⟨hargument, hmore⟩ := argument.parses.eq_of_append_eq argument'.parses h
      (ends_cons (by decide)) (ends_cons (by decide))
    rw [ih.eq hargument, ihMore.eq (List.cons.inj hmore).2]

theorem determined_unsigned {operand : Derivation .primary} (ih : operand.Determined) :
    (unsigned operand).Determined := by
  intro d' h
  cases d' with
  | unsigned operand' => rw [ih.eq h]
  | signed word op means operand' => exact absurd h (unsigned_ne_signed means)

theorem determined_signed {word : Lexeme} {op : UnaryOp} {means : word.sign? = some op}
    {operand : Derivation (.operand none)} (ih : operand.Determined) :
    (signed word op means operand).Determined := by
  intro d' h
  cases d' with
  | unsigned operand' => exact absurd h.symm (unsigned_ne_signed means)
  | signed word' op' means' operand' =>
    obtain ⟨rfl, hoperand⟩ := List.cons.inj h
    cases means.symm.trans means'
    rw [ih.eq hoperand]

theorem determined_plain {operand : Derivation (.operand (some .disjunction))}
    (ih : operand.Determined) : (plain operand).Determined := by
  intro d' h
  cases d' with
  | plain operand' => rw [ih.eq h]
  | choice condition thenBranch elseBranch =>
    exact absurd h (operand.parses.operand.ne_append_cons condition.parses.operand (by decide))

theorem determined_choice {condition : Derivation (.operand (some .disjunction))}
    {thenBranch elseBranch : Derivation .conditional} (ih : condition.Determined)
    (ihThen : thenBranch.Determined) (ihElse : elseBranch.Determined) :
    (choice condition thenBranch elseBranch).Determined := by
  intro d' h
  cases d' with
  | plain operand' =>
    exact absurd h.symm
      (operand'.parses.operand.ne_append_cons condition.parses.operand (by decide))
  | choice condition' thenBranch' elseBranch' =>
    obtain ⟨hcondition, hbranches⟩ := condition.parses.operand.eq_of_append_eq
      condition'.parses.operand h (ends_cons (by decide)) (ends_cons (by decide))
    obtain ⟨hthen, helse⟩ := thenBranch.parses.eq_of_append_eq thenBranch'.parses
      (List.cons.inj hbranches).2 (ends_cons (by decide)) (ends_cons (by decide))
    rw [ih.eq hcondition, ihThen.eq hthen, ihElse.eq (List.cons.inj helse).2]

/-- A derivation is determined by its parts. -/
theorem determined {phrase : Phrase} (d : Derivation phrase) : d.Determined := by
  induction d with
  | literal => exact determined_literal
  | group _ ih => exact determined_group ih
  | path first segments => exact determined_path first segments
  | bareCall => exact determined_bareCall
  | call _ _ _ _ ih => exact determined_call ih
  | lastArgument _ ih => exact determined_lastArgument ih
  | nextArgument _ _ ih ihMore => exact determined_nextArgument ih ihMore
  | unsigned _ ih => exact determined_unsigned ih
  | signed _ _ _ _ ih => exact determined_signed ih
  | single _ _ ih => exact determined_single ih
  | chain _ _ _ _ _ _ ihLeft ihRight => exact determined_chain ihLeft ihRight
  | plain _ ih => exact determined_plain ih
  | choice _ _ _ ih ihThen ihElse => exact determined_choice ih ihThen ihElse

end Derivation

end ReactiveMarkup.Expression
