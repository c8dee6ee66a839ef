import ReactiveMarkup.Proofs.Expression.Grammar

/-!
# What the parser reads is derivable

Soundness: whatever the parser returns is the tree of a derivation, and the lexemes it has passed
over are the yield of that derivation. Nothing here depends on how much fuel there is, so the
induction is on the fuel alone, with one lemma for each function of the parser.
-/

namespace ReactiveMarkup.Expression

/-- A sequence succeeds through a result of its first step. -/
theorem exists_of_bind_eq_ok {ε α β : Type} {first : Except ε α} {next : α → Except ε β} {b : β}
    (h : first >>= next = .ok b) : ∃ a, first = .ok a ∧ next a = .ok b := by
  cases first with
  | error e => cases h
  | ok a => exact ⟨a, rfl, h⟩

/-- A lexeme that is passed over was there. -/
theorem lexemes_of_expect {lexeme : Lexeme} {shown : String} {input rest : List Placed}
    (h : expect lexeme shown input = .ok rest) : lexemes input = lexeme :: lexemes rest := by
  unfold expect at h
  split at h
  · cases h
  · split at h
    · next hlexeme => cases h; simp [hlexeme]
    · cases h

theorem parseSegments_sound {fuel : Nat} {input rest : List Placed} {keys : List String}
    (h : parseSegments fuel input = .ok (keys, rest)) :
    ∃ segments : List Segment, segments.map Segment.key = keys ∧
      lexemes input = segments.flatMap Segment.yield ++ lexemes rest := by
  induction fuel generalizing input keys with
  | zero => cases h
  | succ fuel ih =>
    unfold parseSegments at h
    split at h
    · cases h
    · cases ‹fuel + 1 = Nat.succ _›
      split at h
      · obtain ⟨⟨keys, rest⟩, hmore, h⟩ := exists_of_bind_eq_ok h
        cases h
        obtain ⟨segments, rfl, hinput⟩ := ih hmore
        exact ⟨.dotted _ :: segments, rfl, by simpa [Segment.yield] using hinput⟩
      · cases h
    · cases ‹fuel + 1 = Nat.succ _›
      split at h
      · obtain ⟨closed, hclose, h⟩ := exists_of_bind_eq_ok h
        obtain ⟨⟨keys, rest⟩, hmore, h⟩ := exists_of_bind_eq_ok h
        cases h
        obtain ⟨segments, rfl, hinput⟩ := ih hmore
        exact ⟨.doubleQuoted _ :: segments, rfl, by
          simpa [Segment.yield, hinput] using lexemes_of_expect hclose⟩
      · obtain ⟨closed, hclose, h⟩ := exists_of_bind_eq_ok h
        obtain ⟨⟨keys, rest⟩, hmore, h⟩ := exists_of_bind_eq_ok h
        cases h
        obtain ⟨segments, rfl, hinput⟩ := ih hmore
        exact ⟨.singleQuoted _ :: segments, rfl, by
          simpa [Segment.yield, hinput] using lexemes_of_expect hclose⟩
      · cases h
    · cases h
      exact ⟨[], rfl, by simp⟩

/-- A result that some derivation accounts for: it is the tree, and the lexemes up to the rest are
the yield. -/
def Derives (phrase : Phrase) (input : List Placed) (tree : phrase.Tree) (rest : List Placed) :
    Prop :=
  ∃ d : Derivation phrase, d.tree = tree ∧ lexemes input = d.yield ++ lexemes rest

/-- What each function of the parser returns with some fuel is derived. A chain goes on from the
derivation of its left operand; the closing parenthesis behind arguments is passed over. -/
structure Sound (fuel : Nat) : Prop where
  level : ∀ {level input e rest}, parseLevel fuel level input = .ok (e, rest) →
    Derives (.operand level) input e rest
  chain : ∀ {level input e rest} (left : Derivation (.operand (some level))),
    parseChain fuel level left.tree input = .ok (e, rest) →
    ∃ d : Derivation (.operand (some level)), d.tree = e ∧
      left.yield ++ lexemes input = d.yield ++ lexemes rest
  conditional : ∀ {input e rest}, parseConditional fuel input = .ok (e, rest) →
    Derives .conditional input e rest
  unary : ∀ {input e rest}, parseUnary fuel input = .ok (e, rest) →
    Derives (.operand none) input e rest
  primary : ∀ {input e rest}, parsePrimary fuel input = .ok (e, rest) →
    Derives .primary input e rest
  arguments : ∀ {input es rest}, parseArguments fuel input = .ok (es, rest) →
    ∃ d : Derivation .arguments, d.tree = es ∧
      lexemes input = d.yield ++ .rightParen :: lexemes rest

theorem sound_zero : Sound 0 where
  level h := by cases h
  chain _ h := by cases h
  conditional h := by cases h
  unary h := by cases h
  primary h := by cases h
  arguments h := by cases h

namespace Sound

variable {fuel : Nat} (ih : Sound fuel)

include ih

theorem level_succ {level : Option Level} {input rest : List Placed} {e : Expr}
    (h : parseLevel (fuel + 1) level input = .ok (e, rest)) :
    Derives (.operand level) input e rest := by
  unfold parseLevel at h
  cases level with
  | none => exact ih.unary h
  | some level =>
    obtain ⟨⟨left, behind⟩, hleft, h⟩ := exists_of_bind_eq_ok h
    obtain ⟨operand, rfl, hinput⟩ := ih.level hleft
    obtain ⟨d, rfl, hd⟩ := ih.chain (.single level operand) h
    exact ⟨d, rfl, hinput.trans hd⟩

theorem chain_succ {level : Level} {input rest : List Placed} {e : Expr}
    (left : Derivation (.operand (some level)))
    (h : parseChain (fuel + 1) level left.tree input = .ok (e, rest)) :
    ∃ d : Derivation (.operand (some level)), d.tree = e ∧
      left.yield ++ lexemes input = d.yield ++ lexemes rest := by
  rw [parseChain.eq_def] at h
  split at h
  · cases h
  · cases h
    exact ⟨left, rfl, rfl⟩
  · cases ‹fuel + 1 = Nat.succ _›
    split at h
    · cases h
      exact ⟨left, rfl, rfl⟩
    · next op hop =>
      obtain ⟨⟨right, behind⟩, hright, h⟩ := exists_of_bind_eq_ok h
      obtain ⟨operand, rfl, hinput⟩ := ih.level hright
      obtain ⟨d, rfl, hd⟩ := ih.chain (.chain _ left _ op hop operand) h
      refine ⟨d, rfl, ?_⟩
      rw [← hd, Derivation.yield, List.append_assoc, List.cons_append, ← hinput]
      rfl

theorem conditional_succ {input rest : List Placed} {e : Expr}
    (h : parseConditional (fuel + 1) input = .ok (e, rest)) : Derives .conditional input e rest := by
  unfold parseConditional at h
  obtain ⟨⟨condition, behind⟩, hcondition, h⟩ := exists_of_bind_eq_ok h
  obtain ⟨operand, rfl, hinput⟩ := ih.level hcondition
  dsimp only at h
  split at h
  · obtain ⟨⟨thenBranch, behind⟩, hthen, h⟩ := exists_of_bind_eq_ok h
    obtain ⟨closed, hcolon, h⟩ := exists_of_bind_eq_ok h
    obtain ⟨⟨elseBranch, behind⟩, helse, h⟩ := exists_of_bind_eq_ok h
    cases h
    obtain ⟨thenBranch, rfl, hthenInput⟩ := ih.conditional hthen
    obtain ⟨elseBranch, rfl, helseInput⟩ := ih.conditional helse
    refine ⟨.choice operand thenBranch elseBranch, rfl, ?_⟩
    rw [hinput, lexemes_cons, hthenInput, lexemes_of_expect hcolon, helseInput]
    simp [Derivation.yield]
  · cases h
    exact ⟨.plain operand, rfl, hinput⟩

theorem unary_succ {input rest : List Placed} {e : Expr}
    (h : parseUnary (fuel + 1) input = .ok (e, rest)) : Derives (.operand none) input e rest := by
  unfold parseUnary at h
  split at h
  · cases h
  · cases ‹fuel + 1 = Nat.succ _›
    obtain ⟨⟨operand, behind⟩, hoperand, h⟩ := exists_of_bind_eq_ok h
    cases h
    obtain ⟨operand, rfl, hinput⟩ := ih.unary hoperand
    exact ⟨.signed .bang .not rfl operand, rfl, congrArg (List.cons _) hinput⟩
  · cases ‹fuel + 1 = Nat.succ _›
    obtain ⟨⟨operand, behind⟩, hoperand, h⟩ := exists_of_bind_eq_ok h
    cases h
    obtain ⟨operand, rfl, hinput⟩ := ih.unary hoperand
    exact ⟨.signed .minus .negate rfl operand, rfl, congrArg (List.cons _) hinput⟩
  · cases ‹fuel + 1 = Nat.succ _›
    obtain ⟨operand, rfl, hinput⟩ := ih.primary h
    exact ⟨.unsigned operand, rfl, hinput⟩

theorem primary_succ {input rest : List Placed} {e : Expr}
    (h : parsePrimary (fuel + 1) input = .ok (e, rest)) : Derives .primary input e rest := by
  unfold parsePrimary at h
  split at h
  · cases h
  · cases h
  · cases ‹fuel + 1 = Nat.succ _›
    split at h
    case h_7 hword =>
      obtain ⟨⟨inner, behind⟩, hinner, h⟩ := exists_of_bind_eq_ok h
      obtain ⟨closed, hclose, h⟩ := exists_of_bind_eq_ok h
      cases h
      obtain ⟨inner, rfl, hinput⟩ := ih.conditional hinner
      refine ⟨.group inner, rfl, ?_⟩
      rw [lexemes_cons, hword, hinput, lexemes_of_expect hclose]
      simp [Derivation.yield]
    case h_8 name hword =>
      split at h
      · split at h
        · cases h
        · next function hfunction =>
          have hmeans := Function.ofName?_eq_some_iff.mp hfunction
          split at h
          · cases h
            refine ⟨.bareCall name function hmeans, rfl, ?_⟩
            rw [lexemes_cons, hword]
            rfl
          · obtain ⟨⟨arguments, behind⟩, harguments, h⟩ := exists_of_bind_eq_ok h
            cases h
            obtain ⟨arguments, rfl, hinput⟩ := ih.arguments harguments
            refine ⟨.call name function hmeans arguments, rfl, ?_⟩
            rw [lexemes_cons, hword, lexemes_cons, hinput]
            simp [Derivation.yield]
      · obtain ⟨⟨keys, behind⟩, hkeys, h⟩ := exists_of_bind_eq_ok h
        cases h
        obtain ⟨segments, rfl, hinput⟩ := parseSegments_sound hkeys
        refine ⟨.path name segments, rfl, ?_⟩
        rw [lexemes_cons, hword, hinput]
        rfl
    case h_9 => cases h
    all_goals
      next hword =>
      cases h
      exact ⟨.literal _ _ (congrArg Lexeme.literal? hword), rfl, rfl⟩

theorem arguments_succ {input rest : List Placed} {es : List Expr}
    (h : parseArguments (fuel + 1) input = .ok (es, rest)) :
    ∃ d : Derivation .arguments, d.tree = es ∧
      lexemes input = d.yield ++ .rightParen :: lexemes rest := by
  unfold parseArguments at h
  obtain ⟨⟨argument, behind⟩, hargument, h⟩ := exists_of_bind_eq_ok h
  obtain ⟨argument, rfl, hinput⟩ := ih.conditional hargument
  dsimp only at h
  split at h
  · obtain ⟨⟨more, behind⟩, hmore, h⟩ := exists_of_bind_eq_ok h
    cases h
    obtain ⟨more, rfl, hmoreInput⟩ := ih.arguments hmore
    refine ⟨.nextArgument argument more, rfl, ?_⟩
    rw [hinput, lexemes_cons, hmoreInput]
    simp [Derivation.yield]
  · obtain ⟨closed, hclose, h⟩ := exists_of_bind_eq_ok h
    cases h
    refine ⟨.lastArgument argument, rfl, ?_⟩
    rw [hinput, lexemes_of_expect hclose]
    rfl

end Sound

theorem sound (fuel : Nat) : Sound fuel := by
  induction fuel with
  | zero => exact sound_zero
  | succ fuel ih =>
    exact ⟨ih.level_succ, ih.chain_succ, ih.conditional_succ, ih.unary_succ, ih.primary_succ,
      ih.arguments_succ⟩

end ReactiveMarkup.Expression
