import ReactiveMarkup.Binding.Compile
import ReactiveMarkup.Proofs.Binding.Meaning
import ReactiveMarkup.Proofs.Expression.Reading
import ReactiveMarkup.Proofs.Number.Integers
import ReactiveMarkup.Proofs.Pattern.Bounds

/-!
# Bindings in a text

Compiling cuts a text into bindings and the literal text between them, whatever the patterns are.
Nothing is lost: what was cut, in a row and as it was written, is the text again. And nothing is
added: the value of the compiled text is made of the same row, in which each binding stands for the
display text of its own value.

The search for bindings is one without a bound, and is stated so here. It comes to an end because a
binding is never empty, so the text behind it is shorter; hence the bound that compiling is given, a
binding for each character, is never reached.
-/

namespace ReactiveMarkup

/-! ## Integers -/

/-- A text reads as an integer when it is one in 64 bits, but for the blanks around it. -/
theorem ValueKind.read_integer_iff {text : String} {n : Int} :
    ValueKind.integer.read text = .number (.int n) ↔
      Decimal.Spells (Text.trimChars text.toList) n ∧
        -0x8000000000000000 ≤ n ∧ n ≤ 0x7fffffffffffffff := by
  rw [← Decimal.readInt_eq_some_iff, ValueKind.read]
  split <;> simp [*]

theorem ValueKind.read_integer_null {text : String}
    (h : ∀ n, ValueKind.integer.read text ≠ .number (.int n)) :
    ValueKind.integer.read text = .null := by
  rw [ValueKind.read] at h ⊢
  split at h
  · exact absurd rfl (h _)
  · rfl

namespace Binding

variable {patterns : BindingPatterns} {kind : ValueKind} {text : List Char}

/-! ## The next binding -/

theorem next?_find {found : Match} {isObject : Bool}
    (h : next? patterns text = some (found, isObject)) :
    (if isObject then patterns.object else patterns.code).find text = some found ∧
      found.isEmpty = false := by
  have hfilter : ∀ {pattern : Pattern},
      (pattern.find text).filter (!·.isEmpty) = some found →
        pattern.find text = some found ∧ found.isEmpty = false := by
    intro pattern hfound
    simpa [Option.filter_eq_some_iff] using hfound
  rw [next?] at h
  split at h
  · next o c hobject hcode =>
      split at h
      · cases h
        exact hfilter hcode
      · cases h
        exact hfilter hobject
  · next o hobject _ =>
      cases h
      exact hfilter hobject
  · next c _ hcode =>
      cases h
      exact hfilter hcode
  · cases h

/-- A binding lies in the text and is not empty. -/
theorem next?_bounds {found : Match} {isObject : Bool}
    (h : next? patterns text = some (found, isObject)) :
    found.start < found.stop ∧ found.stop ≤ text.length := by
  obtain ⟨hfind, hsome⟩ := next?_find h
  obtain ⟨hle, hstop⟩ := Pattern.bounds_find hfind
  have hne : found.start ≠ found.stop := by simpa [Match.isEmpty] using hsome
  exact ⟨Nat.lt_of_le_of_ne hle hne, hstop⟩

/-! ## Cuts -/

/-- What a text is cut into. -/
inductive Cut where
  | literal (text : String)
  | binding (isObject : Bool) (raw body : String)

namespace Cut

/-- What was cut, as it was written. -/
def written : Cut → String
  | .literal text => text
  | .binding _ raw _ => raw

/-- The token of what was cut. -/
def token : Cut → Except Error Token
  | .literal text => .ok (.constant (.string text))
  | .binding isObject raw body => Binding.binding isObject raw body

/-- What is shown for what was cut: itself, or the display text of the value of a binding. -/
def shown (find : String → Option Source) : Cut → String
  | .literal text => text
  | .binding isObject raw body =>
    match Binding.binding isObject raw body with
    | .ok token => token.text find
    | .error _ => ""

/-- The literal text for some characters; there is none for no characters. -/
def literals (text : List Char) : List Cut :=
  if text.isEmpty then [] else [.literal (String.ofList text)]

end Cut

/-- What was cut in a row, with every binding replaced by what is shown for it. -/
def splice (find : String → Option Source) (cuts : List Cut) : String :=
  String.join (cuts.map (Cut.shown find))

/-- The cuts of a text: the text in front of the next binding, the binding, and the cuts of what is
behind it. -/
inductive Cuts (patterns : BindingPatterns) : List Char → List Cut → Prop
  | rest {text : List Char} (none : next? patterns text = none) :
      Cuts patterns text (Cut.literals text)
  | binding {text : List Char} {found : Match} {isObject : Bool} {cuts : List Cut}
      (next : next? patterns text = some (found, isObject))
      (later : Cuts patterns (text.drop found.stop) cuts) :
      Cuts patterns text (Cut.literals (text.take found.start) ++
        .binding isObject (String.ofList ((text.drop found.start).take (found.stop - found.start)))
          (String.ofList ((found.group? text 1).getD [])) :: cuts)

namespace Cuts

/-- Every text can be cut to the end. -/
theorem exists_cuts (patterns : BindingPatterns) (text : List Char) :
    ∃ cuts, Cuts patterns text cuts := by
  induction hlength : text.length using Nat.strongRecOn generalizing text with
  | ind length ih =>
      cases hnext : next? patterns text with
      | none => exact ⟨_, .rest hnext⟩
      | some next =>
          obtain ⟨hsome, hin⟩ := next?_bounds hnext
          have hshorter : (text.drop next.1.stop).length < length := by
            rw [List.length_drop]
            omega
          obtain ⟨cuts, hcuts⟩ := ih _ hshorter _ rfl
          exact ⟨_, .binding hnext hcuts⟩

theorem unique {cuts other : List Cut} (h : Cuts patterns text cuts) (h' : Cuts patterns text other) :
    other = cuts := by
  induction h generalizing other with
  | rest none =>
      cases h' with
      | rest => rfl
      | binding next =>
          rw [none] at next
          cases next
  | binding next later ih =>
      cases h' with
      | rest none =>
          rw [none] at next
          cases next
      | binding next' later' =>
          rw [next] at next'
          cases next'
          rw [ih later']

theorem join_literals (text : List Char) :
    String.join ((Cut.literals text).map Cut.written) = String.ofList text := by
  cases text with
  | nil => rfl
  | cons c rest => rw [Cut.literals]; exact String.join_cons.trans String.append_empty

/-- What was cut is the text. -/
theorem join_written {cuts : List Cut} (h : Cuts patterns text cuts) :
    String.join (cuts.map Cut.written) = String.ofList text := by
  induction h with
  | rest none => exact join_literals _
  | @binding text found isObject cuts next later ih =>
      obtain ⟨hsome, hin⟩ := next?_bounds next
      have hsplit : text = text.take found.start ++
          ((text.drop found.start).take (found.stop - found.start) ++ text.drop found.stop) := by
        have hdrop : text.drop found.stop =
            (text.drop found.start).drop (found.stop - found.start) := by
          rw [List.drop_drop, Nat.add_sub_cancel' (Nat.le_of_lt hsome)]
        rw [hdrop, List.take_append_drop, List.take_append_drop]
      conv_rhs => rw [hsplit]
      rw [List.map_append, List.map_cons, String.join_append, String.join_cons, join_literals, ih,
        String.ofList_append, String.ofList_append]
      rfl

theorem mapM_literals (text : List Char) :
    (Cut.literals text).mapM Cut.token = .ok (literal text) := by
  cases text <;> rfl

/-- The parts of a text are the tokens of its cuts; a binding for each character is bound enough. -/
theorem parts_eq {cuts : List Cut} (h : Cuts patterns text cuts) {fuel : Nat}
    (hfuel : text.length ≤ fuel) : parts patterns fuel text = cuts.mapM Cut.token := by
  induction h generalizing fuel with
  | @rest text none =>
      cases fuel with
      | zero => rw [parts, mapM_literals]
      | succ fuel =>
          rw [parts, none, mapM_literals]
  | @binding text found isObject cuts next later ih =>
      obtain ⟨hsome, hin⟩ := next?_bounds next
      cases fuel with
      | zero => omega
      | succ fuel =>
          have hshorter : (text.drop found.stop).length ≤ fuel := by
            rw [List.length_drop]
            omega
          rw [parts, next, List.mapM_append, mapM_literals, List.mapM_cons]
          simp only [ih hshorter, Cut.token]
          -- Both stop at the first binding that cannot be read.
          cases Binding.binding isObject _ _ with
          | error error => rfl
          | ok token => cases cuts.mapM Cut.token <;> rfl

/-- A text is compiled from the tokens of its cuts. -/
theorem compileAs_eq {text : String} {cuts : List Cut} (h : Cuts patterns text.toList cuts) :
    compileAs kind patterns text = (cuts.mapM Cut.token).map (assemble kind) := by
  rw [compileAs, h.parts_eq (Nat.le_refl _)]

end Cuts

end Binding

/-! ## Values -/

namespace Token

variable {find : String → Option Source}

mutual

/-- A token of text as it was written. -/
def written : Token → String
  | .constant value => value.display
  | .object raw _ => raw
  | .code raw _ => raw
  | .array parts _ => writtenAll parts

/-- Tokens of text in a row as they were written. -/
def writtenAll : List Token → String
  | [] => ""
  | part :: rest => written part ++ writtenAll rest

end

theorem writtenAll_eq (parts : List Token) : writtenAll parts = String.join (parts.map written) := by
  induction parts with
  | nil => rfl
  | cons part rest ih => rw [writtenAll, ih, List.map_cons, String.join_cons]

theorem askText_eq (parts : List Token) :
    (askText parts).run find = String.join (parts.map (·.text find)) := by
  induction parts with
  | nil => rfl
  | cons part rest ih =>
      rw [askText, Query.run_bind, Query.run_map, ih, List.map_cons, String.join_cons]
      rfl

/-- Whether a token that is a constant is literal text. -/
def Plain (token : Token) : Prop := ∀ value, token = .constant value → ∃ text, value = .string text

end Token

namespace Binding

variable {patterns : BindingPatterns} {kind : ValueKind} {find : String → Option Source}

theorem binding_ok {isObject : Bool} {raw body : String} {token : Token}
    (h : binding isObject raw body = .ok token) :
    token.written = raw ∧ token.Plain := by
  rw [binding] at h
  split at h
  · cases halternatives : Alternative.parseAll body with
    | error error =>
        rw [halternatives] at h
        cases h
    | ok alternatives =>
        rw [halternatives] at h
        cases h
        refine ⟨rfl, ?_⟩
        rintro value ⟨⟩
  · cases hexpr : Expression.parse (Text.trim body) with
    | error error =>
        rw [hexpr] at h
        cases h
    | ok expr =>
        rw [hexpr] at h
        cases h
        refine ⟨rfl, ?_⟩
        rintro value ⟨⟩

/-- A part says what was cut, shows what is shown for it, and is a constant for literal text only. -/
theorem Cut.token_ok (find : String → Option Source) {cut : Cut} {part : Token}
    (h : cut.token = .ok part) :
    part.written = cut.written ∧ part.text find = cut.shown find ∧ part.Plain := by
  cases cut with
  | literal text =>
      cases h
      refine ⟨by rw [Token.written, Value.display]; rfl, ?_, ?_⟩
      · rw [Token.text, Token.value, Token.ask, Query.run, Value.display]
        rfl
      · rintro value ⟨⟩
        exact ⟨text, rfl⟩
  | binding isObject raw body =>
      rw [token] at h
      obtain ⟨hwritten, hplain⟩ := binding_ok h
      exact ⟨hwritten, by rw [shown, h], hplain⟩

theorem Cut.tokens_ok (find : String → Option Source) {cuts : List Cut} {tokens : List Token}
    (h : cuts.mapM Cut.token = .ok tokens) :
    tokens.map Token.written = cuts.map Cut.written ∧
      tokens.map (·.text find) = cuts.map (Cut.shown find) ∧ ∀ part ∈ tokens, part.Plain := by
  induction cuts generalizing tokens with
  | nil =>
      cases h
      simp
  | cons cut rest ih =>
      rw [List.mapM_cons] at h
      obtain ⟨part, hpart, h⟩ := Expression.exists_of_bind_eq_ok h
      obtain ⟨parts, hparts, h⟩ := Expression.exists_of_bind_eq_ok h
      cases h
      obtain ⟨hwritten, hshown, hplain⟩ := Cut.token_ok find hpart
      obtain ⟨hrest, hrestShown, hrestPlain⟩ := ih hparts
      simp [hwritten, hshown, hplain, hrest, hrestShown]
      exact hrestPlain

theorem assemble_single (kind : ValueKind) {part : Token} (h : part.Plain) :
    (∃ text, part = .constant (.string text) ∧
      assemble kind [part] = .constant (kind.read text)) ∨
    part.isConstant = false ∧
      assemble kind [part] = if kind = .text then part else .array [part] kind := by
  cases part with
  | constant value =>
      obtain ⟨text, rfl⟩ := h value rfl
      exact .inl ⟨text, rfl, rfl⟩
  | object raw alternatives => exact .inr ⟨rfl, rfl⟩
  | code raw expr => exact .inr ⟨rfl, rfl⟩
  | array parts inner => exact .inr ⟨rfl, rfl⟩

theorem assemble_many (kind : ValueKind) (first second : Token) (rest : List Token) :
    assemble kind (first :: second :: rest) = .array (first :: second :: rest) kind := by
  cases first <;> rfl

theorem value_array (parts : List Token) :
    (Token.array parts kind).value find = kind.read (String.join (parts.map (·.text find))) := by
  rw [Token.value, Token.ask, Query.run_map, Token.askText_eq]

/-- The value of parts put together is read from what they show in a row. A single binding that
stays text keeps its value, and so its text. -/
theorem assemble_value {parts : List Token} (h : ∀ part ∈ parts, part.Plain) :
    (assemble kind parts).value find = kind.read (String.join (parts.map (·.text find))) ∨
      kind = .text ∧ (assemble kind parts).text find = String.join (parts.map (·.text find)) := by
  match parts with
  | [] => exact .inl rfl
  | [part] =>
      have hjoin : String.join ([part].map (·.text find)) = part.text find := by
        rw [List.map_singleton, String.join_cons, String.join_nil, String.append_empty]
      rw [hjoin]
      rcases assemble_single kind (h part List.mem_cons_self) with
        ⟨text, rfl, hassemble⟩ | ⟨-, hassemble⟩
      · rw [hassemble]
        exact .inl rfl
      · rw [hassemble]
        split
        · next hkind => exact .inr ⟨hkind, rfl⟩
        · rw [value_array, hjoin]
          exact .inl rfl
  | first :: second :: rest =>
      rw [assemble_many]
      exact .inl (value_array _)

/-- Parts put together as text are written as the parts in a row. -/
theorem assemble_written {parts : List Token} (h : ∀ part ∈ parts, part.Plain) :
    (assemble .text parts).written = String.join (parts.map Token.written) := by
  match parts with
  | [] =>
      rw [assemble, ValueKind.read, Token.written, Value.display]
      rfl
  | [part] =>
      rw [List.map_singleton, String.join_cons, String.join_nil, String.append_empty]
      rcases assemble_single .text (h part List.mem_cons_self) with
        ⟨text, rfl, hassemble⟩ | ⟨-, hassemble⟩
      · rw [hassemble]
        rfl
      · rw [hassemble, if_pos rfl]
  | first :: second :: rest =>
      rw [assemble_many, Token.written, Token.writtenAll_eq]

namespace Cuts

variable {text : String} {cuts : List Cut} {token : Token}

/-- A text that compiles is put together from the tokens of its cuts, which say the text again. -/
theorem parts_of_ok (h : Cuts patterns text.toList cuts)
    (hok : compileAs kind patterns text = .ok token) :
    ∃ parts, cuts.mapM Cut.token = .ok parts ∧ token = assemble kind parts ∧
      String.join (parts.map Token.written) = text := by
  rw [h.compileAs_eq] at hok
  cases hparts : cuts.mapM Cut.token with
  | error error =>
      rw [hparts] at hok
      cases hok
  | ok parts =>
      rw [hparts] at hok
      cases hok
      refine ⟨parts, rfl, rfl, ?_⟩
      rw [(Cut.tokens_ok (fun _ => none) hparts).1, h.join_written, String.ofList_toList]

/-- A text that stays text is compiled to what is written as that text. -/
theorem written_of_ok (h : Cuts patterns text.toList cuts)
    (hok : compileAs .text patterns text = .ok token) : token.written = text := by
  obtain ⟨parts, hparts, rfl, hwritten⟩ := h.parts_of_ok hok
  rw [assemble_written (Cut.tokens_ok (fun _ => none) hparts).2.2, hwritten]

theorem value_of_ok (h : Cuts patterns text.toList cuts)
    (hok : compileAs kind patterns text = .ok token) :
    token.value find = kind.read (splice find cuts) ∨
      kind = .text ∧ token.text find = splice find cuts := by
  obtain ⟨parts, hparts, rfl, -⟩ := h.parts_of_ok hok
  obtain ⟨-, hshown, hplain⟩ := Cut.tokens_ok find hparts
  rw [splice, ← hshown]
  exact assemble_value hplain

/-- What a compiled text shows is the text with every binding replaced by what it shows. -/
theorem text_of_ok (h : Cuts patterns text.toList cuts)
    (hok : compileAs .text patterns text = .ok token) :
    token.text find = splice find cuts := by
  rcases h.value_of_ok hok with hread | ⟨-, hshown⟩
  · rw [Token.text, hread, ValueKind.read, Value.display]
  · exact hshown

/-- A text compiled as an integer is read when its bindings are replaced. -/
theorem integer_of_ok (h : Cuts patterns text.toList cuts)
    (hok : compileAs .integer patterns text = .ok token) :
    token.value find = ValueKind.integer.read (splice find cuts) := by
  rcases h.value_of_ok hok with hread | ⟨hkind, -⟩
  · exact hread
  · cases hkind

end Cuts

/-- A text without a binding is cut into itself. -/
theorem compileAs_of_not_isBinding {text : String} (h : patterns.isBinding text = false) :
    compileAs kind patterns text = .ok (.constant (kind.read text)) := by
  rw [BindingPatterns.isBinding, Pattern.occurs, Pattern.occurs, Bool.or_eq_false_iff,
    Option.isSome_eq_false_iff, Option.isSome_eq_false_iff, Option.isNone_iff_eq_none,
    Option.isNone_iff_eq_none] at h
  have hnext : next? patterns text.toList = none := by
    rw [next?, h.1, h.2]
    rfl
  rw [(Cuts.rest hnext).compileAs_eq, Cuts.mapM_literals, literal]
  cases hlist : text.toList with
  | nil =>
      rw [String.toList_eq_nil_iff.mp hlist]
      rfl
  | cons c rest =>
      change Except.ok (Token.constant (kind.read (String.ofList (c :: rest)))) = _
      rw [← hlist, String.ofList_toList]

end Binding

end ReactiveMarkup
