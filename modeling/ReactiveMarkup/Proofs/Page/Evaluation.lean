import ReactiveMarkup.Proofs.Binding.Splice
import ReactiveMarkup.Proofs.Page.Convergence
import ReactiveMarkup.Proofs.Scope.Twins

/-!
# Evaluations and what they depend on

A page evaluates a token in a scope, and the value is what the token means over the sources that are
seen there. It depends on the page and the scope through the dependencies of the token only. These
are known without evaluating anything, so a component that registers for them is told of everything
that may change its value.

A text with bindings is evaluated to the same text with every binding replaced by what it shows, or to
the integer which that spells.
-/

namespace ReactiveMarkup

namespace Page

/-- Whatever is found on the way, evaluating a token looks up nothing but its dependencies. Two
scopes of any two pages in which these are the same give the same value at once, which is what the
token means with all sources at hand, and the evaluation leaves the pages as they are. -/
theorem evaluation_depends (token : Token) :
    token.ask.Reads token.dependencies ∧
    ∀ (page other : Page) (scope place : ScopeId),
      (∀ id ∈ token.dependencies, page.scopes.find? scope id = other.scopes.find? place id) →
      page.startEvaluation scope false token =
        (page, .finished (.ok (.value (token.meaning (page.scopes.find? scope))))) ∧
      other.startEvaluation place false token =
        (other, .finished (.ok (.value (token.meaning (page.scopes.find? scope))))) := by
  have hreads : token.ask.Reads token.dependencies :=
    token.reads_ask.mono fun id hid => mem_sortIds.mpr hid
  refine ⟨hreads, fun page other scope place hsame => ?_⟩
  have hvalue : token.value (page.scopes.find? scope) = token.value (other.scopes.find? place) :=
    hreads.run_eq hsame
  have hmeaning : token.value (page.scopes.find? scope) = token.meaning (page.scopes.find? scope) :=
    token.value_eq_meaning fun _ _ => Scopes.find?_id
  rw [startEvaluation_once, startEvaluation_once, ← hvalue, hmeaning]
  exact ⟨rfl, rfl⟩

/-! ## Setting a source on a page -/

theorem scopes_attendTo (page : Page) (delivery : Delivery) :
    (page.attendTo delivery).scopes = page.scopes := by
  cases delivery with
  | handled handler source => rfl
  | triggered component source =>
      rw [attendTo]
      split
      · change (if page.queue.closed then _ else _ : Page).scopes = page.scopes
        split <;> rfl
      · rfl

theorem scopes_attendTo_all (page : Page) (deliveries : List Delivery) :
    (deliveries.foldl attendTo page).scopes = page.scopes := by
  induction deliveries generalizing page with
  | nil => rfl
  | cons delivery rest ih => rw [List.foldl_cons, ih, scopes_attendTo]

/-- The scopes come to be those in which the source was set, with all calls attended to. -/
theorem scopes_setSource (page : Page) (scope : ScopeId) (source : Source) :
    (page.setSource scope source).1.scopes =
      { (page.scopes.set scope source).1 with deliveries := [] } :=
  scopes_attendTo_all _ _

theorem find?_setSource (page : Page) (scope : ScopeId) (source : Source) (other : ScopeId)
    (id : String) : (page.setSource scope source).1.scopes.find? other id =
      (page.scopes.set scope source).1.find? other id := by
  rw [scopes_setSource]
  generalize (page.scopes.set scope source).1 = scopes
  refine Scopes.find?_of_scopes ?_ other id
  rfl

theorem history_setSource {page : Page} {direct : Scopes.Direct} {scope : ScopeId}
    {source : Source} (h : Scopes.History page.scopes direct)
    (hlt : scope < page.scopes.scopes.size) (hid : Unicode.lower source.id = source.id) :
    Scopes.History (page.setSource scope source).1.scopes
        (direct.give scope (page.scopes.set scope source).2) ∧
      scope < (page.setSource scope source).1.scopes.scopes.size := by
  rw [scopes_setSource]
  have hthere : scope < (page.scopes.set scope source).1.scopes.size := by
    rw [(h.settled.set_size hlt hid).1]
    exact hlt
  exact ⟨(h.set hlt hid).attend, hthere⟩

/-- A text with bindings of both forms. -/
def greeting : String :=
  "[##db.page.title|db.User.name|(nobody)##] \x7b## len(db.USER.name) > 9 ? db.page.x : 'in' ##\x7d"

/-- A user, as a source. -/
def user : Source := .ofValue "db.user" (.object [("name", .string "Ann")])

/-- A source that the text does not read. -/
def noise : Source := .ofValue "ui.noise" (.string "loud")

theorem find?_noise {page : Page} (h : ofOptions {} = .ok page) {id : String}
    (hid : Unicode.lower id ≠ noise.id) :
    ((page.setSource rootScope user).1.setSource rootScope noise).1.scopes.find? rootScope id =
      (page.setSource rootScope user).1.scopes.find? rootScope id := by
  have hopened : Scopes.History page.scopes (fun _ _ => none) ∧
      rootScope < page.scopes.scopes.size := by
    obtain ⟨patterns, -, rfl⟩ := ofOptions_ok h
    exact ⟨.root [], Nat.one_pos⟩
  have hsmall : Unicode.lower user.id = user.id ∧ Unicode.lower noise.id = noise.id := by
    decide +kernel
  have huser := history_setSource hopened.1 hopened.2 hsmall.1
  rw [find?_setSource, huser.1.find?_set_of_ne huser.2 hsmall.2 hid]

/-- The text says the same before and after a source is set that it does not read. -/
theorem greeting_despite_noise : ∃ page token value, ofOptions {} = .ok page ∧
    Binding.compile page.patterns greeting = .ok token ∧
    token.dependencies = ["db.page", "db.user"] ∧
    (let page := (page.setSource rootScope user).1
    page.startEvaluation rootScope false token = (page, .finished (.ok (.value value)))) ∧
    (let page := ((page.setSource rootScope user).1.setSource rootScope noise).1
    page.startEvaluation rootScope false token = (page, .finished (.ok (.value value)))) ∧
    value.display = "Ann in" := by
  -- One evaluation is computed; that the other one gives the same is what is to be shown.
  have hreads : ((ofOptions {}).toOption.any fun page =>
      (Binding.compile page.patterns greeting).toOption.any fun token =>
        token.dependencies == ["db.page", "db.user"] &&
          (token.meaning ((page.setSource rootScope user).1.scopes.find? rootScope)).display ==
            "Ann in") = true := by
    decide +kernel
  cases hpage : ofOptions {} with
  | error error =>
      rw [hpage] at hreads
      cases hreads
  | ok page =>
      rw [hpage] at hreads
      rw [Except.toOption, Option.any_some] at hreads
      obtain ⟨token, htoken, hreads⟩ := (Option.any_eq_true _ _).mp hreads
      obtain ⟨hids, hdisplay⟩ := Bool.and_eq_true_iff.mp hreads
      have hother : ∀ id ∈ token.dependencies, Unicode.lower id ≠ noise.id := by
        rw [eq_of_beq hids]
        decide +kernel
      obtain ⟨hbefore, hafter⟩ := (evaluation_depends token).2 _ _ rootScope rootScope
        fun id hid => (find?_noise hpage (hother id hid)).symm
      have hcompiled : Binding.compile page.patterns greeting = .ok token := by
        cases hcompile : Binding.compile page.patterns greeting with
        | error error =>
            rw [hcompile] at htoken
            cases htoken
        | ok other =>
            rw [hcompile] at htoken
            exact congrArg _ (Option.some.inj htoken)
      exact ⟨page, token, _, rfl, hcompiled, eq_of_beq hids, hbefore, hafter, eq_of_beq hdisplay⟩

/-! ## Texts with bindings -/

/-- A text is cut into bindings and literal text in one way, and what was cut says the text again.
When the text compiles, it does so from the tokens of the cuts, which are written as the text.
Evaluated anywhere without waiting, it shows the cuts in a row, where each binding shows its own
value; as an integer it is the one that this row spells in 64 bits but for the blanks around it, and
null if it spells none. A text without a binding is the constant that is read from it. -/
theorem compiled_text_splices (kind : ValueKind) (patterns : BindingPatterns) (text : String) :
    ∃ cuts, Binding.Cuts patterns text.toList cuts ∧
      (∀ other, Binding.Cuts patterns text.toList other → other = cuts) ∧
      String.join (cuts.map Binding.Cut.written) = text ∧
      (∀ token, Binding.compileAs kind patterns text = .ok token →
        (∃ parts, cuts.mapM Binding.Cut.token = .ok parts ∧ token = Binding.assemble kind parts ∧
          String.join (parts.map Token.written) = text) ∧
        (kind = .text → token.written = text) ∧
        ∀ (page : Page) (scope : ScopeId), ∃ value,
          page.startEvaluation scope false token = (page, .finished (.ok (.value value))) ∧
          (kind = .text → value.display = Binding.splice (page.scopes.find? scope) cuts) ∧
          (kind = .integer →
            (∀ n, value = .number (.int n) ↔
              Decimal.Spells
                (Text.trimChars (Binding.splice (page.scopes.find? scope) cuts).toList) n ∧
                -0x8000000000000000 ≤ n ∧ n ≤ 0x7fffffffffffffff) ∧
            ((∀ n, value ≠ .number (.int n)) → value = .null))) ∧
      (patterns.isBinding text = false →
        Binding.compileAs kind patterns text = .ok (.constant (kind.read text))) := by
  obtain ⟨cuts, hcuts⟩ := Binding.Cuts.exists_cuts patterns text.toList
  refine ⟨cuts, hcuts, fun other hother => hcuts.unique hother, ?_, fun token hok => ?_,
    Binding.compileAs_of_not_isBinding⟩
  · rw [hcuts.join_written, String.ofList_toList]
  · refine ⟨hcuts.parts_of_ok hok, ?_, fun page scope =>
      ⟨_, startEvaluation_once page scope token, ?_, ?_⟩⟩
    · rintro rfl
      exact hcuts.written_of_ok hok
    · rintro rfl
      exact hcuts.text_of_ok hok
    · rintro rfl
      rw [hcuts.integer_of_ok hok]
      exact ⟨fun n => ValueKind.read_integer_iff, ValueKind.read_integer_null⟩

theorem eq_ok_of_toOption {α : Type} {made : Except Error α} {result : α}
    (h : made.toOption = some result) : made = .ok result := by
  cases made with
  | error error => cases h
  | ok other => exact congrArg Except.ok (Option.some.inj h)

/-- A text with blanks around it that spells an integer when the age stands in it. -/
def digitsAndAge : String := " 1[##db.user.age##] "

/-- A user with an age, as a source. -/
def agedUser : Source := .ofValue "db.user" (.object [("age", .number (.int 42))])

theorem digitsAndAge_spliced : ∃ page token, ∃ cuts : List Binding.Cut, ofOptions {} = .ok page ∧
    Binding.compileAs .integer page.patterns digitsAndAge = .ok token ∧
    String.join (cuts.map Binding.Cut.written) = digitsAndAge ∧
    (let page := (page.setSource rootScope agedUser).1
    page.startEvaluation rootScope false token =
      (page, .finished (.ok (.value (.number (.int 142))))) ∧
    Decimal.Spells
      (Text.trimChars (Binding.splice (page.scopes.find? rootScope) cuts).toList) 142) := by
  have hreads : ((ofOptions {}).toOption.any fun page =>
      (Binding.compileAs .integer page.patterns digitsAndAge).toOption.any fun token =>
        (token.value ((page.setSource rootScope agedUser).1.scopes.find? rootScope)).nat? ==
          some 142) = true := by
    decide +kernel
  obtain ⟨page, hpage, hreads⟩ := (Option.any_eq_true _ _).mp hreads
  obtain ⟨token, htoken, hvalue⟩ := (Option.any_eq_true _ _).mp hreads
  have hok := eq_ok_of_toOption htoken
  obtain ⟨cuts, -, -, hwritten, hcompiled, -⟩ :=
    compiled_text_splices .integer page.patterns digitsAndAge
  obtain ⟨value, hevaluated, -, hinteger⟩ :=
    (hcompiled token hok).2.2 (page.setSource rootScope agedUser).1 rootScope
  have hsame : value = .number (.int 142) := by
    rw [startEvaluation_once] at hevaluated
    simp only [Prod.mk.injEq, Stage.finished.injEq, Except.ok.injEq, Answer.value.injEq, true_and]
      at hevaluated
    rw [← hevaluated]
    exact Value.nat?_eq_some_iff.mp (eq_of_beq hvalue)
  refine ⟨page, token, cuts, eq_ok_of_toOption hpage, hok, hwritten, ?_, ?_⟩
  · rw [← hsame]
    exact hevaluated
  · exact (((hinteger rfl).1 142).mp hsame).1

end Page

end ReactiveMarkup
