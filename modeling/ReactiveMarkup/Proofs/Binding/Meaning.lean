import ReactiveMarkup.Proofs.Binding.Reads
import ReactiveMarkup.Proofs.Unicode.Lower

/-!
# What a token means

Evaluating a token is a matter of lookups: some sources are captured under their ids first, and the
expression then runs over what was captured. What comes of it is put here without any lookups, over
a state in which all sources are at hand at any time. The two agree. So nothing that an expression
names is missed when its sources are captured, in whichever branch, argument or operand it stands,
and although the id of a path is put together once for capturing and once more for running.
-/

namespace ReactiveMarkup

variable {find other : String → Option Source} {ids : List String} {id : String}

/-! ## Expressions -/

/-- What a path stands for with all sources at hand. -/
def Expression.resolveAmong (find : String → Option Source) (path : List String) : Option Value :=
  match Expr.sourceId? path with
  | none => none
  | some id => (find id).map fun source =>
    match path.drop 2 with
    | [] => .bool true
    | column => ColumnPath.ofSource column source

theorem Snapshots.resolve_eq (captured : Snapshots) :
    captured.resolve = Expression.resolveAmong captured.get? := by
  funext path
  rw [resolve, Expression.resolveAmong]
  cases Expr.sourceId? path with
  | none => rfl
  | some id =>
      cases hcaptured : captured.get? id with
      | none => simp only [hcaptured, Option.map_none]
      | some source =>
          simp only [hcaptured, Option.map_some]
          cases path.drop 2 <;> rfl

namespace Expression

mutual

/-- An expression runs the same over sources that agree on what it reads. -/
theorem evaluate_congr : ∀ expr : Expr, (∀ id ∈ expr.readIds, find id = other id) →
    evaluate (resolveAmong find) expr = evaluate (resolveAmong other) expr
  | .literal _, _ => by rw [evaluate, evaluate]
  | .path segments, hsame => by
      rw [evaluate, evaluate, resolveAmong, resolveAmong]
      rw [Expr.readIds] at hsame
      cases hid : Expr.sourceId? segments with
      | none => rfl
      | some id =>
          rw [hid] at hsame
          simp only [hsame id List.mem_cons_self]
  | .unary op operand, hsame => by
      rw [evaluate, evaluate, evaluate_congr operand hsame]
  | .binary op left right, hsame => by
      rw [Expr.readIds] at hsame
      obtain ⟨hleft, hright⟩ := List.forall_mem_append.mp hsame
      rw [evaluate, evaluate, evaluate_congr left hleft, evaluate_congr right hright]
  | .conditional condition thenBranch elseBranch, hsame => by
      rw [Expr.readIds] at hsame
      obtain ⟨hfirst, helse⟩ := List.forall_mem_append.mp hsame
      obtain ⟨hcondition, hthen⟩ := List.forall_mem_append.mp hfirst
      rw [evaluate, evaluate, evaluate_congr condition hcondition,
        evaluate_congr thenBranch hthen, evaluate_congr elseBranch helse]
  | .call function arguments, hsame => by
      rw [evaluate, evaluate, evaluateAll_congr arguments hsame]

theorem evaluateAll_congr : ∀ arguments : List Expr,
    (∀ id ∈ Expr.argumentReadIds arguments, find id = other id) →
      evaluateAll (resolveAmong find) arguments = evaluateAll (resolveAmong other) arguments
  | [], _ => by rw [evaluateAll, evaluateAll]
  | argument :: rest, hsame => by
      rw [Expr.argumentReadIds] at hsame
      obtain ⟨hfirst, hrest⟩ := List.forall_mem_append.mp hsame
      rw [evaluateAll, evaluateAll, evaluate_congr argument hfirst, evaluateAll_congr rest hrest]

end

end Expression

namespace Expr

theorem lower_sourceId? {path : List String} (h : sourceId? path = some id) :
    Unicode.lower id = id := by
  unfold sourceId? at h
  split at h
  · rw [← Option.some.inj h, Unicode.lower_lower]
  · cases h

mutual

/-- The ids an expression reads are in lower case, however its paths are written. -/
theorem lower_of_mem_readIds : ∀ expr : Expr, ∀ id ∈ expr.readIds, Unicode.lower id = id
  | .literal _, _, hid => by
      rw [readIds] at hid
      cases hid
  | .path segments, _, hid => by
      rw [readIds] at hid
      exact lower_sourceId? (Option.mem_toList.mp hid)
  | .unary _ operand, id, hid => lower_of_mem_readIds operand id hid
  | .binary _ left right, id, hid => by
      rw [readIds] at hid
      rcases List.mem_append.mp hid with hleft | hright
      · exact lower_of_mem_readIds left id hleft
      · exact lower_of_mem_readIds right id hright
  | .conditional condition thenBranch elseBranch, id, hid => by
      rw [readIds, List.mem_append, List.mem_append] at hid
      rcases hid with (hcondition | hthen) | helse
      · exact lower_of_mem_readIds condition id hcondition
      · exact lower_of_mem_readIds thenBranch id hthen
      · exact lower_of_mem_readIds elseBranch id helse
  | .call _ arguments, id, hid => lower_of_mem_argumentReadIds arguments id hid

theorem lower_of_mem_argumentReadIds : ∀ arguments : List Expr,
    ∀ id ∈ argumentReadIds arguments, Unicode.lower id = id
  | [], _, hid => by
      rw [argumentReadIds] at hid
      cases hid
  | argument :: rest, id, hid => by
      rw [argumentReadIds] at hid
      rcases List.mem_append.mp hid with hfirst | hrest
      · exact lower_of_mem_readIds argument id hfirst
      · exact lower_of_mem_argumentReadIds rest id hrest

end

end Expr

/-! ## Capturing -/

/-- Sources that are found under their own ids are captured under them. -/
theorem Snapshots.get?_filterMap (hnamed : ∀ id ∈ ids, ∀ source, find id = some source →
    source.id = id) : get? (ids.filterMap find) id = if id ∈ ids then find id else none := by
  induction ids with
  | nil => rfl
  | cons first rest ih =>
      have hrest := ih fun id hid => hnamed id (List.mem_cons_of_mem _ hid)
      rw [get?] at hrest ⊢
      cases hfirst : find first with
      | none =>
          rw [List.filterMap_cons_none hfirst, hrest]
          by_cases hid : id = first
          · rw [hid, hfirst, ite_self, if_pos List.mem_cons_self]
          · simp [hid]
      | some source =>
          rw [List.filterMap_cons_some hfirst, List.find?_cons,
            hnamed first List.mem_cons_self source hfirst, hrest]
          by_cases hid : id = first
          · simp [hid, hfirst]
          · have hne : (first == id) = false := beq_false_of_ne (Ne.symm hid)
            simp [hid, hne]

namespace Query

variable {α β : Type}

theorem run_map (query : Query α) (f : α → β) : (query.map f).run find = f (query.run find) := by
  induction query with
  | done result => rfl
  | lookup id mayWait next ih => exact ih (find id)

theorem run_bind (query : Query α) (f : α → Query β) :
    (query.bind f).run find = (f (query.run find)).run find := by
  induction query with
  | done result => rfl
  | lookup id mayWait next ih => exact ih (find id)

end Query

namespace Token

theorem run_askSources (expr : Expr) (ids : List String) (captured : Snapshots) :
    (askSources expr ids captured).run find =
      Expression.evaluate (Snapshots.resolve ((ids.filterMap find).reverse ++ captured)) expr := by
  induction ids generalizing captured with
  | nil => rfl
  | cons id rest ih =>
      rw [askSources, Query.run]
      cases hfound : find id with
      | none =>
          rw [List.filterMap_cons_none hfound]
          exact ih captured
      | some source =>
          rw [List.filterMap_cons_some hfound, List.reverse_cons, List.append_assoc]
          exact ih (source :: captured)

/-- Running over what was captured is running with all sources at hand. -/
theorem run_ask_code (hfind : ∀ id source, find id = some source → source.id = Unicode.lower id)
    (expr : Expr) : (askSources expr (sortIds expr.readIds) []).run find =
      Expression.evaluate (Expression.resolveAmong find) expr := by
  have hnamed : ∀ id ∈ (sortIds expr.readIds).reverse, ∀ source, find id = some source →
      source.id = id := by
    intro id hid source hsource
    rw [List.mem_reverse, mem_sortIds] at hid
    rw [hfind id source hsource, Expr.lower_of_mem_readIds expr id hid]
  -- What was captured last stands first, and an id leads to the first one that has it.
  rw [run_askSources, List.append_nil, ← List.filterMap_reverse, Snapshots.resolve_eq]
  refine Expression.evaluate_congr expr fun id hid => ?_
  rw [Snapshots.get?_filterMap hnamed, if_pos (List.mem_reverse.mpr (mem_sortIds.mpr hid))]

end Token

/-! ## Tokens -/

/-- What an alternative stands for, unless its source is missing. -/
def Alternative.value? (find : String → Option Source) : Alternative → Option Value
  | .literal text => some (.string text)
  | .path target => (find target.sourceId).map target.ofSource

namespace Token

mutual

/-- The value of a token with all sources at hand: the first alternative that is not empty, what the
expression gives, or the joined texts of the parts. -/
def meaning (find : String → Option Source) : Token → Value
  | .constant value => value
  | .object _ alternatives =>
    ((alternatives.filterMap (Alternative.value? find)).find? (!·.isEmpty)).getD .null
  | .code _ expr => Expression.evaluate (Expression.resolveAmong find) expr
  | .array parts kind => kind.read (joined find parts)

/-- The joined display texts of some tokens. -/
def joined (find : String → Option Source) : List Token → String
  | [] => ""
  | part :: rest => (meaning find part).display ++ joined find rest

end

theorem run_askAlternatives (alternatives : List Alternative) :
    (askAlternatives alternatives).run find =
      ((alternatives.filterMap (Alternative.value? find)).find? (!·.isEmpty)).getD .null := by
  induction alternatives with
  | nil => rfl
  | cons first rest ih =>
      cases first with
      | literal text =>
          have hthere : Alternative.value? find (.literal text) = some (.string text) := rfl
          rw [askAlternatives, List.filterMap_cons_some hthere, List.find?_cons, Value.isEmpty]
          by_cases hempty : text = ""
          · rw [if_pos hempty, ih, hempty]
            rfl
          · rw [if_neg hempty, beq_false_of_ne hempty]
            rfl
      | path path =>
          rw [askAlternatives, Query.run]
          cases hfound : find path.sourceId with
          | none =>
              have hmissing : Alternative.value? find (.path path) = none := by
                rw [Alternative.value?, hfound, Option.map_none]
              rw [List.filterMap_cons_none hmissing]
              exact ih
          | some source =>
              have hthere : Alternative.value? find (.path path) = some (path.ofSource source) := by
                rw [Alternative.value?, hfound, Option.map_some]
              rw [List.filterMap_cons_some hthere, List.find?_cons]
              dsimp only
              cases (path.ofSource source).isEmpty with
              | true => exact ih
              | false => rfl

mutual

theorem value_eq_meaning
    (hfind : ∀ id source, find id = some source → source.id = Unicode.lower id) :
    ∀ token : Token, token.value find = token.meaning find
  | .constant _ => by
      rw [value, ask, meaning]
      rfl
  | .object _ alternatives => by
      rw [value, ask, meaning]
      exact run_askAlternatives alternatives
  | .code _ expr => by
      rw [value, ask, meaning]
      exact run_ask_code hfind expr
  | .array parts kind => by
      rw [value, ask, meaning, Query.run_map, run_askText hfind parts]

theorem run_askText
    (hfind : ∀ id source, find id = some source → source.id = Unicode.lower id) :
    ∀ parts : List Token, (askText parts).run find = joined find parts
  | [] => by
      rw [askText, joined]
      rfl
  | part :: rest => by
      rw [askText, joined, Query.run_bind, Query.run_map, run_askText hfind rest,
        ← value_eq_meaning hfind part, value]

end

end Token

end ReactiveMarkup
