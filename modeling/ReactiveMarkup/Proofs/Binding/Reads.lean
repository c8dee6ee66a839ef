import ReactiveMarkup.Binding.Token

/-!
# What a token reads

A component registers for the sources its token is known to read, and is not rendered again when any
other source is set. That is enough, because nothing else is ever looked up: over two states that
answer these lookups equally, a token has the same value. What is looked up after what may depend on
the answers, so the fact is stated of queries, whatever they go on with.
-/

namespace ReactiveMarkup

namespace Query

variable {α β : Type}

/-- Whether a query looks up nothing but these ids, whatever is found. -/
inductive Reads (ids : List String) : Query α → Prop
  | done (result : α) : Reads ids (.done result)
  | lookup {id : String} {mayWait : Bool} {next : Option Source → Query α} (here : id ∈ ids)
      (then' : ∀ found, Reads ids (next found)) : Reads ids (.lookup id mayWait next)

variable {ids more : List String} {query : Query α}

theorem Reads.mono (h : query.Reads ids) (hsub : ids ⊆ more) : query.Reads more := by
  induction h with
  | done result => exact .done result
  | lookup here _ ih => exact .lookup (hsub here) ih

theorem Reads.map (h : query.Reads ids) (f : α → β) : (query.map f).Reads ids := by
  induction h with
  | done result => exact .done (f result)
  | lookup here _ ih => exact .lookup here ih

theorem Reads.bind {f : α → Query β} (h : query.Reads ids) (hf : ∀ result, (f result).Reads ids) :
    (query.bind f).Reads ids := by
  induction h with
  | done result => exact hf result
  | lookup here _ ih => exact .lookup here ih

/-- What is not looked up does not matter. -/
theorem Reads.run_eq (h : query.Reads ids) {find other : String → Option Source}
    (hsame : ∀ id ∈ ids, find id = other id) : query.run find = query.run other := by
  induction h with
  | done result => rfl
  | @lookup id _ next here _ ih =>
      rw [run, run, hsame id here]
      exact ih (other id)

end Query

theorem mem_insertId {id other : String} {ids : List String} :
    other ∈ insertId id ids ↔ other = id ∨ other ∈ ids := by
  induction ids with
  | nil => simp [insertId]
  | cons first rest ih =>
      rw [insertId]
      split
      · next hsame => simp [hsame]
      · split
        · simp
        · simp only [List.mem_cons, ih]
          grind

@[simp] theorem mem_sortIds {other : String} {ids : List String} : other ∈ sortIds ids ↔ other ∈ ids := by
  have hfold : ∀ sorted : List String,
      other ∈ ids.foldl (fun sorted id => insertId id sorted) sorted ↔ other ∈ sorted ∨ other ∈ ids := by
    induction ids with
    | nil => simp
    | cons first rest ih =>
        intro sorted
        rw [List.foldl_cons, ih, mem_insertId]
        grind
  simp [sortIds, hfold]

namespace Token

theorem reads_askAlternatives (alternatives : List Alternative) :
    (askAlternatives alternatives).Reads (alternatives.filterMap Alternative.sourceId?) := by
  induction alternatives with
  | nil => exact .done _
  | cons first rest ih =>
      cases first with
      | literal text =>
          rw [askAlternatives]
          split
          · exact ih
          · exact .done _
      | path path =>
          have hrest := ih.mono (List.subset_cons_self path.sourceId _)
          refine .lookup List.mem_cons_self fun found => ?_
          cases found with
          | none => exact hrest
          | some source =>
              dsimp only
              split
              · exact hrest
              · exact .done _

theorem reads_askSources (expr : Expr) (ids : List String) (captured : Snapshots) :
    (askSources expr ids captured).Reads ids := by
  induction ids generalizing captured with
  | nil => exact .done _
  | cons id rest ih =>
      refine .lookup List.mem_cons_self fun found => ?_
      cases found with
      | none => exact (ih captured).mono (List.subset_cons_self id rest)
      | some source => exact (ih (source :: captured)).mono (List.subset_cons_self id rest)

mutual

theorem reads_ask : ∀ token : Token, token.ask.Reads token.readIds
  | .constant value => by
      rw [ask]
      exact .done value
  | .object _ alternatives => by
      rw [ask, readIds]
      exact reads_askAlternatives alternatives
  | .code _ expr => by
      rw [ask, readIds]
      exact (reads_askSources expr _ []).mono fun id hid => mem_sortIds.mp hid
  | .array parts kind => by
      rw [ask, readIds]
      exact (reads_askText parts).map kind.read

theorem reads_askText : ∀ parts : List Token, (askText parts).Reads (readIdsOfAll parts)
  | [] => by
      rw [askText]
      exact .done ""
  | part :: rest => by
      rw [askText, readIdsOfAll]
      exact ((reads_ask part).mono (List.subset_append_left _ _)).bind fun value =>
        ((reads_askText rest).mono (List.subset_append_right _ _)).map (value.display ++ ·)

end

/-- A token has the same value over sources that agree on its dependencies. -/
theorem value_congr (token : Token) {find other : String → Option Source}
    (hsame : ∀ id ∈ token.dependencies, find id = other id) : token.value find = token.value other := by
  rw [value, value, (reads_ask token).run_eq fun id hid => hsame id (mem_sortIds.mpr hid)]

/-- The text of a token is the same over sources that agree on its dependencies. -/
theorem text_congr (token : Token) {find other : String → Option Source}
    (hsame : ∀ id ∈ token.dependencies, find id = other id) : token.text find = token.text other := by
  rw [text, text, token.value_congr hsame]

end Token

end ReactiveMarkup
