import ReactiveMarkup.Proofs.Page.Evaluation
import ReactiveMarkup.Proofs.Scope.Sightings

/-!
# What a waiting evaluation captures

An evaluation that may wait looks its sources up one after another. Whenever it comes to one that is
missing and worth waiting for, it stops, and others go on; what it has captured by then it keeps. So its
value need not be the value of the text in any one state: a source that was captured may be set anew while
the evaluation waits for the next one.

What can be said is that everything it captured was there when it was captured, that it was captured in
the order in which the token asks for it, and that the token has the same value in every state in which
all of it is there. Only a source that is set between its capture and the last one can come in between.
-/

namespace ReactiveMarkup

/-- What was found under an id, at some time of a timeline. -/
structure Capture where
  id : String
  found : Option Source
  time : Nat

namespace Query

variable {α : Type} {worth : String → Bool} {query middle last : Query α} {captures more : List Capture}

/-- Captures lead from a query to what is left of it. A source that is worth waiting for is found. -/
inductive Leads (worth : String → Bool) : Query α → List Capture → Query α → Prop
  | refl (query : Query α) : Leads worth query [] query
  | lookup {capture : Capture} {mayWait : Bool} {next : Option Source → Query α}
    {captures : List Capture} {last : Query α}
    (found : capture.found.isSome = true ∨ (mayWait && worth capture.id) = false)
    (rest : Leads worth (next capture.found) captures last) :
    Leads worth (.lookup capture.id mayWait next) (capture :: captures) last

theorem Leads.trans (h : Leads worth query captures middle) (h' : Leads worth middle more last) :
    Leads worth query (captures ++ more) last := by
  induction h with
  | refl query => exact h'
  | lookup found rest ih => exact .lookup found (ih h')

/-- Where everything captured is there, the query goes the same way. -/
theorem Leads.run_eq (h : Leads worth query captures last) {find : String → Option Source}
    (hfind : ∀ capture ∈ captures, find capture.id = capture.found) : query.run find = last.run find := by
  induction h with
  | refl query => rfl
  | lookup found rest ih =>
      obtain ⟨hcapture, hrest⟩ := List.forall_mem_cons.mp hfind
      rw [run, hcapture]
      exact ih hrest

end Query

/-- Whether an evaluation that may wait does so for an id. -/
def Options.awaits (options : Options) (id : String) : Bool := !options.isReserved id

namespace Page

variable {page : Page} {scope : ScopeId}

/-- Where an evaluation that may wait comes to on a page, by some captures: to its value, or to a source
that is missing, for which it waits unless the scope takes no waits any more. -/
inductive Halts (page : Page) (scope : ScopeId) (query : Query Value) (captures : List Capture) :
    Page × Stage → Prop
  | done {value : Value} (leads : query.Leads page.options.awaits captures (.done value)) :
    Halts page scope query captures (page.releaseScope scope, .finished (.ok (.value value)))
  | refused (disposed : page.scopes.isDisposed scope = true) :
    Halts page scope query captures (page.releaseScope scope, .finished (.error .scopeDisposed))
  | waits {id : String} {next : Option Source → Query Value}
    (leads : query.Leads page.options.awaits captures (.lookup id true next))
    (kept : page.scopes.isDisposed scope = false) :
    Halts page scope query captures ({ page with scopes := (page.scopes.wait scope id).1 },
      .waiting false (.evaluate scope page.scopes.promises.size next))

theorem Halts.lookup {capture : Capture} {mayWait : Bool} {next : Option Source → Query Value}
    {captures : List Capture} {result : Page × Stage}
    (hfound : capture.found.isSome = true ∨ (mayWait && page.options.awaits capture.id) = false)
    (h : Halts page scope (next capture.found) captures result) :
    Halts page scope (.lookup capture.id mayWait next) (capture :: captures) result := by
  cases h with
  | done leads => exact .done (.lookup hfound leads)
  | refused disposed => exact .refused disposed
  | waits leads kept => exact .waits (.lookup hfound leads) kept

theorem evaluateQuery_halts (page : Page) (scope : ScopeId) (query : Query Value) (time : Nat) :
    ∃ captures : List Capture, (∀ capture ∈ captures, capture.time = time ∧
      page.scopes.find? scope capture.id = capture.found) ∧
      Halts page scope query captures (page.evaluateQuery scope true query) := by
  induction query with
  | done value => exact ⟨[], fun _ hnone => absurd hnone List.not_mem_nil, .done (.refl _)⟩
  | lookup id mayWait next ih =>
      rw [evaluateQuery]
      cases hfind : page.scopes.find? scope id with
      | some source =>
          obtain ⟨captures, hcaptures, hhalts⟩ := ih (some source)
          exact ⟨⟨id, some source, time⟩ :: captures,
            List.forall_mem_cons.mpr ⟨⟨rfl, hfind⟩, hcaptures⟩,
            @Halts.lookup _ _ ⟨id, some source, time⟩ _ _ _ _ (.inl rfl) hhalts⟩
      | none =>
          dsimp only
          rw [Bool.true_and]
          cases hwaits : mayWait && !page.options.isReserved id with
          | false =>
              obtain ⟨captures, hcaptures, hhalts⟩ := ih none
              exact ⟨⟨id, none, time⟩ :: captures, List.forall_mem_cons.mpr ⟨⟨rfl, hfind⟩, hcaptures⟩,
                @Halts.lookup _ _ ⟨id, none, time⟩ _ _ _ _ (.inr hwaits) hhalts⟩
          | true =>
              obtain ⟨rfl, -⟩ := (Bool.and_eq_true ..).mp hwaits
              refine ⟨[], fun _ hnone => absurd hnone List.not_mem_nil, ?_⟩
              cases hdisposed : page.scopes.isDisposed scope with
              | true =>
                  rw [Scopes.wait_of_disposed hdisposed]
                  exact .refused hdisposed
              | false =>
                  have hhalts := @Halts.waits page scope (.lookup id true next) [] id next (.refl _) hdisposed
                  rw [Scopes.wait_of_kept hdisposed] at hhalts ⊢
                  exact hhalts

end Page

namespace Timeline

open Moment

variable {may : Moment → Deed → Prop} {line : Timeline may} {options : Options} {scope : ScopeId}
  {token : Token} {start since middle now stop : Nat} {activity : Activity} {value : Value}
  {captures more : List Capture}

/-! ## Captures in the order of time -/

/-- Captures were taken one after another between two times, and each was there when it was taken. -/
structure Captures (line : Timeline may) (scope : ScopeId) (since now : Nat) (captures : List Capture) :
    Prop where
  ordered : since ≤ now
  taken : (captures.map Capture.time).Pairwise (· ≤ ·)
  between : ∀ capture ∈ captures, since ≤ capture.time ∧ capture.time ≤ now
  there : ∀ capture ∈ captures, (line.moment capture.time).scopes.find? scope capture.id = capture.found

theorem Captures.nil (hle : since ≤ now) : line.Captures scope since now [] :=
  ⟨hle, .nil, fun _ hnone => absurd hnone List.not_mem_nil, fun _ hnone => absurd hnone List.not_mem_nil⟩

theorem Captures.append (h : line.Captures scope since middle captures)
    (h' : line.Captures scope middle now more) : line.Captures scope since now (captures ++ more) where
  ordered := h.ordered.trans h'.ordered
  taken := by
    rw [List.map_append, List.pairwise_append]
    refine ⟨h.taken, h'.taken, fun early hearly late hlate => ?_⟩
    obtain ⟨capture, hcapture, rfl⟩ := List.mem_map.mp hearly
    obtain ⟨other, hother, rfl⟩ := List.mem_map.mp hlate
    exact (h.between capture hcapture).2.trans (h'.between other hother).1
  between capture hcapture := by
    rcases List.mem_append.mp hcapture with hin | hin
    · exact ⟨(h.between capture hin).1, (h.between capture hin).2.trans h'.ordered⟩
    · exact ⟨h.ordered.trans (h'.between capture hin).1, (h'.between capture hin).2⟩
  there capture hcapture := by
    rcases List.mem_append.mp hcapture with hin | hin
    · exact h.there capture hin
    · exact h'.there capture hin

/-- Captures that were all taken at one time. -/
theorem Captures.of_moment (h : ∀ capture ∈ captures, capture.time = now ∧
    (line.moment now).scopes.find? scope capture.id = capture.found) :
    line.Captures scope now now captures where
  ordered := Nat.le_refl now
  taken := by
    rw [List.pairwise_map]
    refine List.Pairwise.imp_of_mem ?_ (List.pairwise_of_forall fun _ _ => trivial)
    intro early late hearly hlate _
    rw [(h early hearly).1, (h late hlate).1]
  between capture hcapture := by
    rw [(h capture hcapture).1]
    exact ⟨Nat.le_refl now, Nat.le_refl now⟩
  there capture hcapture := by
    rw [(h capture hcapture).1]
    exact (h capture hcapture).2

/-! ## Evaluations on a timeline -/

/-- A page as it is at a time. -/
structure Has (line : Timeline may) (options : Options) (time : Nat) (page : Page) : Prop where
  options : page.options = options
  scopes : page.scopes = (line.moment time).scopes

/-- An evaluation that may wait was begun at some time, and now it waits. -/
inductive Pending (line : Timeline may) (options : Options) (scope : ScopeId) (token : Token)
    (start : Nat) : Nat → Activity → Prop
  | begun {page next : Page} {awake : Bool} {activity : Activity} {now : Nat}
    (before : line.Has options start page)
    (stage : page.startEvaluation scope true token = (next, .waiting awake activity))
    (ordered : start ≤ now) (after : line.Has options now next) :
    Pending line options scope token start now activity
  | polled {earlier time now fuel : Nat} {page next : Page} {awake : Bool} {activity other : Activity}
    (pending : Pending line options scope token start earlier activity) (waited : earlier ≤ time)
    (before : line.Has options time page)
    (stage : page.poll fuel activity = (next, .waiting awake other)) (ordered : time ≤ now)
    (after : line.Has options now next) : Pending line options scope token start now other

/-- An evaluation that may wait was begun at some time, and now it is over and gives a value. -/
inductive Concludes (line : Timeline may) (options : Options) (scope : ScopeId) (token : Token)
    (start : Nat) (value : Value) : Nat → Prop
  | atOnce {page next : Page} (before : line.Has options start page)
    (stage : page.startEvaluation scope true token = (next, .finished (.ok (.value value)))) :
    Concludes line options scope token start value start
  | polled {earlier stop fuel : Nat} {page next : Page} {activity : Activity}
    (pending : Pending line options scope token start earlier activity) (waited : earlier ≤ stop)
    (before : line.Has options stop page)
    (stage : page.poll fuel activity = (next, .finished (.ok (.value value)))) :
    Concludes line options scope token start value stop

/-- What an evaluation that waits has captured, and what it waits for. -/
structure Awaiting (line : Timeline may) (options : Options) (scope : ScopeId) (query : Query Value)
    (start now : Nat) (promise : PromiseId) (next : Option Source → Query Value) : Prop where
  captured : ∃ captures id since state,
    query.Leads options.awaits captures (.lookup id true next) ∧
      line.Captures scope start since captures ∧ since ≤ now ∧
        (line.moment since).scopes.promises.size ≤ promise ∧
          (line.moment now).scopes.promises.get? promise = some { scope, id := Unicode.lower id, state }

/-- What an evaluation has come to. -/
inductive Comes (line : Timeline may) (options : Options) (scope : ScopeId) (query : Query Value)
    (start time : Nat) (next : Page) : Stage → Prop
  | value {value : Value} {captures : List Capture}
    (leads : query.Leads options.awaits captures (.done value))
    (taken : line.Captures scope start time captures) :
    Comes line options scope query start time next (.finished (.ok (.value value)))
  | failed {error : Error} : Comes line options scope query start time next (.finished (.error error))
  | waits {promise : PromiseId} {rest : Option Source → Query Value}
    (awaiting : ∀ now, time ≤ now → line.Has options now next →
      line.Awaiting options scope query start now promise rest) :
    Comes line options scope query start time next (.waiting false (.evaluate scope promise rest))

variable {query left : Query Value} {promise : PromiseId} {rest : Option Source → Query Value}
  {page next : Page} {stage : Stage} {time : Nat}

theorem Awaiting.mono (h : line.Awaiting options scope query start now promise rest)
    (hle : now ≤ time) : line.Awaiting options scope query start time promise rest := by
  obtain ⟨captures, id, since, state, hleads, htaken, hsince, hfresh, hcell⟩ := h.captured
  obtain ⟨state, hcell⟩ := line.promised hle hcell
  exact ⟨captures, id, since, state, hleads, htaken, hsince.trans hle, hfresh, hcell⟩

/-- A source that was waited for was captured when it was seen. -/
theorem Awaiting.fulfilled (h : line.Awaiting options scope query start now promise rest)
    {source : Source} (hstate : (line.moment now).scopes.promiseState promise = .fulfilled source) :
    ∃ captures, query.Leads options.awaits captures (rest (some source)) ∧
      line.Captures scope start now captures := by
  obtain ⟨captures, id, since, state, hleads, htaken, hsince, hfresh, hcell⟩ := h.captured
  obtain ⟨hid, time, hafter, hbefore, hseen⟩ := line.saw_of_fulfilled hsince hfresh hcell hstate
  rw [hid, Scopes.find?_lower] at hseen
  have hlast : line.Captures scope since now [⟨id, some source, time⟩] := {
    ordered := hsince
    taken := List.pairwise_singleton ..
    between := List.forall_mem_singleton.mpr ⟨hafter, hbefore⟩
    there := List.forall_mem_singleton.mpr hseen }
  refine ⟨captures ++ [⟨id, some source, time⟩], hleads.trans ?_, htaken.append hlast⟩
  exact @Query.Leads.lookup _ _ ⟨id, some source, time⟩ _ _ _ _ (.inl rfl) (.refl _)

/-- Where an evaluation that has come to some query goes on to. -/
theorem Captures.goes (htaken : line.Captures scope start time captures)
    (hleads : query.Leads options.awaits captures left) (hoptions : page.options = options)
    (hscopes : page.scopes.scopes = (line.moment time).scopes.scopes)
    (hpromises : page.scopes.promises = (line.moment time).scopes.promises)
    (hstage : page.evaluateQuery scope true left = (next, stage)) :
    line.Comes options scope query start time next stage := by
  obtain ⟨more, hmore, hhalts⟩ := page.evaluateQuery_halts scope left time
  rw [hstage] at hhalts
  have hnow : line.Captures scope time time more := .of_moment fun capture hcapture => by
    obtain ⟨htime, hfound⟩ := hmore capture hcapture
    rw [Scopes.find?_of_scopes hscopes] at hfound
    exact ⟨htime, hfound⟩
  have hall := htaken.append hnow
  cases hhalts with
  | done leads => exact .value (hleads.trans (hoptions ▸ leads)) hall
  | refused disposed => exact .failed
  | @waits id rest leads kept =>
      refine .waits fun now hle hhas => ⟨captures ++ more, id, time, .pending, hleads.trans (hoptions ▸ leads),
        hall, hle, Nat.le_of_eq (congrArg Arena.size hpromises.symm), ?_⟩
      rw [← hhas.scopes]
      dsimp only
      rw [Scopes.promises_wait kept, Arena.get?_push, if_pos rfl]

theorem Has.begins (h : line.Has options start page)
    (hstage : page.startEvaluation scope true token = (next, stage)) :
    line.Comes options scope token.ask start start next stage := by
  -- The scope is held from now on, which does not change what it sees.
  have hoptions : (page.holdScope scope).options = options := h.options
  have hscopes : (page.holdScope scope).scopes.scopes = page.scopes.scopes := rfl
  have hpromises : (page.holdScope scope).scopes.promises = page.scopes.promises := rfl
  rw [h.scopes] at hscopes hpromises
  exact (Captures.nil (Nat.le_refl start)).goes (.refl _) hoptions hscopes hpromises hstage

theorem Awaiting.goes (h : line.Awaiting options scope query start time promise rest)
    (hhas : line.Has options time page) {fuel : Nat}
    (hstage : page.poll fuel (.evaluate scope promise rest) = (next, stage)) :
    line.Comes options scope query start time next stage := by
  rw [Page.poll, hhas.scopes] at hstage
  cases hstate : (line.moment time).scopes.promiseState promise with
  | pending =>
      rw [hstate] at hstage
      obtain ⟨rfl, rfl⟩ := Prod.mk.inj hstage
      exact .waits fun now hle _ => h.mono hle
  | fulfilled source =>
      rw [hstate] at hstage
      obtain ⟨captures, hleads, htaken⟩ := h.fulfilled hstate
      exact htaken.goes hleads hhas.options (congrArg Scopes.scopes hhas.scopes)
        (congrArg Scopes.promises hhas.scopes) hstage
  | cancelled =>
      rw [hstate] at hstage
      obtain ⟨rfl, rfl⟩ := Prod.mk.inj hstage
      exact .failed

/-- An evaluation that waits is an evaluation of what it has captured. -/
theorem Pending.awaiting (h : line.Pending options scope token start now activity) :
    ∃ promise rest, activity = .evaluate scope promise rest ∧
      line.Awaiting options scope token.ask start now promise rest := by
  induction h with
  | begun before stage ordered after =>
      cases before.begins stage with
      | waits awaiting => exact ⟨_, _, rfl, awaiting _ ordered after⟩
  | polled pending waited before stage ordered after ih =>
      obtain ⟨promise, rest, rfl, hawaiting⟩ := ih
      cases (hawaiting.mono waited).goes before stage with
      | waits awaiting => exact ⟨_, _, rfl, awaiting _ ordered after⟩

/-- Whatever happens between the polls of an evaluation that may wait: if it gives a value, then what the
token asks for was captured one after another, each source at a moment at which the scope saw it under
its id. Nothing that is worth waiting for is missing. The value is what the token gives at once on every
page on which the scope sees what was captured. -/
theorem sources_captured_in_turn
    (h : line.Concludes options scope token start value stop) :
    ∃ captures : List Capture, token.ask.Leads options.awaits captures (.done value) ∧
      line.Captures scope start stop captures ∧
      ∀ page : Page, (∀ capture ∈ captures, page.scopes.find? scope capture.id = capture.found) →
        page.startEvaluation scope false token = (page, .finished (.ok (.value value))) := by
  have hcomes : ∃ captures : List Capture, token.ask.Leads options.awaits captures (.done value) ∧
      line.Captures scope start stop captures := by
    cases h with
    | atOnce before stage =>
        cases before.begins stage with
        | value leads taken => exact ⟨_, leads, taken⟩
    | polled pending waited before stage =>
        obtain ⟨promise, rest, rfl, hawaiting⟩ := pending.awaiting
        cases (hawaiting.mono waited).goes before stage with
        | value leads taken => exact ⟨_, leads, taken⟩
  obtain ⟨captures, hleads, htaken⟩ := hcomes
  refine ⟨captures, hleads, htaken, fun page hfind => ?_⟩
  rw [Page.startEvaluation_once, Token.value, hleads.run_eq hfind]
  rfl

/-- An evaluation that begins to wait takes a hold on its scope and registers a wait. -/
theorem Has.begins_deeds {awake : Bool} (h : line.Has options start page)
    (hstage : page.startEvaluation scope true token = (next, .waiting awake activity)) :
    ∃ id, next.options = options ∧
      next.scopes = (((line.moment start).act (.hold scope)).act (.wait scope id)).scopes := by
  obtain ⟨captures, -, hhalts⟩ := (page.holdScope scope).evaluateQuery_halts scope token.ask start
  rw [← Page.startEvaluation, hstage] at hhalts
  cases hhalts with
  | @waits id rest leads kept =>
      refine ⟨id, h.options, ?_⟩
      rw [Page.holdScope, h.scopes]
      rfl

/-! ## A sum of two moments -/

/-- A source with a number. -/
def amount (id : String) (n : Int) : Source := .ofValue id (.object [("x", .number (.int n))])

/-- The first summand is there. An evaluation comes to the second one and waits for it. Meanwhile the first
one is set anew, and then the second one is set. -/
def summing : List (Option Deed) := [
  some (.set 0 (amount "a.b" 1)), none,
  some (.hold 0), some (.wait 0 "c.d"),
  some (.set 0 (amount "a.b" 2)), none,
  some (.set 0 (amount "c.d" 10)), none]

theorem allows_summing (time : Nat) (deed : Deed) (h : summing[time]? = some (some deed)) :
    (after [] summing time).Allows deed := by
  rcases time with _ | _ | _ | _ | _ | _ | _ | _ | time
  · obtain rfl := Option.some.inj (Option.some.inj h)
    exact ⟨by decide +kernel, by decide +kernel⟩
  · cases h
  · obtain rfl := Option.some.inj (Option.some.inj h)
    exact (by decide +kernel : (after [] summing 2).scopes.isAlive 0 = true)
  · obtain rfl := Option.some.inj (Option.some.inj h)
    exact (by decide +kernel : (after [] summing 3).scopes.isAlive 0 = true)
  · obtain rfl := Option.some.inj (Option.some.inj h)
    exact ⟨by decide +kernel, by decide +kernel⟩
  · cases h
  · obtain rfl := Option.some.inj (Option.some.inj h)
    exact ⟨by decide +kernel, by decide +kernel⟩
  · cases h
  · cases h

/-- The timeline of the two summands. -/
def sumLine : Timeline fun _ _ => True := ofSteps [] summing allows_summing

/-- The text of the sum. -/
def sumText : String := "\x7b## a.b.x + c.d.x ##\x7d"

/-- A page at a time of the timeline. -/
def sumPage (page : Page) (time : Nat) : Page :=
  { page with scopes := (sumLine.moment time).scopes }

/-- Whether the evaluation waits for the second summand and then gives eleven, while in no state from
its beginning to its end this is the sum. -/
def sumsUp (page : Page) (token : Token) : Bool :=
  (match (sumPage page 2).startEvaluation 0 true token with
    | (next, .waiting _ activity) => next.scopes.promisedId 0 == "c.d" &&
      match (sumPage page 8).poll 0 activity with
      | (_, .finished (.ok (.value value))) => value.display == "11"
      | _ => false
    | _ => false) &&
  [2, 3, 4, 5, 6, 7, 8].all fun time =>
    (token.value ((sumLine.moment time).scopes.find? 0)).display != "11"

theorem sum_sumsUp : ((Page.ofOptions {}).toOption.any fun page =>
    (Binding.compile page.patterns sumText).toOption.any (sumsUp page)) = true := by
  decide +kernel

/-- The second summand is what the evaluation waits for, so these are the scopes it leaves. -/
theorem scopes_sumLine {id : String}
    (h : ((((sumLine.moment 2).act (.hold 0)).act (.wait 0 id)).scopes).promisedId 0 = "c.d") :
    (((sumLine.moment 2).act (.hold 0)).act (.wait 0 id)).scopes = (sumLine.moment 4).scopes := by
  have hkept : ((sumLine.moment 2).scopes.hold 0).isDisposed 0 = false := by decide +kernel
  have hnone : ((sumLine.moment 2).scopes.hold 0).promises.size = 0 := by decide +kernel
  have hsecond : Unicode.lower "c.d" = "c.d" := by decide +kernel
  have hid : Unicode.lower id = "c.d" := by
    change (((sumLine.moment 2).scopes.hold 0).wait 0 id).1.promisedId 0 = "c.d" at h
    rw [Scopes.promisedId, Scopes.promises_wait hkept, Arena.get?_push, hnone, if_pos rfl] at h
    exact h
  change (((sumLine.moment 2).scopes.hold 0).wait 0 id).1 =
    (((sumLine.moment 2).scopes.hold 0).wait 0 "c.d").1
  rw [Scopes.wait_of_kept hkept, Scopes.wait_of_kept hkept, hid, hsecond]

theorem sum_concludes : ∃ page token value, Page.ofOptions {} = .ok page ∧
    Binding.compile page.patterns sumText = .ok token ∧ sumLine.Concludes {} 0 token 2 value 8 ∧
    value.display = "11" ∧ ([2, 3, 4, 5, 6, 7, 8].all fun time =>
      (token.value ((sumLine.moment time).scopes.find? 0)).display != "11") = true := by
  obtain ⟨page, hpage, hreads⟩ := (Option.any_eq_true _ _).mp sum_sumsUp
  obtain ⟨token, htoken, hsums⟩ := (Option.any_eq_true _ _).mp hreads
  have hopened := Page.eq_ok_of_toOption hpage
  have hoptions : page.options = {} := by
    obtain ⟨patterns, -, rfl⟩ := Page.ofOptions_ok hopened
    rfl
  have hhas : ∀ time, sumLine.Has {} time (sumPage page time) := fun _ => ⟨hoptions, rfl⟩
  obtain ⟨hrun, hstates⟩ := (Bool.and_eq_true ..).mp hsums
  cases hbegun : (sumPage page 2).startEvaluation 0 true token with
  | mk next stage =>
      rw [hbegun] at hrun
      cases stage with
      | finished result => cases hrun
      | waiting awake activity =>
          obtain ⟨hid, hpoll⟩ := (Bool.and_eq_true ..).mp hrun
          obtain ⟨id, hsame, hscopes⟩ := (hhas 2).begins_deeds hbegun
          have hwaits : sumLine.Has {} 4 next :=
            ⟨hsame, hscopes.trans (scopes_sumLine (hscopes ▸ eq_of_beq hid))⟩
          cases hpolled : (sumPage page 8).poll 0 activity with
          | mk last stage =>
              rw [hpolled] at hpoll
              cases stage with
              | waiting awake other => cases hpoll
              | finished result =>
                  cases result with
                  | error error => cases hpoll
                  | ok answer =>
                      cases answer with
                      | value value =>
                          exact ⟨page, token, value, hopened, Page.eq_ok_of_toOption htoken,
                            .polled (.begun (hhas 2) hbegun (by decide) hwaits) (by decide) (hhas 8) hpolled,
                            eq_of_beq hpoll, hstates⟩
                      | nothing => cases hpoll
                      | source source => cases hpoll
                      | number n => cases hpoll

/-- The evaluation captured both summands, one after another, and where both are what was captured, the sum
is eleven. -/
theorem sum_captured_in_turn : ∃ (token : Token) (value : Value) (captures : List Capture),
    token.ask.Leads (Options.awaits {}) captures (.done value) ∧
    sumLine.Captures 0 2 8 captures ∧ value.display = "11" ∧
    ∀ page : Page, (∀ capture ∈ captures, page.scopes.find? 0 capture.id = capture.found) →
      page.startEvaluation 0 false token = (page, .finished (.ok (.value value))) := by
  obtain ⟨page, token, value, -, -, hconcludes, hdisplay, -⟩ := sum_concludes
  obtain ⟨captures, hleads, htaken, hgives⟩ := sources_captured_in_turn hconcludes
  exact ⟨token, value, captures, hleads, htaken, hdisplay, hgives⟩

/-- The evaluation adds the first summand of one moment and the second one of another: its value is the
value of the text in no state from its beginning to its end. -/
theorem sum_of_two_moments : ∃ page token value, Page.ofOptions {} = .ok page ∧
    Binding.compile page.patterns sumText = .ok token ∧ sumLine.Concludes {} 0 token 2 value 8 ∧
    ∀ time, 2 ≤ time → time ≤ 8 → ∀ other : Page, other.scopes = (sumLine.moment time).scopes →
      other.startEvaluation 0 false token ≠ (other, .finished (.ok (.value value))) := by
  obtain ⟨page, token, value, hopened, hcompiled, hconcludes, hdisplay, hstates⟩ := sum_concludes
  refine ⟨page, token, value, hopened, hcompiled, hconcludes, fun time hle hge other hscopes hsame => ?_⟩
  rw [Page.startEvaluation_once, hscopes] at hsame
  have hvalue : token.value ((sumLine.moment time).scopes.find? 0) = value := by
    simpa using congrArg Prod.snd hsame
  have hmem : time ∈ [2, 3, 4, 5, 6, 7, 8] := by
    simp only [List.mem_cons, List.not_mem_nil]
    omega
  have hother := List.all_eq_true.mp hstates time hmem
  rw [hvalue, hdisplay] at hother
  cases hother

end Timeline

end ReactiveMarkup
