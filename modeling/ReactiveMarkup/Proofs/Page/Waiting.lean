import ReactiveMarkup.Page.Activity
import ReactiveMarkup.Proofs.Scope.Waits

/-!
# What a wait is answered

A host that waits for a source polls its wait. The answer follows from the record: the wait goes on, or
it gives the source of the first broadcast that began behind it, or it tells that it was cancelled. Only
the first of these can change.
-/

namespace ReactiveMarkup.Page

open Moment

variable {m after : Moment} {may : Moment → Deed → Prop} {scopes : Scopes} {scope : ScopeId}
  {id : String} {promise : PromiseId} {registered : Nat} {stage : Stage}

/-- What polling a wait gives on every page with the given scopes. It leaves the page as it is. -/
def Gives (scopes : Scopes) (promise : PromiseId) (stage : Stage) : Prop :=
  ∀ (fuel : Nat) (page : Page), page.scopes = scopes →
    page.poll fuel (.wait promise) = (page, stage)

theorem gives_pending (h : scopes.promiseState promise = .pending) :
    Gives scopes promise (.waiting false (.wait promise)) := by
  intro fuel page hscopes
  rw [poll, hscopes, h]

theorem gives_fulfilled {source : Source} (h : scopes.promiseState promise = .fulfilled source) :
    Gives scopes promise (.finished (.ok (.source source))) := by
  intro fuel page hscopes
  rw [poll, hscopes, h]

theorem gives_cancelled (h : scopes.promiseState promise = .cancelled) :
    Gives scopes promise (.finished (.error (.waitCancelled (scopes.promisedId promise)))) := by
  intro fuel page hscopes
  rw [poll, hscopes, h]

theorem Attended.promisedId_eq (h : Attended m)
    (hwaited : m.past[registered]? = some (.waited scope id promise)) :
    m.scopes.promisedId promise = id := by
  rw [Scopes.promisedId, h.state hwaited]
  rfl

theorem startWait_of_disposed {page : Page} (h : page.scopes.isDisposed scope = true) (id : String) :
    page.startWait scope id = (page, .finished (.error .scopeDisposed)) := by
  rw [startWait, Scopes.wait_of_disposed h]

theorem startWait_of_kept {page : Page} (h : page.scopes.isDisposed scope = false) (id : String) :
    page.startWait scope id =
      ({ page with scopes := (page.scopes.wait scope id).1 },
        .waiting false (.wait page.scopes.promises.size)) := by
  rw [startWait, Scopes.wait_of_kept h]

/-- Whatever happened, as long as nobody clears the handlers of a scope by hand, and whatever happens
then: a wait that was registered goes on, in a scope that lives, until a broadcast of its id has begun in
the scope and is over. Or it was served: the first thing behind its registration that concerned it was a
broadcast of its id in the scope, which is over, and the source of this broadcast is the answer from now
on. Or it was cancelled, because the scope was disposed first, or nobody holds it any more and no
broadcast began; and that is the answer from now on. A scope that was disposed takes no more waits, and
any other that lives takes every wait. -/
theorem wait_ends_once (hkept : ∀ {m deed scope}, may m deed → deed ≠ .clear scope)
    (h : Reached may m) :
    (∀ {registered scope id promise}, m.past[registered]? = some (.waited scope id promise) →
      (Gives m.scopes promise (.waiting false (.wait promise)) ∧ m.scopes.isAlive scope = true ∧
        (decision? m.past scope id registered = none ∨
          ∃ telling ∈ m.tellings, decision? m.past scope id registered = some telling.since)) ∨
      (∃ began source origin, decision? m.past scope id registered = some began ∧
        m.past[began]? = some (.began scope source origin) ∧ source.id = id ∧
        (∀ telling ∈ m.tellings, telling.since ≠ began) ∧
        ∀ after, Later may m after →
          Gives after.scopes promise (.finished (.ok (.source source)))) ∨
      (((∃ ended, decision? m.past scope id registered = some ended ∧
          m.past[ended]? = some (.disposed scope)) ∨
        decision? m.past scope id registered = none ∧ m.scopes.isAlive scope = false) ∧
        ∀ after, Later may m after →
          Gives after.scopes promise (.finished (.error (.waitCancelled id))))) ∧
    ∀ (page : Page) (scope : ScopeId) (id : String), page.scopes = m.scopes →
      (m.scopes.isDisposed scope = true → m.act (.wait scope id) = m ∧
        page.startWait scope id = (page, .finished (.error .scopeDisposed))) ∧
      (m.scopes.isDisposed scope = false → ∃ promise,
        (m.act (.wait scope id)).past = m.past ++ [.waited scope (Unicode.lower id) promise] ∧
        page.startWait scope id = ({ page with scopes := (m.act (.wait scope id)).scopes },
          .waiting false (.wait promise))) := by
  have horderly := h.orderly
  obtain ⟨settings, hlater⟩ := h
  have hattended := hlater.attended (attended_first settings) (orderly_first settings) hkept
  refine ⟨fun {registered scope id promise} hwaited => ?_, fun page scope id hscopes => ⟨?_, ?_⟩⟩
  · -- What is not pending stays what it is.
    have hlasts : ∀ {state}, m.scopes.promiseState promise = state → state ≠ .pending →
        ∀ after, Later may m after → after.scopes.promiseState promise = state := by
      rintro state rfl hended after hmore
      exact hmore.promiseState_eq hattended horderly hkept hwaited hended
    rcases hattended.outcome horderly hwaited with ⟨hpending, halive, hopen⟩ |
      ⟨began, source, origin, hdecision, hbegan, hid, hover, hstate⟩ | ⟨hstate, hreason⟩
    · exact .inl ⟨gives_pending hpending, halive, hopen⟩
    · refine .inr (.inl ⟨began, source, origin, hdecision, hbegan, hid, hover, ?_⟩)
      exact fun after hmore => gives_fulfilled (hlasts hstate (by simp) after hmore)
    · refine .inr (.inr ⟨hreason, fun after hmore => ?_⟩)
      have hstill := getElem?_of_extension (hmore.follows horderly).past hwaited
      have hthen := hmore.attended hattended horderly hkept
      have hid := Attended.promisedId_eq hthen hstill
      exact hid ▸ gives_cancelled (hlasts hstate (by simp) after hmore)
  · intro hdisposed
    exact ⟨act_wait_of_disposed hdisposed id, startWait_of_disposed (hscopes ▸ hdisposed) id⟩
  · intro hkept
    refine ⟨m.scopes.promises.size, ?_, ?_⟩
    · rw [act, Scopes.wait_of_kept hkept]
      rfl
    · rw [startWait_of_kept (hscopes ▸ hkept), hscopes]
      rfl

/-- Nobody clears the handlers of a scope by hand. -/
def KeepsHandlers (_ : Moment) (deed : Deed) : Prop := ∀ scope, deed ≠ .clear scope

/-- A child scope that waits. -/
def waitingChild : Moment := ((first []).act (.create 0 [])).act (.wait 1 "DB.Items")

/-- A source is set in the parent and told to the end. -/
def servedChild : Moment :=
  (waitingChild.act (.set 0 (Scopes.itemsOf "a"))).proceed.proceed.proceed

/-- The child is given what was set in its parent, once and for all. -/
theorem child_wait_served : ∃ source, source.id = "db.items" ∧
    ∀ after, Later KeepsHandlers servedChild after →
      Gives after.scopes 0 (.finished (.ok (.source source))) := by
  have hreached : Reached KeepsHandlers servedChild := by
    have hroot : (first []).scopes.isAlive 0 = true := by decide +kernel
    have hchild : ((first []).act (.create 0 [])).scopes.isAlive 1 = true := by decide +kernel
    have hparent : waitingChild.scopes.isAlive 0 = true := by decide +kernel
    have hcreated : Later KeepsHandlers (first []) ((first []).act (.create 0 [])) :=
      .act .refl hroot fun scope hsame => by cases hsame
    have hwaiting : Later KeepsHandlers (first [])
        (((first []).act (.create 0 [])).act (.wait 1 "DB.Items")) :=
      .act hcreated hchild fun scope hsame => by cases hsame
    have hset : Later KeepsHandlers (first []) (waitingChild.act (.set 0 (Scopes.itemsOf "a"))) :=
      .act hwaiting ⟨hparent, Scopes.lower_id_make ..⟩ fun scope hsame => by cases hsame
    exact ⟨[], .proceed (.proceed (.proceed hset))⟩
  have hwaited : servedChild.past[0]? = some (.waited 1 "db.items" 0) := rfl
  have hdecision : decision? servedChild.past 1 "db.items" 0 = some 2 := by decide +kernel
  have hquiet : servedChild.tellings = [] := rfl
  have hbroadcast : servedChild.past[2]?.map (Happening.decides 1 "") = some false := by
    decide +kernel
  rcases (wait_ends_once (fun hmay => hmay _) hreached).1 hwaited with ⟨-, -, hopen | hgoes⟩ |
    ⟨_, source, _, -, -, hid, -, hserved⟩ | ⟨⟨ended, hended, hdisposed⟩ | ⟨hopen, -⟩, -⟩
  · rw [hdecision] at hopen
    cases hopen
  · obtain ⟨telling, htelling, -⟩ := hgoes
    rw [hquiet] at htelling
    cases htelling
  · exact ⟨source, hid, hserved⟩
  · obtain rfl := Option.some.inj (hdecision.symm.trans hended)
    rw [hdisposed] at hbroadcast
    cases hbroadcast
  · rw [hdecision] at hopen
    cases hopen

end ReactiveMarkup.Page
