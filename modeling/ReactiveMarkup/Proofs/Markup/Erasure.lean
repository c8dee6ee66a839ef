import ReactiveMarkup.Markup.Fragment

/-!
# What HTML leaves out

Different fragments may have the same HTML, because HTML does not show everything: anchors are not
there, neighbouring texts run together, empty texts vanish, and void elements are written without what
is below them. Here fragments are brought into the one form that has nothing of this left. It shows the
same, and fragments that are in it stay as they are.

A text comes to stand before what has been erased behind it, so fragments are erased from the end.
-/

namespace ReactiveMarkup.Fragment

/-! ## Erasing -/

/-- A text in front of fragments runs together with a text there, and vanishes if it is empty. -/
def joinText (content : String) : List Fragment → List Fragment
  | .text more :: rest => .text (content ++ more) :: rest
  | behind => if content = "" then behind else .text content :: behind

mutual

/-- A fragment in front of erased ones. -/
def erase : Fragment → List Fragment → List Fragment
  | .element tag attributes children, behind =>
    .element tag attributes (if isVoid tag then [] else eraseAll children []) :: behind
  | .text content, behind => joinText content behind
  | .comment content, behind => .comment content :: behind
  | .anchor _ children, behind => eraseAll children behind

/-- Fragments in front of erased ones. -/
def eraseAll : List Fragment → List Fragment → List Fragment
  | [], behind => behind
  | fragment :: rest, behind => erase fragment (eraseAll rest behind)

end

/-- Fragments without what HTML does not show. -/
def erased (fragments : List Fragment) : List Fragment := eraseAll fragments []

/-! ## Erased fragments -/

def isText : Fragment → Bool
  | .text _ => true
  | _ => false

/-- Whether a text comes first. -/
def beginsWithText : List Fragment → Bool
  | fragment :: _ => fragment.isText
  | [] => false

mutual

/-- Whether a fragment has nothing that HTML does not show. -/
def Bare : Fragment → Prop
  | .element tag _ children => (isVoid tag = true → children = []) ∧ AllBare children
  | .text content => content ≠ ""
  | .comment _ => True
  | .anchor _ _ => False

/-- Whether fragments have nothing that HTML does not show. -/
def AllBare : List Fragment → Prop
  | [] => True
  | fragment :: rest =>
    Bare fragment ∧ (fragment.isText = true → beginsWithText rest = false) ∧ AllBare rest

end

variable {fragment : Fragment} {fragments behind rest : List Fragment} {content : String}

theorem joinText_of_not_text (h : beginsWithText behind = false) (content : String) :
    joinText content behind = if content = "" then behind else .text content :: behind := by
  cases behind with
  | nil => rfl
  | cons first rest =>
      cases first with
      | text more => cases h
      | _ => rfl

theorem exists_text (h : beginsWithText behind = true) : ∃ more rest, behind = .text more :: rest := by
  cases behind with
  | nil => cases h
  | cons first rest =>
      cases first with
      | text more => exact ⟨more, rest, rfl⟩
      | _ => cases h

theorem AllBare.joinText (h : AllBare behind) (content : String) : AllBare (joinText content behind) := by
  cases hbegins : beginsWithText behind with
  | false =>
      rw [joinText_of_not_text hbegins]
      split
      · exact h
      · next hcontent => exact ⟨hcontent, fun _ => hbegins, h⟩
  | true =>
      obtain ⟨more, rest, rfl⟩ := exists_text hbegins
      exact ⟨fun hempty => h.1 (String.append_eq_empty_iff.mp hempty).2, h.2⟩

mutual

theorem AllBare.erase : ∀ (fragment : Fragment) {behind : List Fragment}, AllBare behind →
    AllBare (erase fragment behind)
  | .element tag attributes children, behind, h => by
      rw [Fragment.erase]
      refine ⟨?_, fun htext => absurd htext Bool.false_ne_true, h⟩
      split
      · exact ⟨fun _ => rfl, trivial⟩
      · next hvoid => exact ⟨fun hyes => absurd hyes hvoid, AllBare.eraseAll children trivial⟩
  | .text content, _, h => h.joinText content
  | .comment content, _, h =>
      ⟨trivial, fun htext => absurd htext Bool.false_ne_true, h⟩
  | .anchor _ children, _, h => AllBare.eraseAll children h

theorem AllBare.eraseAll : ∀ (fragments : List Fragment) {behind : List Fragment}, AllBare behind →
    AllBare (eraseAll fragments behind)
  | [], _, h => h
  | fragment :: rest, _, h => AllBare.erase fragment (AllBare.eraseAll rest h)

end

theorem allBare_erased (fragments : List Fragment) : AllBare (erased fragments) :=
  AllBare.eraseAll fragments trivial

mutual

theorem erase_of_bare : ∀ {fragment : Fragment} {behind : List Fragment}, Bare fragment →
    (fragment.isText = true → beginsWithText behind = false) →
    erase fragment behind = fragment :: behind
  | .element tag attributes children, behind, h, _ => by
      rw [erase]
      split
      · next hvoid => rw [h.1 hvoid]
      · rw [eraseAll_of_bare h.2]
  | .text content, behind, h, hbehind => by
      rw [erase, joinText_of_not_text (hbehind rfl), if_neg h]
  | .comment content, _, _, _ => rfl
  | .anchor _ _, _, h, _ => h.elim

theorem eraseAll_of_bare : ∀ {fragments : List Fragment}, AllBare fragments →
    eraseAll fragments [] = fragments
  | [], _ => rfl
  | fragment :: rest, h => by
      rw [eraseAll, eraseAll_of_bare h.2.2, erase_of_bare h.1 h.2.1]

end

/-- Erased fragments stay as they are. -/
theorem erased_of_bare (h : AllBare fragments) : erased fragments = fragments := eraseAll_of_bare h

/-! ## HTML of erased fragments -/

theorem write_append (pieces more : List Piece) : write (pieces ++ more) = write pieces ++ write more := by
  rw [write, write, write, List.map_append, String.join_append]

theorem html_nil : html [] = "" := rfl

theorem html_cons (fragment : Fragment) (rest : List Fragment) :
    html (fragment :: rest) = write (pieces fragment) ++ html rest := by
  rw [html, piecesOfAll, write_append]
  rfl

theorem written_append (content more : String) :
    (Piece.text (content ++ more)).written = (Piece.text content).written ++ (Piece.text more).written := by
  rw [Piece.written, Piece.written, Piece.written, String.toList_append, List.flatMap_append,
    String.ofList_append]

theorem write_text (content : String) : write (pieces (.text content)) = (Piece.text content).written := by
  rw [pieces, write, List.map_singleton, String.join_cons, String.join_nil, String.append_empty]

theorem html_joinText (content : String) (behind : List Fragment) :
    html (joinText content behind) = (Piece.text content).written ++ html behind := by
  cases hbegins : beginsWithText behind with
  | false =>
      rw [joinText_of_not_text hbegins]
      split
      · next hcontent =>
          rw [hcontent]
          exact String.empty_append.symm
      · rw [html_cons, write_text]
  | true =>
      obtain ⟨more, rest, rfl⟩ := exists_text hbegins
      rw [joinText, html_cons, html_cons, write_text, write_text, written_append, String.append_assoc]

mutual

theorem html_erase : ∀ (fragment : Fragment) (behind : List Fragment),
    html (erase fragment behind) = write (pieces fragment) ++ html behind
  | .element tag attributes children, behind => by
      have hbelow : html (eraseAll children []) = html children := by
        rw [html_eraseAll children [], html_nil, String.append_empty]
      rw [html, html] at hbelow
      rw [erase, html_cons, pieces, pieces]
      split
      · rfl
      · rw [write_append, write_append, write_append, write_append, hbelow]
  | .text content, behind => by
      rw [erase, html_joinText, write_text]
  | .comment content, behind => html_cons _ behind
  | .anchor name children, behind => html_eraseAll children behind

theorem html_eraseAll : ∀ fragments behind : List Fragment,
    html (eraseAll fragments behind) = html fragments ++ html behind
  | [], behind => String.empty_append.symm
  | fragment :: rest, behind => by
      rw [eraseAll, html_erase fragment, html_eraseAll rest behind, html_cons, String.append_assoc]

end

/-- What is erased does not show. -/
theorem html_erased (fragments : List Fragment) : html (erased fragments) = html fragments := by
  rw [erased, html_eraseAll, html_nil, String.append_empty]

end ReactiveMarkup.Fragment
