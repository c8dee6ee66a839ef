import ReactiveMarkup.Proofs.Markup.Erasure
import ReactiveMarkup.Proofs.Markup.Escapes

/-!
# Markup tells its parts apart

Everything that is written ends where it is seen to end, whatever it says and whatever comes behind it.
A name of a tag or an attribute ends before a character that is in no name, a value at its quote and a
text before a bracket, which both are escaped inside, and a comment at the mark that closes it. So two
fragments with the same HTML begin with the same piece and have the same HTML behind it, and so on to
the end: they are the same, apart from what HTML does not show.

This needs names that are names, and comments that do not say the mark which closes a comment. A comment
is written as it is, so one that says it is the HTML of something else.
-/

namespace ReactiveMarkup.Fragment

/-! ## What can be told apart -/

/-- Whether a text has no character that ends a name in markup. Of all blanks only the space has to be
kept out, because nothing else is written between names. -/
def IsName (name : String) : Prop := ∀ c ∈ name.toList, c ∉ [' ', '"', '\'', '<', '>', '/', '=']

/-- Whether a tag is a name that starts with a letter. -/
def IsTag (tag : String) : Prop :=
  IsName tag ∧ ∃ c rest, tag.toList = c :: rest ∧ Unicode.isLetter c = true

/-- The mark that closes a comment. -/
def closeMark : List Char := ['-', '-', '>']

mutual

/-- Whether the tags and attributes of a fragment are names, and no comment says what closes one. What
is below a void element is not written and may be anything. -/
def Readable : Fragment → Prop
  | .element tag attributes children =>
    IsTag tag ∧ (∀ entry ∈ attributes, IsName entry.1) ∧ (¬ isVoid tag = true → AllReadable children)
  | .text _ => True
  | .comment content => ¬ closeMark <:+: content.toList
  | .anchor _ children => AllReadable children

/-- Whether this is so for all of some fragments. -/
def AllReadable : List Fragment → Prop
  | [] => True
  | fragment :: rest => Readable fragment ∧ AllReadable rest

end

variable {behind : List Fragment}

theorem AllReadable.joinText (h : AllReadable behind) (content : String) :
    AllReadable (joinText content behind) := by
  cases hbegins : beginsWithText behind with
  | false =>
      rw [joinText_of_not_text hbegins]
      split
      · exact h
      · exact ⟨trivial, h⟩
  | true =>
      obtain ⟨more, rest, rfl⟩ := exists_text hbegins
      exact h

mutual

theorem AllReadable.erase : ∀ {fragment : Fragment} {behind : List Fragment}, Readable fragment →
    AllReadable behind → AllReadable (erase fragment behind)
  | .element tag attributes children, behind, h, hbehind => by
      rw [Fragment.erase]
      refine ⟨⟨h.1, h.2.1, fun hvoid => ?_⟩, hbehind⟩
      rw [if_neg hvoid]
      exact AllReadable.eraseAll (h.2.2 hvoid) trivial
  | .text content, _, _, hbehind => hbehind.joinText content
  | .comment content, _, h, hbehind => ⟨h, hbehind⟩
  | .anchor _ children, _, h, hbehind => AllReadable.eraseAll h hbehind

theorem AllReadable.eraseAll : ∀ {fragments behind : List Fragment}, AllReadable fragments →
    AllReadable behind → AllReadable (eraseAll fragments behind)
  | [], _, _, hbehind => hbehind
  | _ :: _, _, h, hbehind => AllReadable.erase h.1 (AllReadable.eraseAll h.2 hbehind)

end

/-! ## Where things end -/

/-- Two texts that hold nothing of what comes first behind them end in the same place. -/
theorem append_inj_of_stop (stop : Char → Prop) {a b s t : List Char} (ha : ∀ c ∈ a, ¬ stop c)
    (hb : ∀ c ∈ b, ¬ stop c) (hs : ∀ c ∈ s.head?, stop c) (ht : ∀ c ∈ t.head?, stop c)
    (h : a ++ s = b ++ t) : a = b ∧ s = t := by
  rcases List.append_eq_append_iff.mp h with ⟨more, rfl, rfl⟩ | ⟨more, rfl, rfl⟩
  · cases more with
    | nil => exact ⟨(List.append_nil a).symm, rfl⟩
    | cons c rest => exact absurd (hs c rfl) (hb c (by simp))
  · cases more with
    | nil => exact ⟨List.append_nil b, rfl⟩
    | cons c rest => exact absurd (ht c rfl) (ha c (by simp))

/-- The mark that closes a comment does not begin inside itself. -/
theorem eq_nil_of_closeMark {more s t : List Char} (hmore : ¬ closeMark <+: more)
    (h : closeMark ++ s = more ++ (closeMark ++ t)) : more = [] := by
  match more, hmore, h with
  | [], _, _ => rfl
  | [c], _, h => simp [closeMark] at h
  | [c, d], _, h => simp [closeMark] at h
  | c :: d :: e :: rest, hmore, h =>
      simp only [closeMark, List.cons_append, List.nil_append, List.cons.injEq] at h
      obtain ⟨rfl, rfl, rfl, -⟩ := h
      exact absurd ⟨rest, rfl⟩ hmore

/-- Two comments that do not say what closes them end in the same place. -/
theorem append_inj_of_closeMark {a b s t : List Char} (ha : ¬ closeMark <:+: a)
    (hb : ¬ closeMark <:+: b) (h : a ++ (closeMark ++ s) = b ++ (closeMark ++ t)) :
    a = b ∧ s = t := by
  have hbehind : ∀ {front more : List Char}, ¬ closeMark <:+: front ++ more → ¬ closeMark <+: more :=
    fun hnot hin => hnot (hin.isInfix.trans (List.suffix_append _ _).isInfix)
  rcases List.append_eq_append_iff.mp h with ⟨more, rfl, hmore⟩ | ⟨more, rfl, hmore⟩
  · obtain rfl := eq_nil_of_closeMark (hbehind hb) hmore
    exact ⟨(List.append_nil a).symm, List.append_cancel_left hmore⟩
  · obtain rfl := eq_nil_of_closeMark (hbehind ha) hmore
    exact ⟨List.append_nil b, (List.append_cancel_left hmore).symm⟩

/-- Two escaped texts end before a character that no escape has, and say what they said. -/
theorem escaped_append_inj {escape : Char → List Char} {stop : Char}
    (hback : ∀ c rest, Piece.unescape (escape c ++ rest) = c :: Piece.unescape rest)
    (hstop : ∀ c, stop ∉ escape c) {a b : String} {s t : List Char} (hs : ∀ c ∈ s.head?, c = stop)
    (ht : ∀ c ∈ t.head?, c = stop) (h : a.toList.flatMap escape ++ s = b.toList.flatMap escape ++ t) :
    a = b ∧ s = t := by
  have hnone : ∀ text : List Char, ∀ c ∈ text.flatMap escape, ¬ c = stop := by
    rintro text c hc rfl
    obtain ⟨d, -, hd⟩ := List.mem_flatMap.mp hc
    exact hstop d hd
  obtain ⟨hsame, hrest⟩ := append_inj_of_stop (· = stop) (hnone _) (hnone _) hs ht h
  have hsaid := congrArg Piece.unescape hsame
  rw [Piece.unescape_flatMap hback, Piece.unescape_flatMap hback] at hsaid
  exact ⟨String.toList_inj.mp hsaid, hrest⟩

/-! ## Attributes and tags -/

/-- The attributes of a start tag as they are written. -/
def attributeChars : List (String × String) → List Char
  | [] => []
  | (name, value) :: rest =>
    ' ' :: (name.toList ++ '=' :: '"' :: (value.toList.flatMap Piece.escapeInValue ++
      '"' :: attributeChars rest))

theorem attributeChars_append_inj {as bs : List (String × String)} {s t : List Char}
    (ha : ∀ entry ∈ as, IsName entry.1) (hb : ∀ entry ∈ bs, IsName entry.1)
    (h : attributeChars as ++ '>' :: s = attributeChars bs ++ '>' :: t) : as = bs ∧ s = t := by
  have hname : ∀ {name : String}, IsName name → ∀ c ∈ name.toList, ¬ c = '=' :=
    fun hname c hc hstop => hname c hc (by simp [hstop])
  induction as generalizing bs with
  | nil =>
      cases bs with
      | nil => exact ⟨rfl, (List.cons.inj h).2⟩
      | cons entry more => simp [attributeChars] at h
  | cons entry rest ih =>
      cases bs with
      | nil => simp [attributeChars] at h
      | cons other more =>
          obtain ⟨hentry, hrest⟩ := List.forall_mem_cons.mp ha
          obtain ⟨hother, hmore⟩ := List.forall_mem_cons.mp hb
          simp only [attributeChars, List.cons_append, List.append_assoc, List.cons.injEq,
            true_and] at h
          obtain ⟨hnames, hvalues⟩ := append_inj_of_stop (· = '=') (hname hentry) (hname hother)
            (by simp) (by simp) h
          simp only [List.cons.injEq, true_and] at hvalues
          obtain ⟨hvalue, hbehind⟩ := escaped_append_inj Piece.unescape_escapeInValue
            (fun c => (Piece.not_mem_escapeInValue c).2.2) (by simp) (by simp) hvalues
          obtain ⟨rfl, hsame⟩ := ih hrest hmore (List.cons.inj hbehind).2
          exact ⟨by rw [Prod.ext (String.toList_inj.mp hnames) hvalue], hsame⟩

/-- The characters of a tag go on to a blank or a bracket. -/
theorem tag_append_inj {a b : String} {s t : List Char} (ha : IsTag a) (hb : IsTag b)
    (hs : ∀ c ∈ s.head?, c = ' ' ∨ c = '>') (ht : ∀ c ∈ t.head?, c = ' ' ∨ c = '>')
    (h : a.toList ++ s = b.toList ++ t) : a = b ∧ s = t := by
  have hname : ∀ {tag : String}, IsTag tag → ∀ c ∈ tag.toList, ¬ (c = ' ' ∨ c = '>') := by
    rintro tag htag c hc (rfl | rfl)
    · exact htag.1 ' ' hc (by decide)
    · exact htag.1 '>' hc (by decide)
  obtain ⟨hsame, hrest⟩ :=
    append_inj_of_stop (fun c => c = ' ' ∨ c = '>') (hname ha) (hname hb) hs ht h
  exact ⟨String.toList_inj.mp hsame, hrest⟩

/-- A start tag as it is written. -/
def startChars (tag : String) (attributes : List (String × String)) : List Char :=
  '<' :: (tag.toList ++ (attributeChars attributes ++ ['>']))

theorem startChars_append_inj {tag other : String} {as bs : List (String × String)}
    {s t : List Char} (htag : IsTag tag) (hother : IsTag other)
    (ha : ∀ entry ∈ as, IsName entry.1) (hb : ∀ entry ∈ bs, IsName entry.1)
    (h : startChars tag as ++ s = startChars other bs ++ t) : tag = other ∧ as = bs ∧ s = t := by
  have hhead : ∀ (entries : List (String × String)) (behind : List Char),
      ∀ c ∈ (attributeChars entries ++ '>' :: behind).head?, c = ' ' ∨ c = '>' := by
    intro entries behind c hc
    cases entries with
    | nil => exact .inr (Option.some.inj hc).symm
    | cons entry rest => exact .inl (Option.some.inj hc).symm
  simp only [startChars, List.cons_append, List.append_assoc, List.nil_append, List.cons.injEq,
    true_and] at h
  obtain ⟨rfl, hrest⟩ := tag_append_inj htag hother (hhead as s) (hhead bs t) h
  obtain ⟨rfl, hsame⟩ := attributeChars_append_inj ha hb hrest
  exact ⟨rfl, rfl, hsame⟩

/-! ## Fragments -/

/-- A fragment as it is written. -/
def written (fragment : Fragment) : List Char := (write (pieces fragment)).toList

/-- Fragments as they are written. -/
def writtenAll (fragments : List Fragment) : List Char := (html fragments).toList

theorem writtenAll_nil : writtenAll [] = [] := rfl

theorem writtenAll_cons (fragment : Fragment) (rest : List Fragment) :
    writtenAll (fragment :: rest) = written fragment ++ writtenAll rest := by
  rw [writtenAll, html_cons, String.toList_append]
  rfl

theorem toList_attributePieces (attributes : List (String × String)) :
    (write (attributePieces attributes)).toList = attributeChars attributes := by
  induction attributes with
  | nil => rfl
  | cons entry rest ih =>
      obtain ⟨name, value⟩ := entry
      rw [write] at ih
      simp [attributePieces, attributeChars, write, Piece.written, ih]

theorem toList_startPieces (tag : String) (attributes : List (String × String)) :
    (write (startPieces tag attributes)).toList = startChars tag attributes := by
  have hattributes := toList_attributePieces attributes
  rw [write] at hattributes
  simp [startPieces, startChars, write, Piece.written, hattributes]

/-- What comes behind the start tag of an element; a void element is written without it. -/
def insideChars (tag : String) (children : List Fragment) : List Char :=
  if isVoid tag then [] else writtenAll children ++ '<' :: '/' :: (tag.toList ++ ['>'])

theorem written_element (tag : String) (attributes : List (String × String)) (children : List Fragment) :
    written (.element tag attributes children) =
      startChars tag attributes ++ insideChars tag children := by
  rw [written, pieces, insideChars]
  split
  · rw [toList_startPieces, List.append_nil]
  · rw [write_append, write_append, String.toList_append, String.toList_append, toList_startPieces,
      List.append_assoc]
    simp [writtenAll, html, write, Piece.written, endTag]

theorem written_text (content : String) :
    written (.text content) = content.toList.flatMap Piece.escapeInText := by
  rw [written, write_text, Piece.written, String.toList_ofList]

theorem written_comment (content : String) :
    written (.comment content) = '<' :: '!' :: '-' :: '-' :: (content.toList ++ closeMark) := by
  simp [written, pieces, write, Piece.written, closeMark]

/-- Nothing comes behind, or a bracket does. -/
def Ends (behind : List Char) : Prop := ∀ c ∈ behind.head?, c = '<'

/-- Nothing comes behind, or an end tag does. -/
def Closes (behind : List Char) : Prop := behind = [] ∨ ∃ more, behind = '<' :: '/' :: more

theorem Closes.ends {behind : List Char} (h : Closes behind) : Ends behind := by
  rintro c hc
  rcases h with rfl | ⟨more, rfl⟩
  · cases hc
  · exact (Option.some.inj hc).symm

theorem closes_endTag (tag : String) (s : List Char) :
    Closes ('<' :: '/' :: (tag.toList ++ ['>']) ++ s) := .inr ⟨_, rfl⟩

/-- An element begins with a bracket and a letter. -/
theorem written_element_ne {tag : String} {c : Char} (h : IsTag tag) (hc : Unicode.isLetter c = false)
    (attributes : List (String × String)) (children : List Fragment) (s t : List Char) :
    written (.element tag attributes children) ++ s ≠ '<' :: c :: t := by
  obtain ⟨-, d, rest, htag, hletter⟩ := h
  intro heq
  rw [written_element, startChars, htag] at heq
  simp only [List.cons_append, List.cons.injEq, true_and] at heq
  rw [heq.1, hc] at hletter
  cases hletter

/-- A text begins with no bracket. -/
theorem exists_written_text {content : String} (h : content ≠ "") :
    ∃ c rest, written (.text content) = c :: rest ∧ c ≠ '<' := by
  obtain ⟨d, more, hcontent⟩ := List.exists_cons_of_ne_nil (mt String.toList_eq_nil_iff.mp h)
  have hnone := (Piece.not_mem_escapeInText d).1
  have hback := Piece.unescape_escapeInText d []
  rw [written_text, hcontent, List.flatMap_cons]
  generalize Piece.escapeInText d = escaped at hnone hback
  cases escaped with
  | nil => cases hback
  | cons c rest => exact ⟨c, _, rfl, fun hsame => hnone (hsame ▸ List.mem_cons_self)⟩

theorem written_text_ne {content : String} (h : content ≠ "") (s t : List Char) :
    written (.text content) ++ s ≠ '<' :: t := by
  obtain ⟨c, rest, hwritten, hc⟩ := exists_written_text h
  rw [hwritten]
  exact fun heq => hc (List.cons.inj heq).1

/-- Whatever is no text begins with a bracket. -/
theorem exists_written {fragment : Fragment} (hbare : Bare fragment) (h : fragment.isText = false) :
    ∃ rest, written fragment = '<' :: rest := by
  cases fragment with
  | element tag attributes children => exact ⟨_, written_element tag attributes children⟩
  | text content => cases h
  | comment content => exact ⟨_, written_comment content⟩
  | anchor name children => exact hbare.elim

/-- Whatever is written begins, and not with an end tag. -/
theorem not_closes_written {fragment : Fragment} (hbare : Bare fragment) (h : Readable fragment)
    (s : List Char) : ¬ Closes (written fragment ++ s) := by
  rintro (hnil | ⟨t, hclose⟩)
  · cases fragment with
    | element tag attributes children =>
        rw [written_element, startChars] at hnil
        cases hnil
    | text content =>
        obtain ⟨c, rest, hwritten, -⟩ := exists_written_text hbare
        rw [hwritten] at hnil
        cases hnil
    | comment content =>
        rw [written_comment] at hnil
        cases hnil
    | anchor name children => exact hbare.elim
  · cases fragment with
    | element tag attributes children =>
        exact written_element_ne h.1 (by decide) attributes children s t hclose
    | text content => exact written_text_ne hbare s _ hclose
    | comment content =>
        rw [written_comment] at hclose
        simp at hclose
    | anchor name children => exact hbare.elim

theorem ends_writtenAll {fragments : List Fragment} {s : List Char} (hbare : AllBare fragments)
    (hbegins : beginsWithText fragments = false) (hs : Closes s) : Ends (writtenAll fragments ++ s) := by
  cases fragments with
  | nil => exact hs.ends
  | cons first rest =>
      obtain ⟨more, hfirst⟩ := exists_written hbare.1 hbegins
      rw [writtenAll_cons, hfirst]
      exact fun c hc => (Option.some.inj hc).symm

/-- Where a fragment ends is seen on what is written, and so is what it is. A text needs to know that
no other text comes behind it. -/
def Told (fragment : Fragment) : Prop :=
  ∀ (other : Fragment) (s t : List Char), Bare fragment → Bare other → Readable fragment →
    Readable other → (fragment.isText = true → Ends s) → (other.isText = true → Ends t) →
    written fragment ++ s = written other ++ t → fragment = other ∧ s = t

/-- Where fragments in a row end is seen on what is written, and so is what they are. -/
def AllTold (fragments : List Fragment) : Prop :=
  ∀ (others : List Fragment) (s t : List Char), AllBare fragments → AllBare others →
    AllReadable fragments → AllReadable others → Closes s → Closes t →
    writtenAll fragments ++ s = writtenAll others ++ t → fragments = others ∧ s = t

theorem told_element {children : List Fragment} (hchildren : AllTold children) (tag : String)
    (attributes : List (String × String)) : Told (.element tag attributes children) := by
  intro other s t hbare hbare' h h' _ _ heq
  cases other with
  | element tag' attributes' children' =>
      rw [written_element, written_element, List.append_assoc, List.append_assoc] at heq
      obtain ⟨rfl, rfl, hinside⟩ := startChars_append_inj h.1 h'.1 h.2.1 h'.2.1 heq
      -- Now the tags are the same, so both elements are void or neither is.
      cases hvoid : isVoid tag with
      | true =>
          rw [insideChars, insideChars, if_pos hvoid, if_pos hvoid] at hinside
          rw [hbare.1 hvoid, hbare'.1 hvoid]
          exact ⟨rfl, hinside⟩
      | false =>
          have hnot : ¬ isVoid tag = true := Bool.eq_false_iff.mp hvoid
          rw [insideChars, insideChars, if_neg hnot, if_neg hnot, List.append_assoc,
            List.append_assoc] at hinside
          obtain ⟨rfl, hend⟩ := hchildren children' _ _ hbare.2 hbare'.2 (h.2.2 hnot)
            (h'.2.2 hnot) (closes_endTag tag s) (closes_endTag tag t) hinside
          exact ⟨rfl, List.append_cancel_left hend⟩
  | text content =>
      obtain ⟨more, hfront⟩ := exists_written hbare rfl
      rw [hfront] at heq
      exact absurd heq.symm (written_text_ne hbare' t _)
  | comment content =>
      rw [written_comment] at heq
      exact absurd heq (written_element_ne h.1 (by decide) attributes children s _)
  | anchor name children' => exact hbare'.elim

theorem told_text (content : String) : Told (.text content) := by
  intro other s t hbare hbare' _ _ hs ht heq
  cases hother : other.isText with
  | true =>
      cases other with
      | text content' =>
          rw [written_text, written_text] at heq
          obtain ⟨rfl, hbehind⟩ := escaped_append_inj Piece.unescape_escapeInText
            (fun c => (Piece.not_mem_escapeInText c).1) (hs rfl) (ht rfl) heq
          exact ⟨rfl, hbehind⟩
      | _ => cases hother
  | false =>
      obtain ⟨more, hfront⟩ := exists_written hbare' hother
      rw [hfront] at heq
      exact absurd heq (written_text_ne hbare s _)

theorem told_comment (content : String) : Told (.comment content) := by
  intro other s t _ hbare' h h' _ _ heq
  cases other with
  | element tag attributes children =>
      rw [written_comment] at heq
      exact absurd heq.symm (written_element_ne h'.1 (by decide) attributes children t _)
  | text content' =>
      rw [written_comment] at heq
      exact absurd heq.symm (written_text_ne hbare' t _)
  | comment content' =>
      rw [written_comment, written_comment] at heq
      simp only [List.cons_append, List.append_assoc, List.cons.injEq, true_and] at heq
      obtain ⟨hsame, hbehind⟩ := append_inj_of_closeMark h h' heq
      exact ⟨congrArg _ (String.toList_inj.mp hsame), hbehind⟩
  | anchor name children => exact hbare'.elim

theorem allTold_nil : AllTold [] := by
  intro others s t _ hbare _ h hs _ heq
  cases others with
  | nil => exact ⟨rfl, heq⟩
  | cons other more =>
      rw [writtenAll_nil, List.nil_append, writtenAll_cons, List.append_assoc] at heq
      exact absurd (heq ▸ hs) (not_closes_written hbare.1 h.1 _)

theorem allTold_cons {fragment : Fragment} {rest : List Fragment} (hfirst : Told fragment)
    (hrest : AllTold rest) : AllTold (fragment :: rest) := by
  intro others s t hbare hbare' h h' hs ht heq
  rw [writtenAll_cons, List.append_assoc] at heq
  cases others with
  | nil =>
      rw [writtenAll_nil, List.nil_append] at heq
      exact absurd (heq.symm ▸ ht) (not_closes_written hbare.1 h.1 _)
  | cons other more =>
      rw [writtenAll_cons, List.append_assoc] at heq
      obtain ⟨rfl, hbehind⟩ := hfirst other _ _ hbare.1 hbare'.1 h.1 h'.1
        (fun htext => ends_writtenAll hbare.2.2 (hbare.2.1 htext) hs)
        (fun htext => ends_writtenAll hbare'.2.2 (hbare'.2.1 htext) ht) heq
      obtain ⟨rfl, hsame⟩ := hrest more s t hbare.2.2 hbare'.2.2 h.2 h'.2 hs ht hbehind
      exact ⟨rfl, hsame⟩

mutual

theorem told : ∀ fragment : Fragment, Told fragment
  | .element tag attributes children => told_element (allTold children) tag attributes
  | .text content => told_text content
  | .comment content => told_comment content
  | .anchor _ _ => fun _ _ _ hbare => hbare.elim

theorem allTold : ∀ fragments : List Fragment, AllTold fragments
  | [] => allTold_nil
  | fragment :: rest => allTold_cons (told fragment) (allTold rest)

end

/-- Fragments whose names are names, and whose comments do not say what closes a comment, have the same
HTML exactly if they are the same apart from what HTML does not show, whatever their texts, values and
comments say. -/
theorem html_eq_iff {fragments others : List Fragment} (h : AllReadable fragments)
    (h' : AllReadable others) : html fragments = html others ↔ erased fragments = erased others := by
  constructor
  · intro heq
    rw [← html_erased fragments, ← html_erased others, ← String.toList_inj] at heq
    refine (allTold (erased fragments) (erased others) [] [] (allBare_erased _) (allBare_erased _)
      (h.eraseAll trivial) (h'.eraseAll trivial) (.inl rfl) (.inl rfl) ?_).1
    rw [List.append_nil, List.append_nil]
    exact heq
  · intro heq
    rw [← html_erased fragments, heq, html_erased]

/-- An item with a value, texts and a comment that look like markup, and a line break with something
below it. -/
def disguised : List Fragment :=
  [.element "li" [("title", "\"></li><!--")] [.anchor "child" [.text "</li", .text ">&lt;"], .text ""],
    .comment "<b>--", .element "BR" [] [.text "x"]]

/-- The same without what HTML does not show. -/
def undisguised : List Fragment :=
  [.element "li" [("title", "\"></li><!--")] [.text "</li>&lt;"], .comment "<b>--", .element "BR" [] []]

theorem disguised_told_apart : AllReadable disguised ∧ AllReadable undisguised ∧
    html disguised = html undisguised ∧ erased disguised = erased undisguised := by
  have hli : IsTag "li" := ⟨by simp [IsName], _, _, rfl, by decide⟩
  have hbr : IsTag "BR" := ⟨by simp [IsName], _, _, rfl, by decide⟩
  have htitle : ∀ entry ∈ [("title", "\"></li><!--")], IsName entry.1 := by simp [IsName]
  have hcomment : Readable (.comment "<b>--") := by
    rw [Readable]
    decide
  have hreadable : AllReadable disguised :=
    ⟨⟨hli, htitle, fun _ => ⟨⟨trivial, trivial, trivial⟩, trivial, trivial⟩⟩, hcomment,
      ⟨hbr, by simp, fun _ => ⟨trivial, trivial⟩⟩, trivial⟩
  have hreadable' : AllReadable undisguised :=
    ⟨⟨hli, htitle, fun _ => ⟨trivial, trivial⟩⟩, hcomment, ⟨hbr, by simp, fun _ => trivial⟩, trivial⟩
  have hhtml : html disguised = html undisguised := by decide +kernel
  exact ⟨hreadable, hreadable', hhtml, (html_eq_iff hreadable hreadable').mp hhtml⟩

/-- A comment that says the mark which closes it is read as two comments and what is between them. -/
theorem comment_read_as_element :
    let comment : List Fragment := [.comment "a--><b></b><!--c"]
    let others : List Fragment := [.comment "a", .element "b" [] [], .comment "c"]
    IsTag "b" ∧ html comment = html others ∧ erased comment ≠ erased others := by
  refine ⟨⟨by simp [IsName], _, _, rfl, by decide⟩, by decide +kernel, fun heq => ?_⟩
  simp [erased, eraseAll, erase] at heq

end ReactiveMarkup.Fragment
