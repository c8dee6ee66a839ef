import ReactiveMarkup.Markup.Template
import ReactiveMarkup.Proofs.Pattern.Bounds

/-!
# All matches in a text

A search for all matches goes on where the last match ended, with an eye to the character before: a
pattern may ask for a word boundary there. So what is found is stated with places in the whole text,
and without the search. `Sweep` takes from all matches there are the leftmost that may follow the last
one, and goes on behind it. A match may follow if it begins where the last one ended or later, and an
empty one not right where it ended.

Filling in a row goes by such a sweep: the text is cut into what matched and what is between, only what
matched is replaced, and what it is replaced by is never looked at again.
-/

namespace ReactiveMarkup

namespace Pattern

/-- The match at a place of a text. -/
def matchIn (pattern : Pattern) (text : List Char) (position : Nat) : Option Match :=
  pattern.matchAt (text.take position).getLast? position (text.drop position)

/-- A match in a text that may follow one that ended at a place. -/
structure Candidate (pattern : Pattern) (text : List Char) (last : Option Nat) (found : Match) :
    Prop where
  holds : pattern.matchIn text found.start = some found
  within : found.start ≤ text.length
  behind : ∀ stop ∈ last, stop ≤ found.start
  onward : ∀ stop ∈ last, found.stop ≠ stop

/-- The leftmost matches in a text that do not overlap, from left to right. -/
inductive Sweep (pattern : Pattern) (text : List Char) : Option Nat → List Match → Prop
  | done {last : Option Nat} (none : ∀ found, ¬pattern.Candidate text last found) :
      Sweep pattern text last []
  | next {last : Option Nat} {found : Match} {rest : List Match}
      (candidate : pattern.Candidate text last found)
      (leftmost : ∀ other, pattern.Candidate text last other → found.start ≤ other.start)
      (later : Sweep pattern text (some found.stop) rest) : Sweep pattern text last (found :: rest)

variable {pattern : Pattern} {text : List Char} {last : Option Nat} {position : Nat}
  {found other : Match}

/-! ## Candidates -/

theorem bounds_matchIn (h : pattern.matchIn text position = some found)
    (hposition : position ≤ text.length) :
    found.start = position ∧ position ≤ found.stop ∧ found.stop ≤ text.length := by
  obtain ⟨hstart, hstop, hlength⟩ := bounds_matchAt h
  rw [List.length_drop, Nat.add_sub_cancel' hposition] at hlength
  exact ⟨hstart, hstop, hlength⟩

theorem Candidate.bounds (h : pattern.Candidate text last found) :
    found.start ≤ found.stop ∧ found.stop ≤ text.length :=
  (bounds_matchIn h.holds h.within).2

theorem Candidate.ne_none (h : pattern.Candidate text last found) :
    pattern.matchIn text found.start ≠ none := by
  rw [h.holds]
  exact Option.some_ne_none found

/-- Two candidates that begin at one place are the same. -/
theorem Candidate.eq (h : pattern.Candidate text last found)
    (h' : pattern.Candidate text last other) (hstart : found.start = other.start) :
    found = other := by
  have hfound := h.holds
  rw [hstart, h'.holds] at hfound
  exact (Option.some.inj hfound).symm

theorem Sweep.unique {swept others : List Match} (h : pattern.Sweep text last swept)
    (h' : pattern.Sweep text last others) : others = swept := by
  induction h generalizing others with
  | done none =>
      cases h' with
      | done => rfl
      | next candidate => exact absurd candidate (none _)
  | next candidate leftmost later ih =>
      cases h' with
      | done none => exact absurd candidate (none _)
      | next candidate' leftmost' later' =>
          have hstart := Nat.le_antisymm (leftmost' _ candidate) (leftmost _ candidate')
          obtain rfl := candidate.eq candidate' hstart.symm
          rw [ih later']

/-! ## The search -/

/-- At the end of a text, a search finds the match there. -/
theorem findFrom_end (pattern : Pattern) (text : List Char) :
    pattern.findFrom (text.take text.length).getLast? text.length (text.drop text.length) =
      pattern.matchIn text text.length := by
  rw [matchIn, List.drop_length, findFrom]

/-- Before the end, a search finds the match at its place, or goes on behind the next character. -/
theorem findFrom_step (pattern : Pattern) (hlt : position < text.length) :
    pattern.findFrom (text.take position).getLast? position (text.drop position) =
      (pattern.matchIn text position).or (pattern.findFrom
        (text.take (position + 1)).getLast? (position + 1) (text.drop (position + 1))) := by
  have hbefore : (text.take (position + 1)).getLast? = some text[position] := by
    rw [List.take_succ_eq_append_getElem hlt, List.getLast?_concat]
  rw [hbefore, matchIn, List.drop_eq_getElem_cons hlt, findFrom]
  cases pattern.matchAt (text.take position).getLast? position
    (text[position] :: text.drop (position + 1)) <;> rfl

/-- A search from a place on finds the first match there or behind it. -/
theorem findFrom_cases (pattern : Pattern) (hposition : position ≤ text.length) :
    (∃ found, pattern.findFrom (text.take position).getLast? position (text.drop position) =
        some found ∧
      position ≤ found.start ∧ found.start ≤ text.length ∧
      pattern.matchIn text found.start = some found ∧
      ∀ earlier, position ≤ earlier → earlier < found.start →
        pattern.matchIn text earlier = none) ∨
    pattern.findFrom (text.take position).getLast? position (text.drop position) = none ∧
      ∀ later, position ≤ later → later ≤ text.length → pattern.matchIn text later = none := by
  induction hleft : text.length - position generalizing position with
  | zero =>
      obtain rfl : position = text.length := by omega
      rw [findFrom_end]
      cases hmatch : pattern.matchIn text text.length with
      | none =>
          refine .inr ⟨rfl, fun later hlow hhigh => ?_⟩
          rwa [Nat.le_antisymm hhigh hlow]
      | some found =>
          have hstart := (bounds_matchIn hmatch (Nat.le_refl _)).1
          refine .inl ⟨found, rfl, Nat.le_of_eq hstart.symm, Nat.le_of_eq hstart, ?_, ?_⟩
          · rw [hstart, hmatch]
          · intro earlier hlow hlt
            omega
  | succ left ih =>
      have hlt : position < text.length := by omega
      rw [findFrom_step pattern hlt]
      cases hmatch : pattern.matchIn text position with
      | some found =>
          have hstart := (bounds_matchIn hmatch hposition).1
          refine .inl ⟨found, rfl, Nat.le_of_eq hstart.symm, by omega, ?_, ?_⟩
          · rw [hstart, hmatch]
          · intro earlier hlow hearlier
            omega
      | none =>
          rw [Option.none_or]
          rcases ih (show position + 1 ≤ text.length from hlt) (by omega) with
            ⟨found, hfound, hlow, hhigh, hhere, hnone⟩ | ⟨hfound, hnone⟩
          · refine .inl ⟨found, hfound, by omega, hhigh, hhere, fun earlier hle hearlier => ?_⟩
            rcases Nat.eq_or_lt_of_le hle with rfl | hbehind
            · exact hmatch
            · exact hnone earlier hbehind hearlier
          · refine .inr ⟨hfound, fun later hle hlater => ?_⟩
            rcases Nat.eq_or_lt_of_le hle with rfl | hbehind
            · exact hmatch
            · exact hnone later hbehind hlater

theorem skip_within (count : Nat) (h : position + count ≤ text.length) :
    Cursor.skip ⟨(text.take position).getLast?, position, text.drop position⟩ count =
      ⟨(text.take (position + count)).getLast?, position + count, text.drop (position + count)⟩ := by
  induction count generalizing position with
  | zero => rw [Cursor.skip, Nat.add_zero]
  | succ count ih =>
      have hlt : position < text.length := by omega
      have hnext := ih (show position + 1 + count ≤ text.length by omega)
      rw [List.take_succ_eq_append_getElem hlt, List.getLast?_concat, Nat.add_right_comm,
        Nat.add_assoc] at hnext
      rw [List.drop_eq_getElem_cons hlt, Cursor.skip]
      exact hnext

/-- A search that has come to a place has left no match behind that may follow the last one. -/
structure Reached (pattern : Pattern) (text : List Char) (last : Option Nat) (position : Nat) :
    Prop where
  within : position ≤ text.length
  behind : ∀ stop ∈ last, stop ≤ position
  ahead : ∀ found, pattern.Candidate text last found → position ≤ found.start

theorem Reached.after (h : pattern.Candidate text last found) :
    pattern.Reached text (some found.stop) found.stop where
  within := h.bounds.2
  behind _ hstop := Nat.le_of_eq (Option.some.inj hstop).symm
  ahead _ hother := hother.behind _ rfl

/-- A match may follow unless it is empty and right where the last one ended. -/
theorem Reached.candidate (h : pattern.Reached text last position)
    (hhere : pattern.matchIn text found.start = some found) (hwithin : found.start ≤ text.length)
    (hlow : position ≤ found.start)
    (hallowed : found.start = found.stop → some found.stop ≠ last) :
    pattern.Candidate text last found := by
  have hle := (bounds_matchIn hhere hwithin).2.1
  refine ⟨hhere, hwithin, fun stop hstop => Nat.le_trans (h.behind stop hstop) hlow, ?_⟩
  rintro stop hstop rfl
  have hback := h.behind _ hstop
  exact hallowed (by omega) hstop.symm

/-- An empty match right where the last one ended is the only one at its place. -/
theorem Reached.pass (h : pattern.Reached text (some found.stop) position)
    (hhere : pattern.matchIn text found.start = some found) (hlow : position ≤ found.start)
    (hempty : found.start = found.stop) :
    position = found.stop ∧
      ∀ other, pattern.Candidate text (some found.stop) other → position < other.start := by
  have hback := h.behind _ rfl
  obtain rfl : position = found.start := by omega
  refine ⟨hempty, fun other hother => Nat.lt_of_le_of_ne (h.ahead other hother) fun heq => ?_⟩
  have hsame := hother.holds
  rw [← heq, hhere] at hsame
  exact hother.onward found.stop rfl (by rw [Option.some.inj hsame])

/-- The search for all matches sweeps the text. A match that is not empty takes it on, an empty one
lets the next step pass over the same place: so it comes to the end in two steps a character. -/
theorem sweep_findAllFrom (fuel : Nat) (h : pattern.Reached text last position)
    (hfuel : 2 * (text.length - position) + (if last = some position then 0 else 1) < fuel) :
    pattern.Sweep text last (pattern.findAllFrom fuel last
      ⟨(text.take position).getLast?, position, text.drop position⟩) := by
  induction fuel generalizing last position with
  | zero => exact absurd hfuel (Nat.not_lt_zero _)
  | succ fuel ih =>
      have hposition := h.within
      rw [findAllFrom]
      rcases findFrom_cases pattern hposition with
        ⟨found, hfound, hlow, hhigh, hhere, hnone⟩ | ⟨hfound, hnone⟩
      · simp only [hfound, Bool.and_eq_true, decide_eq_true_eq]
        split
        · next hempty =>
            obtain ⟨hempty, rfl⟩ := hempty
            obtain ⟨rfl, hpassed⟩ := h.pass hhere hlow hempty
            rw [if_pos rfl] at hfuel
            split
            · next hend =>
                have hdone := List.drop_eq_nil_iff.mp (List.isEmpty_iff.mp hend)
                refine .done fun other hother => ?_
                exact Nat.lt_irrefl _
                  (Nat.lt_of_lt_of_le (hpassed other hother) (Nat.le_trans hother.within hdone))
            · next hend =>
                have hlt : found.stop < text.length := Nat.lt_of_not_le fun hdone =>
                  hend (List.isEmpty_iff.mpr (List.drop_eq_nil_iff.mpr hdone))
                rw [skip_within 1 hlt]
                refine ih ⟨hlt, fun stop hin => Nat.le_succ_of_le (h.behind stop hin), hpassed⟩ ?_
                split <;> omega
        · next hallowed =>
            have hcandidate := h.candidate hhere hhigh hlow fun hempty hsame =>
              hallowed ⟨hempty, hsame⟩
            obtain ⟨hle, hstop⟩ := hcandidate.bounds
            have hskip : position + (found.stop - position) = found.stop := by omega
            rw [skip_within _ (by omega), hskip]
            refine .next hcandidate (fun other hother => ?_) (ih (.after hcandidate) ?_)
            · exact Nat.le_of_not_lt fun hearlier =>
                hother.ne_none (hnone other.start (h.ahead other hother) hearlier)
            · rw [if_pos rfl]
              split at hfuel
              · next hsome =>
                  have hmoved : found.stop ≠ position := fun heq =>
                    hallowed ⟨by omega, by rw [heq, hsome]⟩
                  omega
              · omega
      · simp only [hfound]
        exact .done fun other hother =>
          hother.ne_none (hnone other.start (h.ahead other hother) hother.within)

/-- All matches of a pattern are those of the sweep from the start. -/
theorem sweep_findAll (pattern : Pattern) (text : List Char) :
    pattern.Sweep text none (pattern.findAll text) := by
  have hstart : pattern.Reached text none 0 :=
    ⟨Nat.zero_le _, fun _ hstop => (Option.not_mem_none _ hstop).elim, fun _ _ => Nat.zero_le _⟩
  refine sweep_findAllFrom (2 * text.length + 2) hstart ?_
  rw [if_neg (by simp)]
  omega

end Pattern

/-! ## Filling in -/

namespace Template

/-- What a text is cut into by the matches in it. -/
inductive Span where
  | literal (text : String)
  | slot (column written : String)

namespace Span

/-- What was cut, as it was written. -/
def written : Span → String
  | .literal text => text
  | .slot _ written => written

/-- What is put for what was cut: the display text of the column for a slot, where the row has it. -/
def filled (row : Row) : Span → String
  | .literal text => text
  | .slot column written =>
    match row.get? column with
    | some value => value.display
    | none => written

end Span

/-- What a text from a place on is cut into. -/
def spans (text : List Char) : Nat → List Match → List Span
  | position, [] => [.literal (String.ofList (text.drop position))]
  | position, found :: later =>
    .literal (String.ofList ((text.drop position).take (found.start - position))) ::
      .slot (String.ofList ((found.group? text 1).getD []))
        (String.ofList ((text.drop found.start).take (found.stop - found.start))) ::
      spans text found.stop later

/-- A text with a row filled in: it is cut by the sweep, and the spans are put together again with
their columns. -/
def FilledIn (pattern : Pattern) (row : Row) (text filled : String) : Prop :=
  ∃ found, pattern.Sweep text.toList none found ∧
    String.join ((spans text.toList 0 found).map Span.written) = text ∧
    String.join ((spans text.toList 0 found).map (Span.filled row)) = filled

variable {pattern : Pattern} {row : Row} {text filled : String}

theorem join_filled (row : Row) (text : List Char) (position : Nat) (found : List Match) :
    String.join ((spans text position found).map (Span.filled row)) =
      String.ofList (fillFrom row text position found) := by
  induction found generalizing position with
  | nil => exact String.join_cons.trans String.append_empty
  | cons next later ih =>
      rw [spans, fillFrom, List.map_cons, List.map_cons, String.join_cons, String.join_cons, ih,
        String.ofList_append, String.ofList_append, String.append_assoc]
      refine congrArg (_ ++ ·) (congrArg (· ++ _) ?_)
      rw [Span.filled]
      cases row.get? (String.ofList ((next.group? text 1).getD [])) with
      | some value => exact String.ofList_toList.symm
      | none => rfl

/-- The spans of a sweep are the text. -/
theorem join_written {text : List Char} {last : Option Nat} {found : List Match}
    (h : pattern.Sweep text last found) :
    String.join ((spans text (last.getD 0) found).map Span.written) =
      String.ofList (text.drop (last.getD 0)) := by
  induction h with
  | done none => exact String.join_cons.trans String.append_empty
  | @next last found later candidate leftmost rest ih =>
      obtain ⟨hle, hstop⟩ := candidate.bounds
      have hback : last.getD 0 ≤ found.start := by
        cases last with
        | none => exact Nat.zero_le _
        | some stop => exact candidate.behind stop rfl
      rw [Option.getD_some] at ih
      rw [spans, List.map_cons, List.map_cons, String.join_cons, String.join_cons, ih]
      simp only [Span.written, ← String.ofList_append]
      have hslot : (text.drop found.start).take (found.stop - found.start) ++
          text.drop found.stop = text.drop found.start := by
        have hdrop : text.drop found.stop =
            (text.drop found.start).drop (found.stop - found.start) := by
          rw [List.drop_drop, Nat.add_sub_cancel' hle]
        rw [hdrop, List.take_append_drop]
      have hfront : text.drop found.start =
          (text.drop (last.getD 0)).drop (found.start - last.getD 0) := by
        rw [List.drop_drop, Nat.add_sub_cancel' hback]
      rw [hslot, hfront, List.take_append_drop]

/-- Filling in is what the sweep says, and nothing else is. -/
theorem filledIn_iff : FilledIn pattern row text filled ↔ filled = fill pattern row text := by
  have hsweep := pattern.sweep_findAll text.toList
  have hwritten := join_written hsweep
  rw [Option.getD_none, List.drop_zero, String.ofList_toList] at hwritten
  constructor
  · rintro ⟨found, hfound, -, rfl⟩
    rw [hsweep.unique hfound, join_filled]
    rfl
  · rintro rfl
    exact ⟨_, hsweep, hwritten, join_filled row _ 0 _⟩

end Template

end ReactiveMarkup
