import ReactiveMarkup.Pattern.Search

/-!
# Where a match lies

A match lies in the text that is searched: it does not begin before the place where the search
begins, does not end before it begins, and does not end behind the text. The threads stand at one
position at a time, which moves on by one with each character, so it is enough that a match noted on
the way ends between the position where the threads began and the one they have come to.
-/

namespace ReactiveMarkup

namespace Program

/-- The match found so far ends between two positions. -/
def EndsIn (first last : Nat) (best : Option (Nat × Groups)) : Prop :=
  ∀ found, best = some found → first ≤ found.1 ∧ found.1 ≤ last

theorem EndsIn.note {first position : Nat} {best : Option (Nat × Groups)}
    (h : EndsIn first position best) (hfirst : first ≤ position) (accepted : Option Groups) :
    EndsIn first position (match accepted with
      | some groups => some (position, groups)
      | none => best) := by
  cases accepted with
  | some groups =>
      rintro found hfound
      obtain rfl := Option.some.inj hfound
      exact ⟨hfirst, Nat.le_refl position⟩
  | none => exact h

theorem EndsIn.mono {first last further : Nat} {best : Option (Nat × Groups)}
    (h : EndsIn first last best) (hle : last ≤ further) : EndsIn first further best :=
  fun found hfound => ⟨(h found hfound).1, Nat.le_trans (h found hfound).2 hle⟩

/-- A match ends where the threads were at some time. -/
theorem endsIn_follow {program : Program} {best : Option (Nat × Groups)} {before : Option Char}
    {position first : Nat} {threads : List Thread} (text : List Char)
    (h : EndsIn first position best) (hfirst : first ≤ position) :
    EndsIn first (position + text.length) (program.follow best before position threads text) := by
  induction text generalizing best before position threads with
  | nil => exact h.note hfirst _
  | cons c rest ih =>
      have hnoted := h.note hfirst
      rw [follow]
      split
      · exact (hnoted _).mono (Nat.le_add_right _ _)
      · rw [List.length_cons, Nat.add_comm rest.length, ← Nat.add_assoc]
        exact ih ((hnoted _).mono (Nat.le_succ _)) (Nat.le_succ_of_le hfirst)

end Program

namespace Pattern

variable {pattern : Pattern} {before : Option Char} {position : Nat} {text : List Char}
  {found : Match}

theorem bounds_matchAt (h : pattern.matchAt before position text = some found) :
    found.start = position ∧ position ≤ found.stop ∧ found.stop ≤ position + text.length := by
  rw [matchAt] at h
  split at h
  · next stop groups hfollow =>
      obtain rfl := Option.some.inj h
      have hnone : Program.EndsIn position position none := by
        intro found hfound
        cases hfound
      exact ⟨rfl, Program.endsIn_follow text hnone (Nat.le_refl _) _ hfollow⟩
  · cases h

theorem bounds_findFrom (h : pattern.findFrom before position text = some found) :
    position ≤ found.start ∧ found.start ≤ found.stop ∧ found.stop ≤ position + text.length := by
  induction text generalizing before position with
  | nil =>
      obtain ⟨hstart, hstop⟩ := bounds_matchAt h
      rw [hstart]
      exact ⟨Nat.le_refl _, hstop⟩
  | cons c rest ih =>
      rw [findFrom] at h
      split at h
      · next hhere =>
          obtain rfl := Option.some.inj h
          obtain ⟨hstart, hstop⟩ := bounds_matchAt hhere
          rw [hstart]
          exact ⟨Nat.le_refl _, hstop⟩
      · obtain ⟨hlow, hmiddle, hhigh⟩ := ih h
        rw [List.length_cons]
        exact ⟨by omega, hmiddle, by omega⟩

/-- A match in a text lies in it. -/
theorem bounds_find (h : pattern.find text = some found) :
    found.start ≤ found.stop ∧ found.stop ≤ text.length := by
  obtain ⟨-, hmiddle, hhigh⟩ := bounds_findFrom h
  rw [Nat.zero_add] at hhigh
  exact ⟨hmiddle, hhigh⟩

end Pattern

end ReactiveMarkup
