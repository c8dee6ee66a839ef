import ReactiveMarkup.Unicode.Case

/-!
# Lower case is final

Ids are compared in lower case, and they are made small wherever they come in, also when they were
small before. That is harmless because a text in lower case stays as it is. The sigma is what makes
this a fact about characters and not about texts: which small sigma a capital becomes depends on what
stands around it, but both of them stay as they are anywhere.

That no small form has a small form of its own is checked on the tables, for every two runs and not
for every character: the small forms of a run lie outside of any other run, or between its members.
-/

namespace ReactiveMarkup.Unicode

/-- The characters that a run moves come to lie between these two. -/
def CaseRun.low (run : CaseRun) : Nat := (run.first + run.shift).toNat

@[inherit_doc CaseRun.low] def CaseRun.high (run : CaseRun) : Nat := (run.last + run.shift).toNat

/-- Whether the characters that a run moves come to lie outside of a range. -/
def CaseRun.avoids (run : CaseRun) (first last : Nat) : Bool :=
  run.high.blt first || Nat.blt last run.low

/-- Whether a run moves nothing to a member of another one. -/
def CaseRun.misses (run other : CaseRun) : Bool :=
  run.avoids other.first other.last ||
    other.step == 2 && (run.step == 2 || run.first == run.last) &&
      (run.low + other.first) % 2 == 1

/-- Whether a run leads to characters that are small, as far as some tables tell. -/
def CaseRun.isFinal (runs : List CaseRun) (run : CaseRun) : Bool :=
  0 ≤ run.first + run.shift && run.high < 0x110000 && run.avoids 0xD800 0xDFFF &&
    run.avoids 0x130 0x130 && run.avoids 0x3A3 0x3A3 && runs.all run.misses

theorem lowerRuns_final : ∀ run ∈ lowerRuns, run.isFinal lowerRuns = true := by decide +kernel

section

variable {run other : CaseRun} {code : Nat}

theorem CaseRun.holds_iff : run.holds code = true ↔
    run.first ≤ code ∧ code ≤ run.last ∧ (code - run.first) % run.step = 0 := by
  simp [holds, and_assoc]

theorem CaseRun.avoids_spec {first last : Nat} (h : run.avoids first last = true)
    (hcode : run.holds code = true) :
    (code + run.shift).toNat < first ∨ last < (code + run.shift).toNat := by
  obtain ⟨hfirst, hlast, -⟩ := holds_iff.mp hcode
  simp only [avoids, low, high, Bool.or_eq_true, Nat.blt_eq] at h
  omega

theorem CaseRun.misses_spec (hlow : 0 ≤ run.first + run.shift) (h : run.misses other = true)
    (hcode : run.holds code = true) : other.holds (code + run.shift).toNat = false := by
  rw [misses, Bool.or_eq_true] at h
  rw [← Bool.not_eq_true, holds_iff]
  rintro ⟨hotherFirst, hotherLast, hother⟩
  rcases h with havoids | hbetween
  · have houtside := avoids_spec havoids hcode
    omega
  · obtain ⟨hfirst, hlast, hrun⟩ := holds_iff.mp hcode
    simp only [low, Bool.and_eq_true, Bool.or_eq_true, beq_iff_eq] at hbetween
    obtain ⟨⟨hstep, hpace⟩, hodd⟩ := hbetween
    rw [hstep] at hother
    rcases hpace with htwo | hone
    · rw [htwo] at hrun
      omega
    · omega

end

theorem moveCase?_eq_some {runs : List CaseRun} {code small : Nat}
    (h : moveCase? runs code = some small) :
    ∃ run ∈ runs, run.holds code = true ∧ small = (code + run.shift).toNat := by
  induction runs with
  | nil => cases h
  | cons run rest ih =>
      rw [moveCase?] at h
      split at h
      · cases h
      · split at h
        · next hholds => exact ⟨run, List.mem_cons_self, hholds, (Option.some.inj h).symm⟩
        · obtain ⟨other, hother, hmoved⟩ := ih h
          exact ⟨other, List.mem_cons_of_mem _ hother, hmoved⟩

theorem moveCase?_eq_none {runs : List CaseRun} {code : Nat}
    (h : ∀ run ∈ runs, run.holds code = false) : moveCase? runs code = none := by
  cases hmoved : moveCase? runs code with
  | none => rfl
  | some small =>
      obtain ⟨run, hrun, hholds, -⟩ := moveCase?_eq_some hmoved
      rw [h run hrun] at hholds
      cases hholds

/-- Whether a character stays as it is in lower case, wherever it stands. -/
def IsSmall (c : Char) : Prop := c.toNat ≠ 0x3A3 ∧ lowerChar c = [c]

instance (c : Char) : Decidable (IsSmall c) := inferInstanceAs (Decidable (_ ∧ _))

/-- What a run leads to is the number of a character. -/
theorem toNat_of_moveCase? {code small : Nat} (h : moveCase? lowerRuns code = some small) :
    (Char.ofNat small).toNat = small := by
  obtain ⟨run, hrun, hcode, rfl⟩ := moveCase?_eq_some h
  have hfinal := lowerRuns_final run hrun
  simp only [CaseRun.isFinal, Bool.and_eq_true, decide_eq_true_eq] at hfinal
  obtain ⟨⟨⟨⟨⟨hlow, hhigh⟩, hsurrogate⟩, -⟩, -⟩, -⟩ := hfinal
  obtain ⟨hfirst, hlast, -⟩ := CaseRun.holds_iff.mp hcode
  have houtside := CaseRun.avoids_spec hsurrogate hcode
  have hvalid : (code + run.shift).toNat.isValidChar := by
    rw [CaseRun.high] at hhigh
    rw [Nat.isValidChar]
    omega
  rw [Char.ofNat, dif_pos hvalid]
  rfl

theorem isSmall_of_moveCase? {code small : Nat} (h : moveCase? lowerRuns code = some small) :
    IsSmall (Char.ofNat small) := by
  have hcharacter := toNat_of_moveCase? h
  obtain ⟨run, hrun, hcode, rfl⟩ := moveCase?_eq_some h
  have hfinal := lowerRuns_final run hrun
  simp only [CaseRun.isFinal, Bool.and_eq_true, decide_eq_true_eq, List.all_eq_true] at hfinal
  obtain ⟨⟨⟨⟨⟨hlow, -⟩, -⟩, hdotted⟩, hsigma⟩, hmisses⟩ := hfinal
  refine ⟨?_, ?_⟩
  · have := CaseRun.avoids_spec hsigma hcode
    omega
  · have := CaseRun.avoids_spec hdotted hcode
    rw [lowerChar, if_neg (by omega), hcharacter,
      moveCase?_eq_none fun other hother => CaseRun.misses_spec hlow (hmisses other hother) hcode]

theorem isSmall_of_mem_lowerChar {c small : Char} (hsigma : c.toNat ≠ 0x3A3)
    (h : small ∈ lowerChar c) : IsSmall small := by
  rw [lowerChar] at h
  split at h
  · have hletter : IsSmall (Char.ofNat 0x69) := by decide +kernel
    have hdot : IsSmall (Char.ofNat 0x307) := by decide +kernel
    rcases List.mem_cons.mp h with rfl | h
    · exact hletter
    · rw [List.mem_singleton.mp h]
      exact hdot
  · next hdotted =>
      split at h
      · next code hmove =>
          rw [List.mem_singleton.mp h]
          exact isSmall_of_moveCase? hmove
      · next hmove =>
          obtain rfl : small = c := List.mem_singleton.mp h
          refine ⟨hsigma, ?_⟩
          rw [lowerChar, if_neg hdotted, hmove]

theorem isSmall_of_mem_lowerAfter {before text : List Char} {small : Char}
    (h : small ∈ lowerAfter before text) : IsSmall small := by
  induction text generalizing before with
  | nil => cases h
  | cons c rest ih =>
      rw [lowerAfter] at h
      rcases List.mem_append.mp h with hhere | hrest
      · split at hhere
        · split at hhere
          · rw [List.mem_singleton.mp hhere]
            decide +kernel
          · rw [List.mem_singleton.mp hhere]
            decide +kernel
        · next hsigma => exact isSmall_of_mem_lowerChar hsigma hhere
      · exact ih hrest

theorem lowerAfter_of_small {text : List Char} (h : ∀ c ∈ text, IsSmall c) (before : List Char) :
    lowerAfter before text = text := by
  induction text generalizing before with
  | nil => rfl
  | cons c rest ih =>
      obtain ⟨hsigma, hsame⟩ := h c List.mem_cons_self
      rw [lowerAfter, if_neg hsigma, hsame, ih fun c hc => h c (List.mem_cons_of_mem _ hc)]
      rfl

/-- A text in lower case stays as it is. -/
@[simp] theorem lower_lower (text : String) : lower (lower text) = lower text := by
  rw [lower, lower, String.toList_ofList,
    lowerAfter_of_small fun _ hc => isSmall_of_mem_lowerAfter hc]

end ReactiveMarkup.Unicode
