import Mathlib.Data.List.Induction
import ReactiveMarkup.Proofs.Unicode.Lower
import ReactiveMarkup.Text

/-!
# Lower case of a part of a text

What a character becomes in lower case is no matter of its neighbours, but for the capital sigma. So the lower
case of a text made of two is that of its parts, except where the first one ends in a sigma, as a word may: such
a sigma is final for the part alone, and not final when a cased letter comes behind it in the other part.
Characters that are case-ignorable count neither as the end of a word nor as its continuation, and a full stop is
one of them.

What a character becomes is cased if the character is, and case-ignorable if the character is, so a text in lower
case is no other context for what stands behind it than the text that it was before.
-/

namespace ReactiveMarkup.Unicode

/-! ## Ranges -/

namespace Ranges

variable {ranges : Ranges} {code : Nat}

/-- Whether the ranges begin at a bound or behind it, each of them behind the end of the one before. -/
def ascends (below : Nat) : Ranges → Bool
  | [] => true
  | range :: rest => below.ble range.1 && range.1.ble range.2 && ascends (range.2 + 1) rest

variable {below : Nat} {range : Nat × Nat}

theorem ascends_cons {rest : Ranges} : ascends below (range :: rest) = true ↔
    below ≤ range.1 ∧ range.1 ≤ range.2 ∧ ascends (range.2 + 1) rest = true := by
  simp only [ascends, Bool.and_eq_true, Nat.ble_eq, and_assoc]

theorem le_of_ascends (h : ranges.ascends below = true) (hrange : range ∈ ranges) : below ≤ range.1 := by
  induction ranges generalizing below with
  | nil => cases hrange
  | cons other rest ih =>
      obtain ⟨hbelow, hother, hrest⟩ := ascends_cons.mp h
      rcases List.mem_cons.mp hrange with rfl | hmem
      · exact hbelow
      · have hbehind := ih hrest hmem
        omega

theorem covers_of_ascends (h : ranges.ascends below = true) (hrange : range ∈ ranges)
    (hfirst : range.1 ≤ code) (hlast : code ≤ range.2) : ranges.covers code = true := by
  induction ranges generalizing below with
  | nil => cases hrange
  | cons other rest ih =>
      obtain ⟨-, hother, hrest⟩ := ascends_cons.mp h
      rw [covers]
      rcases List.mem_cons.mp hrange with rfl | hmem
      · rw [if_neg (Nat.not_lt.mpr hfirst), if_pos hlast]
      · have hbehind := le_of_ascends hrest hmem
        rw [if_neg (by omega), if_neg (by omega)]
        exact ih hrest hmem

end Ranges

/-! ## What a run moves -/

/-- Whether one of the ranges covers everything between two code points. -/
def Ranges.spans (first last : Nat) : Ranges → Bool
  | [] => false
  | range :: rest => range.1.ble first && last.ble range.2 || spans first last rest

/-- Whether no range meets what is between two code points; the search stops at the first range behind. -/
def Ranges.avoids (first last : Nat) : Ranges → Bool
  | [] => true
  | range :: rest => last.blt range.1 || range.2.blt first && avoids first last rest

/-- Whether a run leads from cased characters to cased ones, none of them case-ignorable, and to no blank. -/
def CaseRun.keepsCasing (run : CaseRun) : Bool :=
  (casedRanges.spans run.first run.last ||
      (List.range' run.first (run.last + 1 - run.first)).all fun code =>
        !run.holds code || casedRanges.covers code) &&
    casedRanges.spans run.low run.high && caseIgnorableRanges.avoids run.first run.last &&
    caseIgnorableRanges.avoids run.low run.high && blankRanges.avoids run.low run.high

theorem lowerRuns_keepCasing : lowerRuns.all CaseRun.keepsCasing = true := by decide +kernel

theorem casedRanges_ascend : casedRanges.ascends 0 = true := by decide +kernel

namespace Ranges

variable {ranges : Ranges} {first last code : Nat}

theorem covers_of_spans (hordered : ranges.ascends 0 = true) (h : ranges.spans first last = true)
    (hfirst : first ≤ code) (hlast : code ≤ last) : ranges.covers code = true := by
  have hrange : ∃ range ∈ ranges, range.1 ≤ first ∧ last ≤ range.2 := by
    clear hordered
    induction ranges with
    | nil => cases h
    | cons range rest ih =>
        simp only [spans, Bool.or_eq_true, Bool.and_eq_true, Nat.ble_eq] at h
        rcases h with hhere | hrest
        · exact ⟨range, List.mem_cons_self, hhere⟩
        · obtain ⟨other, hother, hspans⟩ := ih hrest
          exact ⟨other, List.mem_cons_of_mem _ hother, hspans⟩
  obtain ⟨range, hrange, hspans⟩ := hrange
  exact covers_of_ascends hordered hrange (by omega) (by omega)

theorem covers_eq_false_of_avoids (h : ranges.avoids first last = true) (hfirst : first ≤ code)
    (hlast : code ≤ last) : ranges.covers code = false := by
  induction ranges with
  | nil => rfl
  | cons range rest ih =>
      simp only [avoids, Bool.or_eq_true, Bool.and_eq_true, Nat.blt_eq] at h
      rw [covers]
      rcases h with hbehind | ⟨hbefore, hrest⟩
      · rw [if_pos (by omega)]
      · rw [if_neg (by omega : ¬code ≤ range.2), ih hrest, ite_self]

end Ranges

/-! ## Casing -/

def isCased (c : Char) : Bool := casedRanges.covers c.toNat

def isIgnorable (c : Char) : Bool := caseIgnorableRanges.covers c.toNat

/-- A cased character that is not case-ignorable. Most letters with two cases are. -/
def IsLettered (c : Char) : Prop := isCased c = true ∧ isIgnorable c = false

instance (c : Char) : Decidable (IsLettered c) := inferInstanceAs (Decidable (_ ∧ _))

theorem isLettered_of_moveCase? {c : Char} {small : Nat} (h : moveCase? lowerRuns c.toNat = some small) :
    IsLettered c ∧ IsLettered (Char.ofNat small) ∧ isBlank (Char.ofNat small) = false := by
  have hcharacter := toNat_of_moveCase? h
  obtain ⟨run, hrun, hcode, rfl⟩ := moveCase?_eq_some h
  have hkeeps := List.all_eq_true.mp lowerRuns_keepCasing run hrun
  simp only [CaseRun.keepsCasing, Bool.and_eq_true, Bool.or_eq_true] at hkeeps
  obtain ⟨⟨⟨⟨hcased, hsmall⟩, hignorable⟩, hsmallIgnorable⟩, hblank⟩ := hkeeps
  obtain ⟨hfirst, hlast, -⟩ := CaseRun.holds_iff.mp hcode
  have hlow : run.low ≤ (c.toNat + run.shift).toNat := by
    rw [CaseRun.low]
    omega
  have hhigh : (c.toNat + run.shift).toNat ≤ run.high := by
    rw [CaseRun.high]
    omega
  refine ⟨⟨?_, Ranges.covers_eq_false_of_avoids hignorable hfirst hlast⟩, ⟨?_, ?_⟩, ?_⟩
  · rcases hcased with hspans | hmembers
    · exact Ranges.covers_of_spans casedRanges_ascend hspans hfirst hlast
    · have hmember := List.all_eq_true.mp hmembers c.toNat (List.mem_range'_1.mpr (by omega))
      rwa [hcode, Bool.not_true, Bool.false_or] at hmember
  · rw [isCased, hcharacter]
    exact Ranges.covers_of_spans casedRanges_ascend hsmall hlow hhigh
  · rw [isIgnorable, hcharacter]
    exact Ranges.covers_eq_false_of_avoids hsmallIgnorable hlow hhigh
  · rw [isBlank, hcharacter]
    exact Ranges.covers_eq_false_of_avoids hblank hlow hhigh

/-! ## Texts around a text -/

theorem nextIsCased_cons (c : Char) (rest : List Char) :
    nextIsCased (c :: rest) = if isIgnorable c then nextIsCased rest else isCased c := by
  rw [nextIsCased, List.dropWhile_cons]
  cases h : caseIgnorableRanges.covers c.toNat with
  | true => simp [isIgnorable, h, nextIsCased]
  | false => simp [isIgnorable, h, isCased]

theorem IsLettered.nextIsCased {c : Char} (h : IsLettered c) (rest : List Char) :
    nextIsCased (c :: rest) = true := by
  rw [nextIsCased_cons, h.2, h.1]
  rfl

theorem nextIsCased_append (text rest : List Char) : nextIsCased (text ++ rest) =
    if text.all isIgnorable then nextIsCased rest else nextIsCased text := by
  induction text with
  | nil => rfl
  | cons c text ih =>
      rw [List.cons_append, nextIsCased_cons, nextIsCased_cons, ih, List.all_cons]
      cases isIgnorable c <;> rfl

theorem nextIsCased_append_congr (text : List Char) {rest rest' : List Char}
    (h : nextIsCased rest = nextIsCased rest') :
    nextIsCased (text ++ rest) = nextIsCased (text ++ rest') := by
  rw [nextIsCased_append, nextIsCased_append, h]

/-- What a character becomes between two texts, the first of them in reverse. -/
def smallBetween (before : List Char) (c : Char) (after : List Char) : List Char :=
  if c.toNat = 0x3A3 then
    if nextIsCased before && !nextIsCased after then [Char.ofNat 0x3C2] else [Char.ofNat 0x3C3]
  else lowerChar c

/-- Lower case of a text between two others, the first of them in reverse. -/
def lowerBetween (before : List Char) : List Char → List Char → List Char
  | [], _ => []
  | c :: rest, after => smallBetween before c (rest ++ after) ++ lowerBetween (c :: before) rest after

theorem lowerAfter_eq (before text : List Char) : lowerAfter before text = lowerBetween before text [] := by
  induction text generalizing before with
  | nil => rfl
  | cons c rest ih => rw [lowerAfter, lowerBetween, ih, List.append_nil, smallBetween]

theorem lowerBetween_append (before front text after : List Char) :
    lowerBetween before (front ++ text) after =
      lowerBetween before front (text ++ after) ++ lowerBetween (front.reverse ++ before) text after := by
  induction front generalizing before with
  | nil => rfl
  | cons c front ih =>
      rw [List.cons_append, lowerBetween, lowerBetween, ih, List.append_assoc, List.append_assoc,
        List.reverse_cons, List.append_assoc]
      rfl

theorem lowerBetween_congr {before before' after after' : List Char} (text : List Char)
    (hbefore : nextIsCased before = nextIsCased before') (hafter : nextIsCased after = nextIsCased after') :
    lowerBetween before text after = lowerBetween before' text after' := by
  induction text generalizing before before' with
  | nil => rfl
  | cons c rest ih =>
      have hnext : nextIsCased (c :: before) = nextIsCased (c :: before') := by
        rw [nextIsCased_cons, nextIsCased_cons, hbefore]
      rw [lowerBetween, lowerBetween, ih hnext, smallBetween, smallBetween, hbefore,
        nextIsCased_append_congr rest hafter]

/-! ## The context that a small text is -/

/-- What a character becomes says the same about the text before it as the character does. -/
theorem nextIsCased_smallBetween (before after rest : List Char) (c : Char) :
    nextIsCased ((smallBetween before c after).reverse ++ rest) = nextIsCased (c :: rest) := by
  have hfinal : IsLettered (Char.ofNat 0x3C2) := by decide +kernel
  have hsigma : IsLettered (Char.ofNat 0x3C3) := by decide +kernel
  rw [smallBetween]
  split
  · next hc =>
      have hcapital : IsLettered (Char.ofNat 0x3A3) := by decide +kernel
      rw [← hc, Char.ofNat_toNat] at hcapital
      rw [hcapital.nextIsCased]
      split
      · exact hfinal.nextIsCased rest
      · exact hsigma.nextIsCased rest
  · rw [lowerChar]
    split
    · next hc =>
        have hdotted : IsLettered (Char.ofNat 0x130) := by decide +kernel
        have hdot : isIgnorable (Char.ofNat 0x307) = true := by decide +kernel
        have hletter : IsLettered (Char.ofNat 0x69) := by decide +kernel
        rw [← hc, Char.ofNat_toNat] at hdotted
        rw [hdotted.nextIsCased]
        exact (nextIsCased_cons _ _).trans ((if_pos hdot).trans (hletter.nextIsCased rest))
    · split
      · next hmoved =>
          obtain ⟨hc, hsmall, -⟩ := isLettered_of_moveCase? hmoved
          exact (hsmall.nextIsCased rest).trans (hc.nextIsCased rest).symm
      · rfl

theorem nextIsCased_lowerBetween (before text after rest : List Char) :
    nextIsCased ((lowerBetween before text after).reverse ++ rest) = nextIsCased (text.reverse ++ rest) := by
  induction text generalizing before rest with
  | nil => rfl
  | cons c text ih =>
      rw [lowerBetween, List.reverse_append, List.append_assoc, ih, List.reverse_cons, List.append_assoc]
      exact nextIsCased_append_congr _ (nextIsCased_smallBetween before (text ++ after) rest c)

/-! ## Names joined by a full stop -/

/-- Whether a text ends in a capital sigma behind a cased letter; what is case-ignorable does not count. -/
def endsInSigma (text : List Char) : Bool :=
  match text.reverse.dropWhile isIgnorable with
  | [] => false
  | c :: front => c.toNat == 0x3A3 && nextIsCased front

theorem endsInSigma_append (text : List Char) (c : Char) : endsInSigma (text ++ [c]) =
    if isIgnorable c then endsInSigma text else c.toNat == 0x3A3 && nextIsCased text.reverse := by
  rw [endsInSigma, List.reverse_append, List.reverse_singleton, List.singleton_append, List.dropWhile_cons]
  cases isIgnorable c <;> rfl

theorem smallBetween_eq_iff (before : List Char) (c : Char) {after : List Char}
    (hafter : nextIsCased after = true) : smallBetween before c after = smallBetween before c [] ↔
      (c.toNat == 0x3A3 && nextIsCased before) = false := by
  have hend : nextIsCased [] = false := rfl
  have hne : [Char.ofNat 0x3C3] ≠ [Char.ofNat 0x3C2] := by decide
  rw [smallBetween, smallBetween, hafter, hend]
  by_cases hsigma : c.toNat = 0x3A3
  · cases nextIsCased before with
    | false => simp [hsigma]
    | true => simp [hsigma, hne]
  · simp [hsigma]

theorem lowerBetween_of_small {text : List Char} (h : ∀ c ∈ text, IsSmall c)
    (before after : List Char) : lowerBetween before text after = text := by
  induction text generalizing before with
  | nil => rfl
  | cons c rest ih =>
      obtain ⟨hsigma, hsame⟩ := h c List.mem_cons_self
      rw [lowerBetween, smallBetween, if_neg hsigma, hsame, ih fun c hc => h c (List.mem_cons_of_mem _ hc)]
      rfl

/-- A text is made small as it would be alone, unless it ends in a sigma that a cased letter follows. -/
theorem lowerBetween_eq_iff (text : List Char) {after : List Char} (hafter : nextIsCased after = true) :
    lowerBetween [] text after = lowerBetween [] text [] ↔ endsInSigma text = false := by
  induction text using List.reverseRecOn generalizing after with
  | nil => exact iff_of_true rfl rfl
  | append_singleton text c ih =>
      have hlast (after : List Char) : lowerBetween [] (text ++ [c]) after =
          lowerBetween [] text (c :: after) ++ smallBetween text.reverse c after := by
        rw [lowerBetween_append, List.append_nil, lowerBetween, lowerBetween, List.append_nil]
        rfl
      rw [hlast, hlast, endsInSigma_append]
      cases hc : isIgnorable c with
      | true =>
          have hsigma : c.toNat ≠ 0x3A3 := by
            intro h
            have hlettered : isIgnorable (Char.ofNat 0x3A3) = false := by decide +kernel
            rw [← h, Char.ofNat_toNat, hc] at hlettered
            cases hlettered
          have hnext : nextIsCased (c :: after) = true := by rw [nextIsCased_cons, hc, if_pos rfl, hafter]
          have hnone : nextIsCased [c] = nextIsCased [] := by rw [nextIsCased_cons, hc, if_pos rfl]
          rw [smallBetween, if_neg hsigma, smallBetween, if_neg hsigma, List.append_cancel_right_eq,
            lowerBetween_congr text rfl hnone, ih hnext, if_pos rfl]
      | false =>
          have hsame : nextIsCased (c :: after) = nextIsCased [c] := by
            rw [nextIsCased_cons, nextIsCased_cons, hc]
            rfl
          rw [lowerBetween_congr text rfl hsame, List.append_cancel_left_eq,
            smallBetween_eq_iff text.reverse c hafter]
          rfl

/-- Making the first of two joined names small beforehand makes a difference exactly where that name ends in a
sigma and the other one goes on with a cased letter. -/
theorem lower_joined_lower_iff (space name : String) :
    lower (lower space ++ "." ++ name) = lower (space ++ "." ++ name) ↔
      endsInSigma space.toList = false ∨ nextIsCased name.toList = false := by
  have hstop : nextIsCased ('.' :: name.toList) = nextIsCased name.toList := by
    have hignorable : isIgnorable '.' = true := by decide +kernel
    rw [nextIsCased_cons, if_pos hignorable]
  have hlower : (lower space).toList = lowerBetween [] space.toList [] := by
    rw [lower, String.toList_ofList, lowerAfter_eq]
  have hjoined (text : String) : (lower (text ++ "." ++ name)).toList =
      lowerBetween [] text.toList ('.' :: name.toList) ++
        lowerBetween text.toList.reverse ('.' :: name.toList) [] := by
    rw [lower, String.toList_ofList, lowerAfter_eq, String.toList_append, String.toList_append,
      List.append_assoc, lowerBetween_append, List.append_nil, List.append_nil]
    rfl
  have hsmall : ∀ c ∈ (lower space).toList, IsSmall c := fun c hc =>
    isSmall_of_mem_lowerAfter (String.toList_ofList ▸ hc)
  have hcontext : nextIsCased (lower space).toList.reverse = nextIsCased space.toList.reverse := by
    rw [hlower]
    simpa using nextIsCased_lowerBetween [] space.toList [] []
  rw [← String.toList_inj, hjoined, hjoined, lowerBetween_of_small hsmall, hlower,
    lowerBetween_congr ('.' :: name.toList) (hlower ▸ hcontext) rfl, List.append_cancel_right_eq, eq_comm]
  cases hname : nextIsCased name.toList with
  | true => rw [lowerBetween_eq_iff _ (hstop.trans hname), or_iff_left (by decide)]
  | false => exact iff_of_true (lowerBetween_congr _ rfl (hstop.trans hname)) (.inr rfl)

/-! ## Blanks -/

/-- What a character that is no blank becomes has one that is none. -/
theorem exists_notBlank_smallBetween (before after : List Char) {c : Char} (h : isBlank c = false) :
    ∃ small ∈ smallBetween before c after, isBlank small = false := by
  rw [smallBetween]
  split
  · split
    · exact ⟨_, List.mem_singleton_self _, by decide +kernel⟩
    · exact ⟨_, List.mem_singleton_self _, by decide +kernel⟩
  · rw [lowerChar]
    split
    · exact ⟨_, List.mem_cons_self, by decide +kernel⟩
    · split
      · next hmoved => exact ⟨_, List.mem_singleton_self _, (isLettered_of_moveCase? hmoved).2.2⟩
      · exact ⟨c, List.mem_singleton_self _, h⟩

theorem notBlank_lowerBetween {before text after : List Char} (h : text.all isBlank = false) :
    (lowerBetween before text after).all isBlank = false := by
  induction text generalizing before with
  | nil => cases h
  | cons c rest ih =>
      rw [lowerBetween, List.all_append]
      rw [List.all_cons] at h
      cases hc : isBlank c with
      | true =>
          rw [hc, Bool.true_and] at h
          rw [ih h, Bool.and_false]
      | false =>
          obtain ⟨small, hsmall, hblank⟩ := exists_notBlank_smallBetween before (rest ++ after) hc
          have hsome : (smallBetween before c (rest ++ after)).all isBlank = false :=
            List.all_eq_false.mpr ⟨small, hsmall, by simp [hblank]⟩
          rw [hsome, Bool.false_and]

/-- A text that is not blank is not blank in lower case. -/
theorem isBlank_lower {text : String} (h : Text.isBlank text = false) :
    Text.isBlank (lower text) = false := by
  rw [Text.isBlank, lower, String.toList_ofList, lowerAfter_eq]
  exact notBlank_lowerBetween h

end ReactiveMarkup.Unicode
