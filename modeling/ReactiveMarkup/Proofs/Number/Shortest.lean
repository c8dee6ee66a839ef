import Mathlib.Data.List.TakeWhile
import ReactiveMarkup.Number.Shortest
import ReactiveMarkup.Proofs.Number.Integers
import ReactiveMarkup.Proofs.Number.Rounding

/-!
# The shortest digits read back

Seventeen digits are enough for any number: the nearest decimal of so many digits is half a unit of its
last digit away, and the unit is at most a part in `10 ^ 16` of the number, because the decimal point is
never estimated to be behind the first digit. So the search for the shortest digits ends with digits that
read back, and the zeros it drops at their end change nothing.
-/

namespace ReactiveMarkup.Decimal

open Double (Canonical numerator denominator ofDecimal roundDiv)

/-! ## Where the first digit stands -/

/-- The size of a finite number as a quotient. -/
theorem numerator_div (mantissa : Nat) (exponent : Int) :
    (numerator mantissa exponent : ℚ) / denominator exponent = mantissa * 2 ^ exponent := by
  have h := Double.shifted_div mantissa 1 (-exponent)
  rwa [neg_neg, Nat.cast_one, div_one, zpow_neg, div_inv_eq_mul] at h

theorem numerator_pos {mantissa : Nat} (hpos : 0 < mantissa) (exponent : Int) :
    0 < numerator mantissa exponent := Double.shifted_pos hpos exponent

theorem denominator_pos (exponent : Int) : 0 < denominator exponent :=
  Double.shifted_pos Nat.one_pos (-exponent)

/-- Powers of two in the range of finite numbers, and the power of ten two places below the estimate. -/
theorem estimate_le {k : Int} (hlow : -1074 ≤ k) (hhigh : k < 1024) :
    (10 : ℚ) ^ (k * 30103 / 100000 - 2) ≤ 2 ^ k := by
  obtain ⟨n, rfl | rfl⟩ := Int.eq_nat_or_neg k
  · have hpowers : ∀ n < 1024, 10 ^ (n * 30103 / 100000 - 2) ≤ 2 ^ n := by decide +kernel
    calc (10 : ℚ) ^ ((n : Int) * 30103 / 100000 - 2)
        ≤ 10 ^ ((n * 30103 / 100000 - 2 : ℕ) : Int) := zpow_le_zpow_right₀ (by norm_num) (by omega)
      _ ≤ 2 ^ (n : Int) := by exact_mod_cast hpowers n (by omega)
  · have hpowers : ∀ n < 1075, 2 ^ n ≤ 10 ^ (n * 30103 / 100000 + 2) := by decide +kernel
    calc (10 : ℚ) ^ (-(n : Int) * 30103 / 100000 - 2)
        ≤ 10 ^ (-((n * 30103 / 100000 + 2 : ℕ) : Int)) := zpow_le_zpow_right₀ (by norm_num) (by omega)
      _ ≤ 2 ^ (-(n : Int)) := by
          rw [zpow_neg, zpow_neg, inv_le_inv₀ (by positivity) (by positivity)]
          exact_mod_cast hpowers n (by omega)

/-- The search for the decimal point never leaves the first digit behind. -/
theorem decimalPointFrom_le {num den : Nat} (hden : 0 < den) (fuel : Nat) (k : Int)
    (h : (10 : ℚ) ^ (k - 1) ≤ num / den) :
    (10 : ℚ) ^ (decimalPointFrom num den fuel k - 1) ≤ num / den := by
  induction fuel generalizing k with
  | zero => exact h
  | succ fuel ih =>
      rw [decimalPointFrom]
      split
      · exact h
      · next hmore =>
          refine ih (k + 1) ?_
          have hscaled : (0 : ℚ) < (den * 10 ^ k.toNat : ℕ) := by positivity
          have hunder : ((den * 10 ^ k.toNat : ℕ) : ℚ) ≤ (num * 10 ^ (-k).toNat : ℕ) :=
            Nat.cast_le.mpr (Nat.le_of_not_lt hmore)
          rw [← one_le_div hscaled, Double.powers_div, Nat.cast_ofNat,
            one_le_div (by positivity)] at hunder
          rwa [add_sub_cancel_right]

/-- The decimal point of a number is no farther than behind its first digit. -/
theorem decimalPoint_le {negative : Bool} {mantissa : Nat} {exponent : Int}
    (hcanonical : Canonical (.finite negative mantissa exponent)) (hpos : 0 < mantissa) :
    (10 : ℚ) ^ (decimalPoint (numerator mantissa exponent) (denominator exponent) - 1) ≤
      mantissa * 2 ^ exponent := by
  obtain ⟨hbits, hleast, hgreatest, -⟩ := hcanonical
  have hsize : (0 : ℚ) < mantissa * 2 ^ exponent := by positivity
  have hmantissa : (mantissa : ℚ) < 2 ^ (53 : Int) := by exact_mod_cast hbits
  have hlow : exponent ≤ Int.log 2 ((mantissa : ℚ) * 2 ^ exponent) := by
    refine (Int.zpow_le_iff_le_log one_lt_two hsize).mp ?_
    rw [Nat.cast_ofNat]
    exact le_mul_of_one_le_left (by positivity) (by exact_mod_cast hpos)
  have hhigh : Int.log 2 ((mantissa : ℚ) * 2 ^ exponent) < 53 + exponent := by
    refine (Int.lt_zpow_iff_log_lt one_lt_two hsize).mp ?_
    rw [Nat.cast_ofNat, zpow_add₀ two_ne_zero]
    gcongr
  rw [← numerator_div]
  refine decimalPointFrom_le (denominator_pos exponent) 4 _ ?_
  rw [Double.binaryMagnitude_eq (numerator_pos hpos exponent) (denominator_pos exponent),
    numerator_div, sub_sub]
  refine (estimate_le (by omega) (by omega)).trans ?_
  exact_mod_cast Int.zpow_log_le_self one_lt_two hsize

/-! ## Digits that read back -/

/-- For a count of digits the nearest number is tried, and then another one. -/
theorem digitsOfCount_eq (target : Double) (num den : Nat) (point : Int) (count : Nat) :
    let nearest := roundDiv (num * Nat.pow 10 (-(point - count)).toNat)
      (den * Nat.pow 10 (point - count).toNat)
    ∃ other, digitsOfCount target num den point count =
      if ofDecimal false nearest (point - count) == target then some nearest
      else if ofDecimal false other (point - count) == target then some other else none :=
  ⟨_, rfl⟩

/-- What is found for a count of digits reads back. -/
theorem ofDecimal_of_digitsOfCount {target : Double} {num den : Nat} {point : Int} {count n : Nat}
    (h : digitsOfCount target num den point count = some n) :
    ofDecimal false n (point - count) = target := by
  obtain ⟨other, heq⟩ := digitsOfCount_eq target num den point count
  rw [heq] at h
  split at h
  · next hreads =>
      rw [← Option.some.inj h]
      exact eq_of_beq hreads
  · split at h
    · next hreads =>
        rw [← Option.some.inj h]
        exact eq_of_beq hreads
    · cases h

/-- If the nearest digits read back, digits are found. -/
theorem digitsOfCount_isSome {target : Double} {num den : Nat} {point : Int} {count : Nat}
    (h : ofDecimal false (roundDiv (num * Nat.pow 10 (-(point - count)).toNat)
      (den * Nat.pow 10 (point - count).toNat)) (point - count) = target) :
    (digitsOfCount target num den point count).isSome := by
  obtain ⟨other, heq⟩ := digitsOfCount_eq target num den point count
  rw [heq, if_pos (beq_iff_eq.mpr h)]
  rfl

/-- The search for the shortest digits ends with digits that read back when there are any on its way. -/
theorem ofDecimal_shortestFrom {target : Double} {num den : Nat} {point : Int} {last : Nat}
    (hlast : (digitsOfCount target num den point last).isSome) (fuel : Nat) {count : Nat}
    (hbegun : count ≤ last) (hfuel : last < count + fuel) :
    ofDecimal false (shortestFrom target num den point fuel count).1
      (shortestFrom target num den point fuel count).2 = target := by
  induction fuel generalizing count with
  | zero => omega
  | succ fuel ih =>
      rw [shortestFrom]
      cases hfound : digitsOfCount target num den point count with
      | some n => exact ofDecimal_of_digitsOfCount hfound
      | none =>
          have hnext : count ≠ last := by
            rintro rfl
            rw [hfound] at hlast
            cases hlast
          exact ih (by omega) (by omega)

/-- Seventeen digits are enough for any number. -/
theorem digitsOfCount_seventeen {mantissa : Nat} {exponent : Int}
    (hcanonical : Canonical (.finite false mantissa exponent)) (hpos : 0 < mantissa) :
    (digitsOfCount (.finite false mantissa exponent) (numerator mantissa exponent)
      (denominator exponent) (decimalPoint (numerator mantissa exponent) (denominator exponent))
      17).isSome := by
  have hpoint := decimalPoint_le hcanonical hpos
  generalize decimalPoint (numerator mantissa exponent) (denominator exponent) = point at hpoint ⊢
  refine digitsOfCount_isSome (Double.ofDecimal_of_near false hcanonical ?_)
  have hunit : (0 : ℚ) < 10 ^ (point - (17 : ℕ)) := by positivity
  have hden : 0 < denominator exponent * 10 ^ (point - (17 : ℕ)).toNat :=
    Nat.mul_pos (denominator_pos exponent) (Nat.pow_pos (by decide))
  have hnear := Double.abs_sub_roundDiv_le
    (numerator mantissa exponent * 10 ^ (-(point - (17 : ℕ))).toNat) hden
  rw [Double.powers_div, numerator_div, Nat.cast_ofNat] at hnear
  rw [Nat.pow_eq, Nat.pow_eq]
  generalize roundDiv (numerator mantissa exponent * 10 ^ (-(point - (17 : ℕ))).toNat)
    (denominator exponent * 10 ^ (point - (17 : ℕ)).toNat) = digits at hnear ⊢
  have hsize : (0 : ℚ) < mantissa * 2 ^ exponent := by positivity
  -- Half a unit of the last digit.
  have hhalf : |(digits : ℚ) * 10 ^ (point - (17 : ℕ)) - mantissa * 2 ^ exponent| ≤
      1 / 2 * 10 ^ (point - (17 : ℕ)) := by
    rw [abs_sub_comm]
    rwa [div_sub' hunit.ne', abs_div, abs_of_pos hunit, div_le_iff₀ hunit, mul_comm (10 ^ _)] at hnear
  have hdigits : (10 : ℚ) ^ (point - 1) = 10 ^ 16 * 10 ^ (point - (17 : ℕ)) := by
    rw [← zpow_natCast, ← zpow_add₀ (by norm_num)]
    congr 1
    push_cast
    ring
  rw [hdigits] at hpoint
  generalize (10 : ℚ) ^ (point - (17 : ℕ)) = unit at *
  linarith

/-! ## Digits without zeros at the end -/

/-- Zeros behind digits multiply by a power of ten. -/
theorem natOfDigits_append_zeros (digits : List Char) (count : Nat) :
    natOfDigits (digits ++ List.replicate count '0') = natOfDigits digits * 10 ^ count := by
  have h := Nat.ofDigitChars_append (b := 10) (l := digits) (m := List.replicate count '0') 0
  rwa [Nat.ofDigitChars_replicate_zero, Nat.mul_comm] at h

/-- Zeros before digits do not count. -/
theorem natOfDigits_zeros_append (count : Nat) (digits : List Char) :
    natOfDigits (List.replicate count '0' ++ digits) = natOfDigits digits := by
  have h := Nat.ofDigitChars_append (b := 10) (l := List.replicate count '0') (m := digits) 0
  rwa [Nat.ofDigitChars_replicate_zero, Nat.mul_zero] at h

/-- Digits are the zeros at their end and what is before them. -/
theorem exists_zeros (digits : List Char) :
    ∃ count, (digits.reverse.dropWhile (· == '0')).reverse ++ List.replicate count '0' = digits := by
  refine ⟨(digits.reverse.takeWhile (· == '0')).length, ?_⟩
  have hzeros : digits.reverse.takeWhile (· == '0') =
      List.replicate (digits.reverse.takeWhile (· == '0')).length '0' :=
    List.eq_replicate_of_mem fun c hc => by
      have hzero : (c == '0') = true := List.mem_takeWhile_imp (p := (· == '0')) hc
      exact eq_of_beq hzero
  rw [← List.reverse_replicate, ← hzeros, ← List.reverse_append, List.takeWhile_append_dropWhile,
    List.reverse_reverse]

/-- The shortest digits of a number: there are some, and read as a number they are the number. -/
theorem shortest_reads {mantissa : Nat} {exponent : Int}
    (hcanonical : Canonical (.finite false mantissa exponent)) (hpos : 0 < mantissa) :
    (shortest mantissa exponent).digits ≠ [] ∧
      (∀ c ∈ (shortest mantissa exponent).digits, c.isDigit = true) ∧
      ofDecimal false (natOfDigits (shortest mantissa exponent).digits)
        ((shortest mantissa exponent).point - (shortest mantissa exponent).digits.length) =
        .finite false mantissa exponent := by
  have hreads := ofDecimal_shortestFrom (digitsOfCount_seventeen hcanonical hpos) 17
    (show 1 ≤ 17 by decide) (by decide)
  simp only [shortest]
  generalize shortestFrom _ _ _ _ 17 1 = found at hreads ⊢
  obtain ⟨n, unit⟩ := found
  dsimp only at hreads ⊢
  obtain ⟨count, hzeros⟩ := exists_zeros (Nat.toDigits 10 n)
  have hvalue := natOfDigits_toDigits n
  have hall : ∀ c ∈ Nat.toDigits 10 n, c.isDigit = true := fun c hc =>
    Nat.isDigit_of_mem_toDigits (by decide) (by decide) hc
  generalize ((Nat.toDigits 10 n).reverse.dropWhile (· == '0')).reverse = digits at hzeros ⊢
  rw [← hzeros] at hvalue hall ⊢
  rw [natOfDigits_append_zeros] at hvalue
  have hnumber : ofDecimal false (natOfDigits digits) (unit + count) =
      .finite false mantissa exponent := by
    rw [← hreads, ← hvalue]
    refine Double.ofDecimal_congr false ?_
    push_cast
    rw [zpow_add₀ (by norm_num), zpow_natCast]
    ring
  refine ⟨?_, fun c hc => hall c (List.mem_append_left _ hc), ?_⟩
  · rintro rfl
    cases hnumber
    exact absurd hpos (Nat.lt_irrefl 0)
  · rw [← hnumber, List.length_append, List.length_replicate]
    congr 1
    push_cast
    ring

end ReactiveMarkup.Decimal
