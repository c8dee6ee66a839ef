import Mathlib.Algebra.Order.Field.Power
import Mathlib.Data.Int.Log
import Mathlib.Data.Rat.Floor
import Mathlib.Tactic.FieldSimp
import Mathlib.Tactic.GCongr
import Mathlib.Tactic.Linarith
import Mathlib.Tactic.NormNum
import Mathlib.Tactic.Positivity
import Mathlib.Tactic.Ring
import ReactiveMarkup.Number.Double

/-!
# Numbers near a quotient

Rounding is a function of the quotient, whatever numerator and denominator it is given with, and of the
size of a decimal, whatever power of ten is split off. What it gives is settled here for all that is near
enough to a number: less than a part in `2 ^ 54` of the number away. That is half of the last bit of the
greatest mantissa, and half of the last bit of the binade below for the least one, which is where the
numbers below stand closer together.
-/

namespace ReactiveMarkup.Double

/-! ## Quotients -/

/-- A rounded quotient is at most a half away from the quotient. -/
theorem abs_sub_roundDiv_le (num : Nat) {den : Nat} (hden : 0 < den) :
    |(num : ℚ) / den - roundDiv num den| ≤ 1 / 2 := by
  have hpos : (0 : ℚ) < den := Nat.cast_pos.mpr hden
  have hsplit : (num : ℚ) / den = (num / den : ℕ) + (num % den : ℕ) / den := by
    rw [eq_comm, eq_div_iff hpos.ne', add_mul, div_mul_cancel₀ _ hpos.ne']
    exact_mod_cast Nat.div_add_mod' num den
  have hrest : ((num % den : ℕ) : ℚ) / den < 1 :=
    (div_lt_one hpos).mpr (Nat.cast_lt.mpr (Nat.mod_lt num hden))
  have hnonneg : (0 : ℚ) ≤ ((num % den : ℕ) : ℚ) / den := by positivity
  have hlow : 2 * (num % den) ≤ den ↔ ((num % den : ℕ) : ℚ) / den ≤ 1 / 2 := by
    rw [div_le_div_iff₀ hpos two_pos, mul_comm, one_mul]
    exact_mod_cast Iff.rfl
  have hhigh : den ≤ 2 * (num % den) ↔ (1 / 2 : ℚ) ≤ ((num % den : ℕ) : ℚ) / den := by
    rw [div_le_div_iff₀ two_pos hpos, one_mul, mul_comm]
    exact_mod_cast Iff.rfl
  rw [hsplit]
  generalize ((num % den : ℕ) : ℚ) / den = part at *
  have hdown : 2 * (num % den) ≤ den → |((num / den : ℕ) : ℚ) + part - (num / den : ℕ)| ≤ 1 / 2 := by
    intro h
    rw [add_sub_cancel_left, abs_of_nonneg hnonneg]
    exact hlow.mp h
  have hup : den ≤ 2 * (num % den) →
      |((num / den : ℕ) : ℚ) + part - (num / den + 1 : ℕ)| ≤ 1 / 2 := by
    intro h
    rw [Nat.cast_succ, add_sub_add_left_eq_sub, abs_of_nonpos (by linarith)]
    linarith [hhigh.mp h]
  unfold roundDiv
  dsimp only
  split
  · next h => exact hdown h.le
  · split
    · next h => exact hup h.le
    · split
      · exact hdown (by omega)
      · exact hup (by omega)

/-- Rounding finds the integer that is less than a half away. -/
theorem roundDiv_eq_of_near {num den n : Nat} (hden : 0 < den)
    (hnear : |(num : ℚ) / den - n| < 1 / 2) : roundDiv num den = n := by
  have hround := abs_sub_roundDiv_le num hden
  have hclose : |((roundDiv num den : ℤ) - n : ℚ)| < 1 := by
    rw [abs_lt] at hnear ⊢
    rw [abs_le] at hround
    push_cast
    constructor <;> linarith
  have hsame : |(roundDiv num den : ℤ) - n| < 1 := by exact_mod_cast hclose
  rw [Int.abs_lt_one_iff, sub_eq_zero] at hsame
  exact_mod_cast hsame

/-- A rounded quotient depends on the quotient alone. -/
theorem roundDiv_congr {num den num' den' : Nat} (hden : 0 < den) (hden' : 0 < den')
    (h : (num : ℚ) / den = num' / den') : roundDiv num den = roundDiv num' den' := by
  have scaled {num den k : Nat} (hk : 0 < k) : roundDiv (num * k) (den * k) = roundDiv num den := by
    simp only [roundDiv, Nat.mul_div_mul_right _ _ hk, Nat.mul_mod_mul_right, ← Nat.mul_assoc,
      Nat.mul_lt_mul_right hk]
  rw [div_eq_div_iff (Nat.cast_pos.mpr hden).ne' (Nat.cast_pos.mpr hden').ne'] at h
  have hcross : num * den' = num' * den := by exact_mod_cast h
  calc roundDiv num den = roundDiv (num * den') (den * den') := (scaled hden').symm
    _ = roundDiv (num' * den) (den' * den) := by rw [hcross, Nat.mul_comm den]
    _ = roundDiv num' den' := scaled hden

/-- Powers of a base on either side of a quotient. -/
theorem powers_div (base : Nat) (num den : Nat) (e : Int) :
    ((num * base ^ (-e).toNat : ℕ) : ℚ) / (den * base ^ e.toNat : ℕ) = num / den / base ^ e := by
  push_cast
  obtain ⟨n, rfl | rfl⟩ := Int.eq_nat_or_neg e
  · rw [Int.toNat_natCast, zpow_natCast, Int.toNat_neg_natCast, pow_zero, mul_one, div_div]
  · rw [neg_neg, Int.toNat_natCast, Int.toNat_neg_natCast, zpow_neg, zpow_natCast, pow_zero, mul_one,
      div_inv_eq_mul, mul_div_right_comm]

theorem shifted_div (num den : Nat) (e : Int) :
    ((num <<< (-e).toNat : ℕ) : ℚ) / (den <<< e.toNat : ℕ) = num / den / 2 ^ e := by
  rw [Nat.shiftLeft_eq, Nat.shiftLeft_eq, powers_div, Nat.cast_ofNat]

theorem shifted_pos {den : Nat} (hden : 0 < den) (e : Int) : 0 < den <<< e.toNat := by
  rw [Nat.shiftLeft_eq]
  positivity

/-- The magnitude of a quotient is its logarithm. -/
theorem binaryMagnitude_eq {num den : Nat} (hnum : 0 < num) (hden : 0 < den) :
    binaryMagnitude num den = Int.log 2 ((num : ℚ) / den) := by
  have hpos : (0 : ℚ) < den := Nat.cast_pos.mpr hden
  have hquot : (0 : ℚ) < (num : ℚ) / den := by positivity
  have hnumLow : (2 : ℚ) ^ num.log2 ≤ num := by exact_mod_cast Nat.log2_self_le hnum.ne'
  have hnumHigh : (num : ℚ) < 2 ^ (num.log2 + 1) := by exact_mod_cast Nat.lt_log2_self
  have hdenLow : (2 : ℚ) ^ den.log2 ≤ den := by exact_mod_cast Nat.log2_self_le hden.ne'
  have hdenHigh : (den : ℚ) < 2 ^ (den.log2 + 1) := by exact_mod_cast Nat.lt_log2_self
  let guess : Int := num.log2 - den.log2
  have hlow : ((2 : ℕ) : ℚ) ^ (guess - 1) ≤ num / den := by
    rw [le_div_iff₀ hpos]
    calc ((2 : ℕ) : ℚ) ^ (guess - 1) * den ≤ 2 ^ (guess - 1) * 2 ^ (den.log2 + 1) := by
          push_cast; gcongr
      _ = 2 ^ num.log2 := by
          rw [← zpow_natCast, ← zpow_natCast, ← zpow_add₀ two_ne_zero]
          congr 1
          push_cast
          omega
      _ ≤ num := hnumLow
  have hhigh : (num / den : ℚ) < ((2 : ℕ) : ℚ) ^ (guess + 1) := by
    rw [div_lt_iff₀ hpos]
    calc (num : ℚ) < 2 ^ (num.log2 + 1) := hnumHigh
      _ = 2 ^ (guess + 1) * 2 ^ den.log2 := by
          rw [← zpow_natCast, ← zpow_natCast, ← zpow_add₀ two_ne_zero]
          congr 1
          push_cast
          omega
      _ ≤ ((2 : ℕ) : ℚ) ^ (guess + 1) * den := by push_cast; gcongr
  have hbelow : num <<< (-guess).toNat < den <<< guess.toNat ↔
      (num / den : ℚ) < ((2 : ℕ) : ℚ) ^ guess := by
    have hshifted : (0 : ℚ) < (den <<< guess.toNat : ℕ) := Nat.cast_pos.mpr (shifted_pos hden guess)
    rw [Nat.cast_ofNat, ← div_lt_one (by positivity : (0 : ℚ) < 2 ^ guess), ← shifted_div,
      div_lt_one hshifted, Nat.cast_lt]
  have hguess : guess - 1 ≤ Int.log 2 ((num : ℚ) / den) :=
    (Int.zpow_le_iff_le_log one_lt_two hquot).mp hlow
  have hnext : Int.log 2 ((num : ℚ) / den) < guess + 1 :=
    (Int.lt_zpow_iff_log_lt one_lt_two hquot).mp hhigh
  rw [Int.lt_zpow_iff_log_lt one_lt_two hquot] at hbelow
  change (if num <<< (-guess).toNat < den <<< guess.toNat then guess - 1 else guess) = _
  split
  · next h =>
      have := hbelow.mp h
      omega
  · next h =>
      have := mt hbelow.mpr h
      omega

/-! ## Rounding to binary64 -/

/-- A finite number in its one form: the mantissa has 53 bits unless the exponent is the least one. -/
def Canonical : Double → Prop
  | .finite _ mantissa exponent =>
    mantissa < 1 <<< 53 ∧ -1074 ≤ exponent ∧ exponent ≤ 971 ∧
      (exponent = -1074 ∨ 1 <<< 52 ≤ mantissa)
  | .infinite _ => False
  | .nan => False

instance : DecidablePred Canonical
  | .finite _ mantissa exponent => inferInstanceAs (Decidable (mantissa < 1 <<< 53 ∧
      -1074 ≤ exponent ∧ exponent ≤ 971 ∧ (exponent = -1074 ∨ 1 <<< 52 ≤ mantissa)))
  | .infinite _ => inferInstanceAs (Decidable False)
  | .nan => inferInstanceAs (Decidable False)

theorem canonical_zero (negative : Bool) : Canonical (zero negative) :=
  ⟨by decide, by decide, by decide, .inl rfl⟩

/-- The place of the last bit of the number nearest to a quotient. -/
def lastPlace (quotient : ℚ) : Int := max (Int.log 2 quotient - 52) (-1074)

/-- The first bit of a quotient, counted from a place. -/
theorem add_le_log_iff {quotient : ℚ} (hpos : 0 < quotient) (place k : Int) :
    place + k ≤ Int.log 2 quotient ↔ 2 ^ k ≤ quotient / 2 ^ place := by
  have hunit : (0 : ℚ) < 2 ^ place := by positivity
  rw [← Int.zpow_le_iff_le_log one_lt_two hpos, le_div_iff₀ hunit, Nat.cast_ofNat,
    zpow_add₀ two_ne_zero, mul_comm]

/-- A quotient of positive numbers is rounded at its last place, and a carry is brought back to 53 bits. -/
theorem ofRatio_eq (negative : Bool) {num den : Nat} (hnum : 0 < num) (hden : 0 < den) :
    let place := lastPlace (num / den)
    let mantissa := roundDiv (num <<< (-place).toNat) (den <<< place.toNat)
    ofRatio negative num den =
      if mantissa = 1 <<< 53 then
        if 971 < place + 1 then .infinite negative else .finite negative (1 <<< 52) (place + 1)
      else if 971 < place then .infinite negative else .finite negative mantissa place := by
  intro place mantissa
  have hplace : max (binaryMagnitude num den - 52) (-1074) = place := by
    rw [binaryMagnitude_eq hnum hden]
    rfl
  by_cases hcarry : mantissa = 1 <<< 53
  · simp only [ofRatio, if_neg hnum.ne', hplace, mantissa, if_pos hcarry]
  · simp only [ofRatio, if_neg hnum.ne', hplace, mantissa, if_neg hcarry]

/-- The number nearest to a quotient depends on the quotient alone. -/
theorem ofRatio_congr (negative : Bool) {num den num' den' : Nat} (hden : 0 < den) (hden' : 0 < den')
    (h : (num : ℚ) / den = num' / den') : ofRatio negative num den = ofRatio negative num' den' := by
  have hzero {num den : Nat} (hden : 0 < den) : (num / den : ℚ) = 0 ↔ num = 0 := by
    rw [div_eq_zero_iff, or_iff_left (Nat.cast_pos.mpr hden).ne', Nat.cast_eq_zero]
  have hsame : num = 0 ↔ num' = 0 := by rw [← hzero hden, h, hzero hden']
  rcases Nat.eq_zero_or_pos num with hnum | hnum
  · rw [hnum, hsame.mp hnum, ofRatio, ofRatio, if_pos rfl, if_pos rfl]
  · have hnum' := Nat.pos_of_ne_zero (mt hsame.mpr hnum.ne')
    rw [ofRatio_eq negative hnum hden, ofRatio_eq negative hnum' hden', h,
      roundDiv_congr (shifted_pos hden _) (shifted_pos hden' _) (by rw [shifted_div, shifted_div, h])]

/-- What is rounded is in its one form, unless it is too great. -/
theorem canonical_ofRatio {negative : Bool} {num den : Nat} (hden : 0 < den)
    (hfinite : (ofRatio negative num den).isFinite = true) : Canonical (ofRatio negative num den) := by
  rcases Nat.eq_zero_or_pos num with rfl | hnum
  · rw [ofRatio, if_pos rfl]
    exact canonical_zero negative
  have hquot : (0 : ℚ) < num / den := div_pos (Nat.cast_pos.mpr hnum) (Nat.cast_pos.mpr hden)
  have hround := abs_sub_roundDiv_le (num <<< (-lastPlace (num / den)).toNat)
    (shifted_pos hden (lastPlace (num / den)))
  have hless : ¬lastPlace (num / den) + 53 ≤ Int.log 2 ((num : ℚ) / den) := by
    unfold lastPlace
    omega
  have hfull : lastPlace (num / den) ≠ -1074 →
      lastPlace (num / den) + 52 ≤ Int.log 2 ((num : ℚ) / den) := by
    unfold lastPlace
    omega
  have hleast : -1074 ≤ lastPlace (num / den) := le_max_right _ _
  rw [add_le_log_iff hquot, not_le] at hless
  rw [add_le_log_iff hquot] at hfull
  rw [ofRatio_eq negative hnum hden] at hfinite ⊢
  rw [shifted_div] at hround
  generalize lastPlace (num / den) = place at *
  generalize roundDiv (num <<< (-place).toNat) (den <<< place.toNat) = mantissa at *
  generalize (num : ℚ) / den / 2 ^ place = part at *
  obtain ⟨hlow, hhigh⟩ := abs_le.mp hround
  have hbits : mantissa < 1 <<< 53 + 1 := by
    have h : (mantissa : ℚ) < 2 ^ (53 : Int) + 1 := by linarith
    exact_mod_cast h
  have hsome : place ≠ -1074 → 1 <<< 52 ≤ mantissa := by
    intro hother
    have h : (2 : ℚ) ^ (52 : Int) < mantissa + 1 := by linarith [hfull hother]
    have h : 1 <<< 52 < mantissa + 1 := by exact_mod_cast h
    exact Nat.le_of_lt_succ h
  split at hfinite <;> split at hfinite
  · cases hfinite
  · next hcarry hgreat =>
      rw [if_pos hcarry, if_neg hgreat]
      exact ⟨by decide, by omega, by omega, .inr (le_refl _)⟩
  · cases hfinite
  · next hcarry hgreat =>
      rw [if_neg hcarry, if_neg hgreat]
      refine ⟨by omega, hleast, by omega, ?_⟩
      rcases eq_or_ne place (-1074) with hbottom | hother
      · exact .inl hbottom
      · exact .inr (hsome hother)

/-- What is closer to a number than a part in `2 ^ 54` of it is rounded to it. -/
theorem ofRatio_of_near (negative : Bool) {num den mantissa : Nat} {exponent : Int} (hden : 0 < den)
    (hcanonical : Canonical (.finite negative mantissa exponent))
    (hnear : 2 ^ 54 * |(num : ℚ) / den - mantissa * 2 ^ exponent| < mantissa * 2 ^ exponent) :
    ofRatio negative num den = .finite negative mantissa exponent := by
  obtain ⟨hbits, hleast, hgreatest, hfull⟩ := hcanonical
  have hunit : (0 : ℚ) < 2 ^ exponent := by positivity
  have hmantissa : (mantissa : ℚ) + 1 ≤ 2 ^ 53 := by exact_mod_cast hbits
  -- The quotient in units of the last bit.
  obtain ⟨part, hpart⟩ : ∃ part : ℚ, num / den / 2 ^ exponent = part := ⟨_, rfl⟩
  have hclose : 2 ^ 54 * |part - mantissa| < mantissa := by
    rw [(div_eq_iff hunit.ne').mp hpart, ← sub_mul, abs_mul, abs_of_pos hunit, ← mul_assoc] at hnear
    exact lt_of_mul_lt_mul_right hnear hunit.le
  obtain ⟨hhigh, hlow⟩ := abs_sub_lt_iff.mp ((lt_div_iff₀' (by positivity)).mpr hclose)
  have hpos : 0 < part := by linarith
  have hquot : (0 : ℚ) < num / den := by
    rw [(div_eq_iff hunit.ne').mp hpart]
    positivity
  have hnum : 0 < num := by
    rw [Nat.pos_iff_ne_zero]
    rintro rfl
    rw [Nat.cast_zero, zero_div] at hquot
    exact lt_irrefl 0 hquot
  have hat (k : Int) : exponent + k ≤ Int.log 2 ((num : ℚ) / den) ↔ 2 ^ k ≤ part := by
    rw [add_le_log_iff hquot, hpart]
  have hbelow : ¬exponent + 53 ≤ Int.log 2 ((num : ℚ) / den) := by
    rw [hat, not_le]
    norm_num
    linarith
  by_cases hwhole : exponent = -1074 ∨ (2 : ℚ) ^ (52 : Int) ≤ part
  · have hplace : lastPlace (num / den) = exponent := by
      unfold lastPlace
      rcases hwhole with hbottom | hwhole
      · omega
      · have := (hat 52).mpr hwhole
        omega
    have hnearest : roundDiv (num <<< (-exponent).toNat) (den <<< exponent.toNat) = mantissa := by
      refine roundDiv_eq_of_near (shifted_pos hden exponent) ?_
      rw [shifted_div, hpart, abs_lt]
      constructor <;> linarith
    rw [ofRatio_eq negative hnum hden, hplace, hnearest, if_neg hbits.ne, if_neg hgreatest.not_gt]
  -- The least mantissa, from below: the last place is one lower, and the carry mends it.
  · rw [not_or, not_le] at hwhole
    have hleast : (2 : ℚ) ^ 52 ≤ mantissa := by exact_mod_cast hfull.resolve_left hwhole.1
    have hless : part < 2 ^ 52 := by exact_mod_cast hwhole.2
    have hsame : mantissa = 1 <<< 52 := by
      have h : (mantissa : ℚ) < 2 ^ 52 + 1 := by linarith
      have h : mantissa < 1 <<< 52 + 1 := by exact_mod_cast h
      exact Nat.le_antisymm (Nat.le_of_lt_succ h) (hfull.resolve_left hwhole.1)
    have hsize : (mantissa : ℚ) = 2 ^ 52 := by exact_mod_cast congrArg (Nat.cast (R := ℚ)) hsame
    have hplace : lastPlace (num / den) = exponent - 1 := by
      have h := mt (hat 52).mp hwhole.2.not_ge
      have h' := (hat 51).mpr (by norm_num; linarith)
      unfold lastPlace
      omega
    have hcarry : roundDiv (num <<< (-(exponent - 1)).toNat) (den <<< (exponent - 1).toNat) =
        1 <<< 53 := by
      refine roundDiv_eq_of_near (shifted_pos hden (exponent - 1)) ?_
      have hfifty : ((1 <<< 53 : ℕ) : ℚ) = 2 * 2 ^ 52 := by norm_num [Nat.shiftLeft_eq]
      rw [shifted_div, zpow_sub_one₀ two_ne_zero, ← div_div, hpart, div_inv_eq_mul, hfifty, abs_lt]
      constructor <;> linarith
    rw [ofRatio_eq negative hnum hden, hplace, hcarry, if_pos rfl, Int.sub_add_cancel,
      if_neg hgreatest.not_gt, hsame]

/-! ## Decimals -/

/-- A decimal as a quotient. -/
theorem decimal_div (digits : Nat) (exponent : Int) :
    ((digits * Nat.pow 10 exponent.toNat : ℕ) : ℚ) / (Nat.pow 10 (-exponent).toNat : ℕ) =
      digits * 10 ^ exponent := by
  have h := powers_div 10 digits 1 (-exponent)
  rwa [neg_neg, Nat.one_mul, Nat.cast_one, div_one, zpow_neg, div_inv_eq_mul] at h

theorem decimal_pos (exponent : Int) : 0 < Nat.pow 10 (-exponent).toNat :=
  Nat.pow_pos (by decide)

/-- Where the first digit of a decimal stands, from its size. -/
theorem magnitude_eq {digits : Nat} (hpos : 0 < digits) (exponent : Int) :
    exponent + (Nat.toDigits 10 digits).length = Int.log 10 ((digits : ℚ) * 10 ^ exponent) + 1 := by
  have hsize : (0 : ℚ) < digits * 10 ^ exponent := by positivity
  obtain ⟨count, hcount⟩ : ∃ count, (Nat.toDigits 10 digits).length = count + 1 :=
    Nat.exists_eq_succ_of_ne_zero Nat.length_toDigits_pos.ne'
  have hhigh : (digits : ℚ) < 10 ^ (count + 1) := by
    exact_mod_cast (Nat.length_toDigits_le_iff (by decide) (by omega)).mp hcount.le
  have hlow : (10 : ℚ) ^ count ≤ digits := by
    rcases Nat.eq_zero_or_pos count with rfl | hmore
    · exact_mod_cast hpos
    · have h := mt (Nat.length_toDigits_le_iff (b := 10) (n := digits) (by decide) hmore).mpr (by omega)
      exact_mod_cast Nat.le_of_not_lt h
  have hleast : count + exponent ≤ Int.log 10 ((digits : ℚ) * 10 ^ exponent) := by
    refine (Int.zpow_le_iff_le_log (by decide) hsize).mp ?_
    rw [Nat.cast_ofNat, zpow_add₀ (by norm_num), zpow_natCast]
    gcongr
  have hgreatest : Int.log 10 ((digits : ℚ) * 10 ^ exponent) < (count + 1 : ℕ) + exponent := by
    refine (Int.lt_zpow_iff_log_lt (by decide) hsize).mp ?_
    rw [Nat.cast_ofNat, zpow_add₀ (by norm_num), zpow_natCast]
    gcongr
  omega

/-- The number nearest to a decimal depends on the size of the decimal alone. -/
theorem ofDecimal_congr (negative : Bool) {digits digits' : Nat} {exponent exponent' : Int}
    (h : (digits : ℚ) * 10 ^ exponent = digits' * 10 ^ exponent') :
    ofDecimal negative digits exponent = ofDecimal negative digits' exponent' := by
  have hzero : digits = 0 ↔ digits' = 0 := by
    have hzero (digits : Nat) (exponent : Int) : (digits * 10 ^ exponent : ℚ) = 0 ↔ digits = 0 := by
      rw [mul_eq_zero, or_iff_left (by positivity), Nat.cast_eq_zero]
    rw [← hzero digits exponent, h, hzero]
  unfold ofDecimal
  by_cases hdigits : digits = 0
  · rw [if_pos hdigits, if_pos (hzero.mp hdigits)]
  · have hdigits' := mt hzero.mpr hdigits
    rw [if_neg hdigits, if_neg hdigits', magnitude_eq (Nat.pos_of_ne_zero hdigits),
      magnitude_eq (Nat.pos_of_ne_zero hdigits'), h,
      ofRatio_congr negative (decimal_pos exponent) (decimal_pos exponent')
        (by rw [decimal_div, decimal_div, h])]

/-- What a decimal is read as is in its one form, unless it is too great. -/
theorem canonical_ofDecimal {negative : Bool} {digits : Nat} {exponent : Int}
    (hfinite : (ofDecimal negative digits exponent).isFinite = true) :
    Canonical (ofDecimal negative digits exponent) := by
  unfold ofDecimal at hfinite ⊢
  split
  · exact canonical_zero negative
  · next hdigits =>
      rw [if_neg hdigits] at hfinite
      dsimp only at hfinite ⊢
      split
      · next hgreat =>
          rw [if_pos hgreat] at hfinite
          cases hfinite
      · next hless =>
          rw [if_neg hless] at hfinite
          split
          · exact canonical_zero negative
          · next hmore =>
              rw [if_neg hmore] at hfinite
              exact canonical_ofRatio (decimal_pos exponent) hfinite

theorem ofRatio_true (num den : Nat) : ofRatio true num den = (ofRatio false num den).neg := by
  unfold ofRatio
  split
  · rfl
  · dsimp only
    rw [apply_ite neg]
    rfl

/-- The sign of a decimal does not change how it is rounded. -/
theorem ofDecimal_of_unsigned {digits mantissa : Nat} {place exponent : Int} (negative : Bool)
    (h : ofDecimal false digits place = .finite false mantissa exponent) :
    ofDecimal negative digits place = .finite negative mantissa exponent := by
  cases negative with
  | false => exact h
  | true =>
      have hneg : ofDecimal true digits place = (ofDecimal false digits place).neg := by
        unfold ofDecimal
        split
        · rfl
        · dsimp only
          split
          · rfl
          · split
            · rfl
            · exact ofRatio_true _ _
      rw [hneg, h]
      rfl

/-- The greatest and the least number have decimals in reach. -/
theorem size_bounds {negative : Bool} {mantissa : Nat} {exponent : Int}
    (hcanonical : Canonical (.finite negative mantissa exponent)) (hpos : 0 < mantissa) :
    (10 : ℚ) ^ (-325 : Int) < mantissa * 2 ^ exponent ∧
      (mantissa : ℚ) * 2 ^ exponent < 10 ^ (309 : Int) := by
  obtain ⟨hbits, hleast, hgreatest, -⟩ := hcanonical
  have hone : (1 : ℚ) ≤ mantissa := by exact_mod_cast hpos
  have hmantissa : (mantissa : ℚ) < 2 ^ (53 : Int) := by exact_mod_cast hbits
  constructor
  · have hpowers : (2 : ℕ) ^ 1074 < 10 ^ 325 := by decide +kernel
    calc (10 : ℚ) ^ (-325 : Int) < 2 ^ (-1074 : Int) := by
          rw [zpow_neg, zpow_neg, inv_lt_inv₀ (by positivity) (by positivity)]
          exact_mod_cast hpowers
      _ ≤ 2 ^ exponent := zpow_le_zpow_right₀ one_le_two hleast
      _ ≤ mantissa * 2 ^ exponent := le_mul_of_one_le_left (by positivity) hone
  · have hpowers : (2 : ℕ) ^ 1024 < 10 ^ 309 := by decide +kernel
    calc (mantissa : ℚ) * 2 ^ exponent < 2 ^ (53 : Int) * 2 ^ (971 : Int) :=
          mul_lt_mul hmantissa (zpow_le_zpow_right₀ one_le_two hgreatest) (by positivity) (by positivity)
      _ = 2 ^ (1024 : Int) := by rw [← zpow_add₀ two_ne_zero]; rfl
      _ < 10 ^ (309 : Int) := by exact_mod_cast hpowers

/-- A decimal that is closer to a number than a part in `2 ^ 54` of it is read as that number. -/
theorem ofDecimal_of_near (negative : Bool) {digits mantissa : Nat} {exponent place : Int}
    (hcanonical : Canonical (.finite negative mantissa exponent))
    (hnear : 2 ^ 54 * |(digits : ℚ) * 10 ^ place - mantissa * 2 ^ exponent| <
      mantissa * 2 ^ exponent) :
    ofDecimal negative digits place = .finite negative mantissa exponent := by
  have hsize : (0 : ℚ) < mantissa * 2 ^ exponent :=
    lt_of_le_of_lt (mul_nonneg (by positivity) (abs_nonneg _)) hnear
  have hmantissa : 0 < mantissa := by
    exact_mod_cast pos_of_mul_pos_left hsize (by positivity)
  obtain ⟨hleast, hgreatest⟩ := size_bounds hcanonical hmantissa
  obtain ⟨hlow, hhigh⟩ := abs_sub_lt_iff.mp ((lt_div_iff₀' (by positivity)).mpr hnear)
  have hvalue : (0 : ℚ) < digits * 10 ^ place := by linarith
  have hdigits : 0 < digits := by
    exact_mod_cast pos_of_mul_pos_left hvalue (by positivity)
  have htop : Int.log 10 ((digits : ℚ) * 10 ^ place) < 310 := by
    refine (Int.lt_zpow_iff_log_lt (by decide) hvalue).mp ?_
    have hnext : (10 : ℚ) ^ (310 : Int) = 10 * 10 ^ (309 : Int) := zpow_add₀ (by norm_num) 1 309
    rw [Nat.cast_ofNat, hnext]
    generalize (10 : ℚ) ^ (309 : Int) = top at hgreatest ⊢
    linarith
  have hbottom : -326 ≤ Int.log 10 ((digits : ℚ) * 10 ^ place) := by
    refine (Int.zpow_le_iff_le_log (by decide) hvalue).mp ?_
    have hnext : (10 : ℚ) ^ (-325 : Int) = 10 * 10 ^ (-326 : Int) := zpow_add₀ (by norm_num) 1 (-326)
    rw [Nat.cast_ofNat]
    rw [hnext] at hleast
    generalize (10 : ℚ) ^ (-326 : Int) = bottom at hleast ⊢
    linarith
  have hmagnitude := magnitude_eq hdigits place
  unfold ofDecimal
  rw [if_neg hdigits.ne']
  dsimp only
  rw [if_neg (by omega), if_neg (by omega)]
  refine ofRatio_of_near negative (decimal_pos place) hcanonical ?_
  rwa [decimal_div]

end ReactiveMarkup.Double
