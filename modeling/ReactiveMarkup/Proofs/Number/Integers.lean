import Mathlib.Data.List.TakeDrop
import ReactiveMarkup.Number.Reading
import ReactiveMarkup.Value.Basic

/-!
# Integers that are read exactly

The digits of a natural number up to `2 ^ 53` are read as that number. Below the bound a number
fills the mantissa without rounding; the bound itself is one bit longer, and that bit is zero.
-/

namespace ReactiveMarkup

/-- What natural numbers are read from. -/
theorem Value.nat?_eq_some_iff {value : Value} {n : Nat} :
    value.nat? = some n ↔ value = .number (.int n) := by
  constructor
  · intro h
    unfold nat? at h
    split at h
    · split at h
      · next hm => rw [← Option.some.inj h, Int.toNat_of_nonneg hm]
      · cases h
    · cases h
  · rintro rfl
    rw [nat?, if_pos (Int.natCast_nonneg n), Int.toNat_natCast]

/-- The longest front of one kind, where what comes behind it is not of that kind. -/
theorem span_append {p : Char → Bool} {front rest : List Char} (hfront : ∀ c ∈ front, p c = true)
    (hrest : ∀ c ∈ rest.head?, p c = false) : (front ++ rest).span p = (front, rest) := by
  rw [List.span_eq_takeWhile_dropWhile, List.takeWhile_append_of_pos hfront,
    List.dropWhile_append_of_pos hfront]
  cases rest with
  | nil => simp
  | cons c rest => simp [hrest c rfl]

namespace Double

theorem roundDiv_one (n : Nat) : roundDiv n 1 = n := by simp [roundDiv, Nat.mod_one]

theorem binaryMagnitude_one {n : Nat} (h : 0 < n) : binaryMagnitude n 1 = n.log2 := by
  have hlow : 1 <<< n.log2 ≤ n := by
    rw [Nat.shiftLeft_eq, Nat.one_mul]
    exact Nat.log2_self_le (Nat.pos_iff_ne_zero.mp h)
  have hguess : (n.log2 : Int) - (Nat.log2 1 : Nat) = n.log2 := Int.sub_zero _
  have hzero : (-(n.log2 : Int)).toNat = 0 := by omega
  simp only [binaryMagnitude, hguess, hzero, Int.toNat_natCast, Nat.shiftLeft_zero]
  exact if_neg (Nat.not_lt.mpr hlow)

/-- A positive number of at most 53 bits is moved up to the front of the mantissa. -/
theorem ofRatio_one {n : Nat} (hpos : 0 < n) (hlt : n < 1 <<< 53) :
    ofRatio false n 1 = .finite false (n <<< (52 - n.log2)) (-((52 - n.log2 : Nat) : Int)) := by
  have hlog : n.log2 < 53 := by
    rw [Nat.log2_lt (Nat.pos_iff_ne_zero.mp hpos)]
    simpa [Nat.shiftLeft_eq] using hlt
  have hexponent : max ((n.log2 : Int) - 52) (-1074) = -((52 - n.log2 : Nat) : Int) := by omega
  have hmantissa : n <<< (52 - n.log2) < 1 <<< 53 := by
    have hup : n < 1 <<< (n.log2 + 1) := by
      rw [Nat.shiftLeft_eq, Nat.one_mul]
      exact Nat.lt_log2_self
    have hmoved : n <<< (52 - n.log2) < (1 <<< (n.log2 + 1)) <<< (52 - n.log2) := by
      rw [Nat.shiftLeft_eq n, Nat.shiftLeft_eq (1 <<< _)]
      exact Nat.mul_lt_mul_of_pos_right hup (Nat.two_pow_pos _)
    rwa [← Nat.shiftLeft_add, show n.log2 + 1 + (52 - n.log2) = 53 by omega] at hmoved
  have hup : (-(-((52 - n.log2 : Nat) : Int))).toNat = 52 - n.log2 := by omega
  have hdown : (-((52 - n.log2 : Nat) : Int)).toNat = 0 := by omega
  simp only [ofRatio, Nat.pos_iff_ne_zero.mp hpos, binaryMagnitude_one hpos, hexponent, hup, hdown,
    Nat.shiftLeft_zero, roundDiv_one, Nat.ne_of_lt hmantissa, if_false]
  exact if_neg (by omega)

/-- A natural number up to `2 ^ 53` is equal to the binary64 number nearest to it. -/
theorem toInt?_ofRatio_one {n : Nat} (hpos : 0 < n) (hle : n ≤ 1 <<< 53) :
    (ofRatio false n 1).toInt? = some (n : Int) := by
  rcases Nat.lt_or_eq_of_le hle with hlt | rfl
  · have hup : (-(-((52 - n.log2 : Nat) : Int))).toNat = 52 - n.log2 := by omega
    have hdown : (-((52 - n.log2 : Nat) : Int)).toNat = 0 := by omega
    have hmoved : n <<< (52 - n.log2) = n * 1 <<< (52 - n.log2) := by
      rw [Nat.shiftLeft_eq, Nat.shiftLeft_eq 1, Nat.one_mul]
    have hden : 0 < 1 <<< (52 - n.log2) := by
      rw [Nat.shiftLeft_eq, Nat.one_mul]
      exact Nat.two_pow_pos _
    rw [ofRatio_one hpos hlt]
    simp only [toInt?, numerator, denominator, hup, hdown, Nat.shiftLeft_zero, hmoved,
      Nat.mul_mod_left, Nat.mul_div_cancel _ hden, if_true, Bool.false_eq_true, if_false]
  · decide +kernel

/-- A natural number up to `2 ^ 53` in decimal is that number. -/
theorem toInt?_ofDecimal_zero {n : Nat} (hle : n ≤ 1 <<< 53) :
    (ofDecimal false n 0).toInt? = some (n : Int) := by
  rcases Nat.eq_zero_or_pos n with rfl | hpos
  · decide +kernel
  · have hlength : (Nat.toDigits 10 n).length ≤ 16 :=
      (Nat.length_toDigits_le_iff (by decide) (by decide)).mpr (Nat.lt_of_le_of_lt hle (by decide))
    have hdecimal : ofDecimal false n 0 = ofRatio false n 1 := by
      simp only [ofDecimal, Nat.pos_iff_ne_zero.mp hpos, if_false]
      rw [if_neg (by omega), if_neg (by omega)]
      simp
    rw [hdecimal, toInt?_ofRatio_one hpos hle]

end Double

namespace Decimal

theorem natOfDigits_toDigits (n : Nat) : natOfDigits (Nat.toDigits 10 n) = n := by
  have h := Nat.ofDigitChars_ten_toDigits (n := n)
  rwa [Nat.ofDigitChars_eq_foldl] at h

theorem toLower_of_isDigit {c : Char} (h : c.isDigit = true) : c.toLower = c := by
  have hle : c.toNat ≤ 57 := (Char.isDigit_iff_toNat.mp h).2
  refine dif_neg fun hupper => ?_
  have hge : 65 ≤ c.toNat := UInt32.le_iff_toNat_le.mp hupper.1
  omega

theorem readSign_digits {digits : List Char} (hdigits : ∀ c ∈ digits, c.isDigit = true) :
    readSign digits = (false, digits) := by
  unfold readSign
  split
  · cases hdigits '-' List.mem_cons_self
  · cases hdigits '+' List.mem_cons_self
  · rfl

/-- The written forms of an integer: digits, with or without a sign before them. -/
inductive Spells : List Char → Int → Prop
  | plain {digits : List Char} (some : digits ≠ []) (all : ∀ c ∈ digits, c.isDigit = true) :
      Spells digits (natOfDigits digits)
  | plus {digits : List Char} (some : digits ≠ []) (all : ∀ c ∈ digits, c.isDigit = true) :
      Spells ('+' :: digits) (natOfDigits digits)
  | minus {digits : List Char} (some : digits ≠ []) (all : ∀ c ∈ digits, c.isDigit = true) :
      Spells ('-' :: digits) (-natOfDigits digits)

theorem spells_iff {text : List Char} {n : Int} :
    Spells text n ↔ (readSign text).2 ≠ [] ∧ (∀ c ∈ (readSign text).2, c.isDigit = true) ∧
      (if (readSign text).1 then -(natOfDigits (readSign text).2 : Int)
        else natOfDigits (readSign text).2) = n := by
  constructor
  · rintro (⟨some, all⟩ | ⟨some, all⟩ | ⟨some, all⟩)
    · rw [readSign_digits all]
      exact ⟨some, all, rfl⟩
    · exact ⟨some, all, rfl⟩
    · exact ⟨some, all, rfl⟩
  · rintro ⟨some, all, rfl⟩
    revert some all
    unfold readSign
    split
    · exact .minus
    · exact .plus
    · exact .plain

/-- What is read is an integer between the bounds, in one of its written forms. -/
theorem readInt_eq_some_iff {low high n : Int} {text : List Char} :
    readInt low high text = some n ↔ Spells text n ∧ low ≤ n ∧ n ≤ high := by
  rw [spells_iff, readInt]
  dsimp only
  split
  · next hrefused =>
      refine iff_of_false (by simp) ?_
      rintro ⟨⟨hsome, hall, -⟩, -⟩
      rcases Bool.or_eq_true_iff.mp hrefused with hempty | hother
      · exact hsome (List.isEmpty_iff.mp hempty)
      · rw [List.all_eq_true.mpr hall] at hother
        cases hother
  · next hdigits =>
      have hread : (readSign text).2 ≠ [] ∧ ∀ c ∈ (readSign text).2, c.isDigit = true := by
        simpa using hdigits
      generalize (if (readSign text).1 then -(natOfDigits (readSign text).2 : Int)
        else natOfDigits (readSign text).2) = value
      grind

/-- A text that goes on with a digit behind its sign is none of the words. -/
theorem readDouble_of_digit {text body : List Char} {negative : Bool}
    (hsign : readSign text = (negative, body)) (hdigit : body.head?.any Char.isDigit = true) :
    readDouble text = readUnsigned negative body := by
  have hword : ∀ word : String, word.toList.head?.any Char.isDigit = false →
      (String.ofList (body.map Char.toLower) == word) = false := by
    intro word hword
    refine beq_eq_false_iff_ne.mpr ?_
    rintro rfl
    cases body with
    | nil => cases hdigit
    | cons c rest =>
        have hc : c.isDigit = true := hdigit
        rw [String.toList_ofList, List.map_cons, List.head?_cons, Option.any_some,
          toLower_of_isDigit hc, hc] at hword
        cases hword
  simp only [readDouble, hsign, hword "inf" (by decide), hword "infinity" (by decide),
    hword "nan" (by decide), Bool.or_self, Bool.false_eq_true, if_false]

/-- Digits are read as the number they spell. -/
theorem readDouble_digits {digits : List Char} (hne : digits ≠ [])
    (hdigits : ∀ c ∈ digits, c.isDigit = true) :
    readDouble digits = some (.ofDecimal false (natOfDigits digits) 0) := by
  have hspan : spanDigits digits = (digits, []) := by
    have h : (digits ++ []).span Char.isDigit = (digits, []) := span_append hdigits (by simp)
    rwa [List.append_nil] at h
  obtain ⟨c, rest, rfl⟩ := List.exists_cons_of_ne_nil hne
  rw [readDouble_of_digit (readSign_digits hdigits) (hdigits c List.mem_cons_self)]
  simp [readUnsigned, hspan, readFraction, readExponent]

end Decimal

/-- The value of the digits of an integer. -/
theorem ofDouble_readDouble_toDigits {n : Nat} (hle : n ≤ 1 <<< 53) :
    (Decimal.readDouble (Nat.toDigits 10 n)).map Value.ofDouble = some (.number (.int n)) := by
  have hdigits := Decimal.readDouble_digits (Nat.toDigits_ne_nil (b := 10) (n := n))
    (fun c hc => Nat.isDigit_of_mem_toDigits (b := 10) (n := n) (by decide) (by decide) hc)
  have hsize : (n : Int).natAbs < 1 <<< 63 :=
    Nat.lt_of_le_of_lt (Nat.le_of_eq (Int.natAbs_natCast n)) (Nat.lt_of_le_of_lt hle (by decide))
  rw [hdigits, Decimal.natOfDigits_toDigits, Option.map_some, Value.ofDouble,
    Double.toInt?_ofDecimal_zero hle]
  simp only [hsize, if_true]

end ReactiveMarkup
