import ReactiveMarkup.Proofs.Number.Shortest

/-!
# Numbers are read as they were written

The text of a finite number in any format is a sign or none and then digits with a point or an exponent
among them. However the point is placed, with zeros before or behind the digits, with an exponent or
without, the text reads as the shortest digits of the number, and these read back.
-/

namespace ReactiveMarkup.Decimal

open Double (Canonical ofDecimal)

/-! ## Reading what is written -/

/-- A number in digits, from what its parts are read as. -/
theorem readUnsigned_eq (negative : Bool) {whole rest fraction tail : List Char} {exponent : Int}
    (hne : whole ≠ []) (hwhole : ∀ c ∈ whole, c.isDigit = true)
    (hrest : ∀ c ∈ rest.head?, c.isDigit = false) (hfraction : readFraction rest = (fraction, tail))
    (hexponent : readExponent tail = some exponent) :
    readUnsigned negative (whole ++ rest) =
      some (ofDecimal negative (natOfDigits (whole ++ fraction)) (exponent - fraction.length)) := by
  have hspan : spanDigits (whole ++ rest) = (whole, rest) := span_append hwhole hrest
  have hsome : whole.isEmpty = false := List.isEmpty_eq_false_iff.mpr hne
  simp only [readUnsigned, hspan, hfraction, hsome, Bool.false_and, Bool.false_eq_true, if_false,
    hexponent]
  rfl

theorem readFraction_point {fraction tail : List Char} (hfraction : ∀ c ∈ fraction, c.isDigit = true)
    (htail : ∀ c ∈ tail.head?, c.isDigit = false) :
    readFraction ('.' :: (fraction ++ tail)) = (fraction, tail) := span_append hfraction htail

/-- An exponent with its mark and sign. -/
theorem readExponent_mark (exponent : Int) :
    readExponent ('e' :: (if exponent < 0 then '-' else '+') :: Nat.toDigits 10 exponent.natAbs) =
      some exponent := by
  have hempty : (Nat.toDigits 10 exponent.natAbs).isEmpty = false :=
    List.isEmpty_eq_false_iff.mpr Nat.toDigits_ne_nil
  have hall : (Nat.toDigits 10 exponent.natAbs).all Char.isDigit = true :=
    List.all_eq_true.mpr fun c hc => Nat.isDigit_of_mem_toDigits (by decide) (by decide) hc
  by_cases hneg : exponent < 0
  · simp only [if_pos hneg, readExponent, readSign, hempty, hall, natOfDigits_toDigits,
      beq_self_eq_true, Bool.true_or, Bool.not_true, Bool.or_self, Bool.false_eq_true, if_true, if_false]
    congr 1
    omega
  · simp only [if_neg hneg, readExponent, readSign, hempty, hall, natOfDigits_toDigits,
      beq_self_eq_true, Bool.true_or, Bool.not_true, Bool.or_self, Bool.false_eq_true, if_true, if_false]
    congr 1
    omega

/-! ## Sizes of numbers -/

/-- The characters numbers are written with. -/
def isNumeral (c : Char) : Bool := c.isDigit || ['.', 'e', '+', '-'].contains c

/-- A text is a number without a sign, with a point or an exponent, and reads as some digits. -/
structure Written (text : List Char) (digits : Nat) (place : Int) : Prop where
  begins : text.head?.any Char.isDigit = true
  marked : ∃ c ∈ text, c = '.' ∨ c = 'e'
  numeral : ∀ c ∈ text, isNumeral c = true
  reads : ∀ negative, readUnsigned negative text = some (ofDecimal negative digits place)

theorem isNumeral_of_isDigit {c : Char} (h : c.isDigit = true) : isNumeral c = true := by
  rw [isNumeral, h, Bool.true_or]

theorem Written.congr {text : List Char} {digits digits' : Nat} {place place' : Int}
    (h : Written text digits place)
    (hsame : (digits : ℚ) * 10 ^ place = digits' * 10 ^ place') : Written text digits' place' :=
  { h with reads := fun negative => by rw [h.reads negative, Double.ofDecimal_congr negative hsame] }

/-- Digits, a point, and digits. -/
theorem written_point {whole fraction : List Char} (hne : whole ≠ [])
    (hwhole : ∀ c ∈ whole, c.isDigit = true) (hfraction : ∀ c ∈ fraction, c.isDigit = true) :
    Written (whole ++ '.' :: fraction) (natOfDigits (whole ++ fraction)) (-fraction.length) where
  begins := by
    obtain ⟨c, rest, rfl⟩ := List.exists_cons_of_ne_nil hne
    exact hwhole c List.mem_cons_self
  marked := ⟨'.', List.mem_append_right _ List.mem_cons_self, .inl rfl⟩
  numeral := by
    rw [List.forall_mem_append, List.forall_mem_cons]
    exact ⟨fun c hc => isNumeral_of_isDigit (hwhole c hc), rfl,
      fun c hc => isNumeral_of_isDigit (hfraction c hc)⟩
  reads negative := by
    have hpoint : readFraction ('.' :: (fraction ++ [])) = (fraction, []) :=
      readFraction_point hfraction (by simp)
    rw [List.append_nil] at hpoint
    rw [readUnsigned_eq negative hne hwhole (by simp) hpoint rfl, zero_sub]

theorem isDigit_of_mem_zeros (count : Nat) : ∀ c ∈ List.replicate count '0', c.isDigit = true := by
  intro c hc
  rw [List.eq_of_mem_replicate hc]
  rfl

/-- Digits that all stand behind the point. -/
theorem written_below_one {digits : List Char} {point : Int} (hne : digits ≠ [])
    (hdigits : ∀ c ∈ digits, c.isDigit = true) (hpoint : point ≤ 0) :
    Written (plain ⟨digits, point⟩).toList (natOfDigits digits) (point - digits.length) := by
  have hsome : (List.replicate (-point).toNat '0' ++ digits).isEmpty = false :=
    List.isEmpty_eq_false_iff.mpr (List.append_ne_nil_of_right_ne_nil _ hne)
  have h := written_point (List.cons_ne_nil '0' []) (isDigit_of_mem_zeros 1)
    (List.forall_mem_append.mpr ⟨isDigit_of_mem_zeros (-point).toNat, hdigits⟩)
  rw [← List.replicate_one, natOfDigits_zeros_append, natOfDigits_zeros_append, List.length_append,
    List.length_replicate] at h
  simp only [plain, String.toList_ofList, if_pos hpoint, hsome, Bool.false_eq_true, if_false]
  rw [show point - digits.length = -(((-point).toNat + digits.length : ℕ) : Int) by omega]
  exact h

/-- Digits that all stand before the point. -/
theorem written_whole {digits : List Char} {point : Int} (hne : digits ≠ [])
    (hdigits : ∀ c ∈ digits, c.isDigit = true) (hpoint : 0 < point) (hall : digits.length ≤ point.toNat) :
    Written (plain ⟨digits, point⟩).toList (natOfDigits digits) (point - digits.length) := by
  have h := written_point (List.append_ne_nil_of_left_ne_nil hne _)
    (List.forall_mem_append.mpr
      ⟨hdigits, isDigit_of_mem_zeros (point - digits.length).toNat⟩)
    (isDigit_of_mem_zeros 1)
  simp only [plain, String.toList_ofList, if_neg hpoint.not_ge, List.take_of_length_le hall,
    List.drop_eq_nil_of_le hall, List.isEmpty_nil, if_true]
  refine h.congr ?_
  rw [List.append_assoc, ← List.replicate_add, natOfDigits_append_zeros, List.length_replicate]
  push_cast
  rw [mul_assoc, ← zpow_natCast, ← zpow_add₀ (by norm_num)]
  congr 2
  push_cast
  omega

/-- Digits with the point among them. -/
theorem written_split {digits : List Char} {point : Int} (hdigits : ∀ c ∈ digits, c.isDigit = true)
    (hpoint : 0 < point) (hsome : point.toNat < digits.length) :
    Written (plain ⟨digits, point⟩).toList (natOfDigits digits) (point - digits.length) := by
  have hwhole : digits.take point.toNat ≠ [] := by
    rw [Ne, List.take_eq_nil_iff, not_or]
    exact ⟨by omega, List.ne_nil_of_length_pos (by omega)⟩
  have hfraction : (digits.drop point.toNat).isEmpty = false := by
    rw [List.isEmpty_eq_false_iff, Ne, List.drop_eq_nil_iff, not_le]
    exact hsome
  have h := written_point hwhole (fun c hc => hdigits c (List.mem_of_mem_take hc))
    (fun c hc => hdigits c (List.mem_of_mem_drop (i := point.toNat) hc))
  rw [List.take_append_drop, List.length_drop] at h
  simp only [plain, String.toList_ofList, if_neg hpoint.not_ge, hfraction, Bool.false_eq_true, if_false]
  rw [show (point - digits.length).toNat = 0 by omega, List.replicate_zero, List.append_nil,
    show point - digits.length = -((digits.length - point.toNat : ℕ) : Int) by omega]
  exact h

/-- The text of digits without an exponent. -/
theorem written_plain {d : Digits} (hne : d.digits ≠ [])
    (hdigits : ∀ c ∈ d.digits, c.isDigit = true) :
    Written (plain d).toList (natOfDigits d.digits) (d.point - d.digits.length) := by
  obtain ⟨digits, point⟩ := d
  rcases le_or_gt point 0 with hpoint | hpoint
  · exact written_below_one hne hdigits hpoint
  · rcases le_or_gt digits.length point.toNat with hall | hsome
    · exact written_whole hne hdigits hpoint hall
    · exact written_split hdigits hpoint hsome

/-- The text of digits with an exponent. -/
theorem written_scientific {d : Digits} (hne : d.digits ≠ [])
    (hdigits : ∀ c ∈ d.digits, c.isDigit = true) :
    Written (scientific d).toList (natOfDigits d.digits) (d.point - d.digits.length) := by
  obtain ⟨digits, point⟩ := d
  dsimp only at hne hdigits ⊢
  obtain ⟨first, fraction, rfl⟩ := List.exists_cons_of_ne_nil hne
  obtain ⟨hfirst, hfraction⟩ := List.forall_mem_cons.mp hdigits
  let tail := 'e' :: (if point - 1 < 0 then '-' else '+') :: Nat.toDigits 10 (point - 1).natAbs
  let rest := (if fraction.isEmpty then [] else '.' :: fraction) ++ tail
  have htext : (scientific ⟨first :: fraction, point⟩).toList = [first] ++ rest := by
    rw [scientific, String.toList_ofList]
    simp only [rest, tail, List.drop_succ_cons, List.drop_zero, List.take_succ_cons, List.take_zero,
      List.append_assoc]
    rfl
  have hsplit : readFraction rest = (fraction, tail) := by
    cases fraction with
    | nil => rfl
    | cons c more => exact readFraction_point hfraction (by simp [tail])
  have hrest : ∀ c ∈ rest.head?, c.isDigit = false := by
    cases fraction with
    | nil => simp [rest, tail]
    | cons c more => simp [rest]
  have hnumeral : ∀ c ∈ rest, isNumeral c = true := by
    refine List.forall_mem_append.mpr ⟨?_, List.forall_mem_cons.mpr ⟨rfl,
      List.forall_mem_cons.mpr ⟨by split <;> rfl, fun c hc => isNumeral_of_isDigit
        (Nat.isDigit_of_mem_toDigits (by decide) (by decide) hc)⟩⟩⟩
    split
    · exact List.forall_mem_nil _
    · exact List.forall_mem_cons.mpr ⟨rfl, fun c hc => isNumeral_of_isDigit (hfraction c hc)⟩
  rw [htext]
  refine ⟨hfirst, ⟨'e', ?_, .inr rfl⟩,
    List.forall_mem_cons.mpr ⟨isNumeral_of_isDigit hfirst, hnumeral⟩, fun negative => ?_⟩
  · exact List.mem_append_right _ (List.mem_append_right _ List.mem_cons_self)
  · rw [readUnsigned_eq negative (List.cons_ne_nil _ _) (List.forall_mem_singleton.mpr hfirst) hrest
      hsplit (readExponent_mark _), List.singleton_append, List.length_cons]
    congr 2
    push_cast
    ring

theorem written_either {d : Digits} (hne : d.digits ≠ []) (hdigits : ∀ c ∈ d.digits, c.isDigit = true)
    (isPlain : Bool) : Written (if isPlain then plain d else scientific d).toList
      (natOfDigits d.digits) (d.point - d.digits.length) := by
  cases isPlain
  · exact written_scientific hne hdigits
  · exact written_plain hne hdigits

/-! ## Numbers -/

/-- The text of a finite number is a sign or none, and digits that read as its size. -/
theorem exists_written (format : Format) {negative : Bool} {mantissa : Nat} {exponent : Int}
    (hcanonical : Canonical (.finite negative mantissa exponent)) :
    ∃ text digits place, Written text digits place ∧
      ofDecimal negative digits place = .finite negative mantissa exponent ∧
      (write format (.finite negative mantissa exponent)).toList =
        if negative then '-' :: text else text := by
  have hsign (size : String) : (if negative then "-" ++ size else size).toList =
      if negative then '-' :: size.toList else size.toList := by
    cases negative
    · rfl
    · rw [if_pos rfl, if_pos rfl, String.toList_append]
      rfl
  simp only [write, hsign]
  rcases Nat.eq_zero_or_pos mantissa with rfl | hpos
  · have hzero : exponent = -1074 := by
      obtain ⟨-, -, -, hleast | hfull⟩ := hcanonical
      · exact hleast
      · exact absurd hfull (by decide)
    rw [if_pos rfl, hzero]
    exact ⟨_, _, _, written_point (List.cons_ne_nil '0' []) (isDigit_of_mem_zeros 1)
      (isDigit_of_mem_zeros 1), rfl, rfl⟩
  · rw [if_neg hpos.ne']
    obtain ⟨hne, hdigits, hreads⟩ := shortest_reads hcanonical hpos
    exact ⟨_, _, _, written_either hne hdigits _, Double.ofDecimal_of_unsigned negative hreads, rfl⟩

theorem readSign_of_digit {text : List Char} (h : text.head?.any Char.isDigit = true) :
    readSign text = (false, text) := by
  unfold readSign
  split
  · cases h
  · cases h
  · rfl

/-- A number is read as it was written. -/
theorem readDouble_write (format : Format) {d : Double} (hcanonical : d.Canonical) :
    readDouble (write format d).toList = some d := by
  cases d with
  | infinite negative => cases hcanonical
  | nan => cases hcanonical
  | finite negative mantissa exponent =>
      obtain ⟨text, digits, place, hwritten, hreads, htext⟩ := exists_written format hcanonical
      have hsign : readSign (if negative then '-' :: text else text) = (negative, text) := by
        cases negative
        · exact readSign_of_digit hwritten.begins
        · rfl
      rw [htext, readDouble_of_digit hsign hwritten.begins, hwritten.reads, hreads]

/-- What is read is in its one form, infinite, or not a number. -/
theorem canonical_of_readDouble {text : List Char} {d : Double} (h : readDouble text = some d)
    (hfinite : d.isFinite = true) : d.Canonical := by
  unfold readDouble at h
  dsimp only at h
  split at h
  · cases h
    cases hfinite
  · split at h
    · cases h
      cases hfinite
    · unfold readUnsigned at h
      dsimp only at h
      split at h
      · cases h
      · obtain ⟨exponent, -, hread⟩ := Option.bind_eq_some_iff.mp h
        cases hread
        exact Double.canonical_ofDecimal hfinite

end ReactiveMarkup.Decimal
