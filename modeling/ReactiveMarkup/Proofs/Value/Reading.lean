import ReactiveMarkup.Proofs.Value.Compact
import ReactiveMarkup.Value.Document

/-!
# Compact texts are read back

The compact text of a value is the text of one document, which has the members of the value in their order.
This needs nothing of the texts in the value: a quote is undone character by character. Of the numbers it
needs that each is read back itself, which an integer of 64 bits is and a binary64 number may not be, since
reading rounds twice.

Reading looks at what stands behind a value only to see that it ends there. In a compact text that is a comma,
a bracket or a brace, or nothing, so what is said of one value is said with any such text behind it; the fuel
is bounded by the length of the text.
-/

namespace ReactiveMarkup

/-- What may stand behind a value in a compact text. -/
def Value.Closes (rest : List Char) : Prop := ∀ c ∈ rest.head?, c = ',' ∨ c = ']' ∨ c = '\x7d'

open Value (Closes)

/-- Whether the text of a number is a literal of that number. -/
def Number.readsBack (n : Number) : Bool :=
  match Value.Numeral.readParts (Value.numberText n).toList with
  | some (parts, []) => parts.value = some n
  | _ => false

namespace Value

mutual

/-- The numbers in a value. -/
def numbers : Value → List Number
  | .number n => [n]
  | .array items => numbersOfAll items
  | .object fields => numbersOfFields fields
  | _ => []

/-- The numbers in the members of an array. -/
def numbersOfAll : List Value → List Number
  | [] => []
  | item :: rest => numbers item ++ numbersOfAll rest

/-- The numbers in the fields of an object. -/
def numbersOfFields : List (String × Value) → List Number
  | [] => []
  | (_, value) :: rest => numbers value ++ numbersOfFields rest

end

theorem numbersOfAll_eq (items : List Value) : numbersOfAll items = items.flatMap numbers := by
  induction items with
  | nil => rfl
  | cons item rest ih => rw [numbersOfAll, ih, List.flatMap_cons]

theorem numbersOfFields_eq (fields : List (String × Value)) :
    numbersOfFields fields = fields.flatMap fun field => field.2.numbers := by
  induction fields with
  | nil => rfl
  | cons field rest ih =>
      rw [numbersOfFields, ih, List.flatMap_cons]

end Value

namespace Document

mutual

/-- The document that the compact text of a value is. -/
def ofValue : Value → Document
  | .null => .null
  | .bool b => .bool b
  | .number n => .number (some n)
  | .string text => .string (some text)
  | .array items => .array (ofValues items)
  | .object fields => .object (ofFields fields)

/-- The documents of the members of an array. -/
def ofValues : List Value → List Document
  | [] => []
  | item :: rest => ofValue item :: ofValues rest

/-- The members that the fields of an object are written as. -/
def ofFields : List (String × Value) → List (Option String × Document)
  | [] => []
  | (name, value) :: rest => (some name, ofValue value) :: ofFields rest

end

end Document

/-! ## Numbers -/

namespace Decimal

variable {rest : List Char}

theorem spanDigits_append (h : Closes rest) (text : List Char) :
    spanDigits (text ++ rest) = ((spanDigits text).1, (spanDigits text).2 ++ rest) := by
  simp only [spanDigits, List.span_eq_takeWhile_dropWhile]
  induction text with
  | nil =>
      cases rest with
      | nil => rfl
      | cons c rest => rcases h c rfl with rfl | rfl | rfl <;> rfl
  | cons c text ih => cases hc : c.isDigit <;> simp_all

theorem readFraction_of_ne {c : Char} (h : c ≠ '.') (text : List Char) :
    readFraction (c :: text) = ([], c :: text) := by
  unfold readFraction
  split
  · next heq => exact absurd (List.cons.inj heq).1 h
  · rfl

theorem readFraction_append (h : Closes rest) (text : List Char) :
    readFraction (text ++ rest) = ((readFraction text).1, (readFraction text).2 ++ rest) := by
  cases text with
  | nil =>
      cases rest with
      | nil => rfl
      | cons c rest => rcases h c rfl with rfl | rfl | rfl <;> rfl
  | cons c text =>
      rw [List.cons_append]
      by_cases hc : c = '.'
      · subst hc
        exact spanDigits_append h text
      · rw [readFraction_of_ne hc, readFraction_of_ne hc, List.cons_append]

theorem readSign_append (h : Closes rest) (text : List Char) :
    readSign (text ++ rest) = ((readSign text).1, (readSign text).2 ++ rest) := by
  cases text with
  | nil =>
      cases rest with
      | nil => rfl
      | cons c rest => rcases h c rfl with rfl | rfl | rfl <;> rfl
  | cons c text =>
      rw [List.cons_append]
      by_cases hminus : c = '-'
      · subst hminus
        rfl
      · by_cases hplus : c = '+'
        · subst hplus
          rfl
        · simp [readSign, hminus, hplus]

end Decimal

namespace Value.Numeral

open Decimal

variable {rest : List Char}

theorem head?_append_point (h : Closes rest) (text : List Char) :
    ((text ++ rest).head? == some '.') = (text.head? == some '.') := by
  cases text with
  | nil =>
      cases rest with
      | nil => rfl
      | cons c rest => rcases h c rfl with rfl | rfl | rfl <;> rfl
  | cons c text => rfl

/-- What is read behind the sign of a literal. -/
def readMagnitude (negative : Bool) (text : List Char) : Option (Parts × List Char) :=
  let (whole, rest) := spanDigits text
  if whole.isEmpty || (whole.head? == some '0' && whole.length > 1) then none
  else
    let (fraction, afterFraction) := readFraction rest
    if rest.head? == some '.' && fraction.isEmpty then none
    else match afterFraction with
      | mark :: more =>
        if mark == 'e' || mark == 'E' then
          let (down, more) := readSign more
          let (digits, rest) := spanDigits more
          if digits.isEmpty then none
          else some (⟨negative, whole, fraction, some (down, digits)⟩, rest)
        else some (⟨negative, whole, fraction, none⟩, afterFraction)
      | [] => some (⟨negative, whole, fraction, none⟩, [])

theorem readParts_of_ne {c : Char} (h : c ≠ '-') (text : List Char) :
    readParts (c :: text) = readMagnitude false (c :: text) := by
  rw [readParts]
  · rfl
  · exact fun more heq => h (List.cons.inj heq).1

theorem readMagnitude_append (h : Closes rest) (negative : Bool) (text : List Char) :
    readMagnitude negative (text ++ rest) =
      (readMagnitude negative text).map fun found => (found.1, found.2 ++ rest) := by
  simp only [readMagnitude, spanDigits_append h, readFraction_append h, head?_append_point h]
  split
  · rfl
  split
  · rfl
  cases (readFraction (spanDigits text).2).2 with
  | nil =>
      cases rest with
      | nil => rfl
      | cons c rest => rcases h c rfl with rfl | rfl | rfl <;> rfl
  | cons mark more =>
      simp only [List.cons_append, readSign_append h, spanDigits_append h]
      split
      · split <;> rfl
      · rfl

/-- What closes a value behind a literal does not change what is read. -/
theorem readParts_append (h : Closes rest) (text : List Char) :
    readParts (text ++ rest) = (readParts text).map fun found => (found.1, found.2 ++ rest) := by
  cases text with
  | nil =>
      cases rest with
      | nil => rfl
      | cons c rest => rcases h c rfl with rfl | rfl | rfl <;> rfl
  | cons c text =>
      by_cases hc : c = '-'
      · subst hc
        exact readMagnitude_append h true text
      · rw [List.cons_append, readParts_of_ne hc, readParts_of_ne hc]
        exact readMagnitude_append h false (c :: text)

theorem keepDigits_eq {kept : Nat} {digits : List Char}
    (h : digits.foldl (fun n c => 10 * n + (c.toNat - '0'.toNat)) kept < 1 <<< 64) :
    keepDigits kept digits = (digits.foldl (fun n c => 10 * n + (c.toNat - '0'.toNat)) kept, 0) := by
  have hgrows (digits : List Char) (kept : Nat) :
      kept ≤ digits.foldl (fun n c => 10 * n + (c.toNat - '0'.toNat)) kept := by
    induction digits generalizing kept with
    | nil => exact Nat.le_refl _
    | cons c rest ih =>
        have hfirst : kept ≤ 10 * kept + (c.toNat - '0'.toNat) := by omega
        exact Nat.le_trans hfirst (ih _)
  induction digits generalizing kept with
  | nil => rfl
  | cons c rest ih =>
      rw [keepDigits, if_pos (Nat.lt_of_le_of_lt (hgrows rest _) h), ih h]
      rfl

/-- The digits of a number do not begin with a zero, unless that is all there is. -/
theorem head?_toDigits {n : Nat} (h : n ≠ 0) : (Nat.toDigits 10 n).head? ≠ some '0' := by
  induction n using Nat.strongRecOn with
  | ind n ih =>
      by_cases hlt : n < 10
      · rw [Nat.toDigits_of_lt_base hlt, List.head?_cons]
        have hall : ∀ n < 10, n ≠ 0 → some (Nat.digitChar n) ≠ some '0' := by decide
        exact hall n hlt h
      · rw [Nat.toDigits_of_base_le (by omega) (by omega), List.head?_append_of_ne_nil _ Nat.toDigits_ne_nil]
        exact ih (n / 10) (by omega) (by omega)

theorem readMagnitude_toDigits (negative : Bool) (n : Nat) :
    readMagnitude negative (Nat.toDigits 10 n) = some (⟨negative, Nat.toDigits 10 n, [], none⟩, []) := by
  have hdigits : ∀ c ∈ Nat.toDigits 10 n, c.isDigit = true := fun c hc =>
    Nat.isDigit_of_mem_toDigits (by decide) (by decide) hc
  have hspan : spanDigits (Nat.toDigits 10 n) = (Nat.toDigits 10 n, []) := by
    have hspan := span_append hdigits (show ∀ c ∈ ([] : List Char).head?, c.isDigit = false by simp)
    rwa [List.append_nil] at hspan
  have hlead : ((Nat.toDigits 10 n).isEmpty ||
      ((Nat.toDigits 10 n).head? == some '0' && (Nat.toDigits 10 n).length > 1)) = false := by
    rw [List.isEmpty_eq_false_iff.mpr Nat.toDigits_ne_nil, Bool.false_or]
    by_cases hzero : n = 0
    · subst hzero
      decide
    · rw [beq_eq_false_iff_ne.mpr (head?_toDigits hzero), Bool.false_and]
  rw [readMagnitude, hspan]
  dsimp only
  rw [hlead]
  rfl

theorem keepDigits_toDigits {n : Nat} (h : n < 1 <<< 64) : keepDigits 0 (Nat.toDigits 10 n) = (n, 0) := by
  have hvalue : (Nat.toDigits 10 n).foldl (fun n c => 10 * n + (c.toNat - '0'.toNat)) 0 = n :=
    Decimal.natOfDigits_toDigits n
  rw [keepDigits_eq (by rwa [hvalue]), hvalue]

/-- The parts of the text of an integer. -/
theorem readParts_int (n : Int) : readParts (Value.numberText (.int n)).toList =
    some (⟨decide (n < 0), Nat.toDigits 10 n.natAbs, [], none⟩, []) := by
  rw [Value.numberText, Int.toString_eq_repr, Int.repr_eq_if]
  split
  · next h =>
      rw [Nat.toList_repr, decide_eq_false (by omega), show n.toNat = n.natAbs by omega]
      cases hdigits : Nat.toDigits 10 n.natAbs with
      | nil => exact absurd hdigits Nat.toDigits_ne_nil
      | cons c digits =>
          rw [readParts_of_ne, ← hdigits]
          · exact readMagnitude_toDigits false n.natAbs
          · rintro rfl
            have hminus : '-' ∈ Nat.toDigits 10 n.natAbs := hdigits ▸ List.mem_cons_self
            cases Nat.isDigit_of_mem_toDigits (by decide) (by decide) hminus
  · next h =>
      rw [String.toList_append, Nat.toList_repr, decide_eq_true (by omega),
        show (-n).toNat = n.natAbs by omega]
      exact readMagnitude_toDigits true n.natAbs

/-- An integer that fits 64 bits, signed or unsigned, is what its parts are taken for. -/
theorem value_int {n : Int} (hlow : -(1 <<< 63 : Nat) ≤ n) (hhigh : n < (1 <<< 64 : Nat)) :
    Parts.value ⟨decide (n < 0), Nat.toDigits 10 n.natAbs, [], none⟩ = some (.int n) := by
  have hfits : (decide (n < 0) && (n.natAbs == 0 || decide (1 <<< 63 < n.natAbs))) = false := by
    by_cases hneg : n < 0
    · have hsome : n.natAbs ≠ 0 := by omega
      have hsmall : ¬1 <<< 63 < n.natAbs := by omega
      rw [decide_eq_true hneg, Bool.true_and, beq_eq_false_iff_ne.mpr hsome, Bool.false_or,
        decide_eq_false hsmall]
    · rw [decide_eq_false hneg, Bool.false_and]
  rw [Parts.value, keepDigits_toDigits (by omega)]
  dsimp only
  rw [hfits]
  refine (if_pos rfl).trans ?_
  by_cases hneg : n < 0
  · rw [decide_eq_true hneg, if_pos rfl, show -(n.natAbs : Int) = n by omega]
  · rw [decide_eq_false hneg, if_neg Bool.false_ne_true, show (n.natAbs : Int) = n by omega]

end Value.Numeral

/-- The text of an integer that fits 64 bits, signed or unsigned, is a literal of that integer. -/
theorem Number.readsBack_int {n : Int} (hlow : -(1 <<< 63 : Nat) ≤ n) (hhigh : n < (1 <<< 64 : Nat)) :
    (Number.int n).readsBack = true := by
  rw [Number.readsBack, Value.Numeral.readParts_int]
  exact decide_eq_true (Value.Numeral.value_int hlow hhigh)

namespace Document

open Value (escapeChar quote compact fieldText commaEach)

/-! ## Quotes -/

theorem readUnits_escape {c e : Char} (h : simpleEscape? e = some c) (hlong : e ≠ 'u') (fuel : Nat)
    (rest : List Char) : readUnits (fuel + 1) ('\\' :: e :: rest) =
      (readUnits fuel rest).map fun found => ((false, c.toNat) :: found.1, found.2) := by
  rw [readUnits, if_neg (by decide), if_pos rfl, h, Option.bind_eq_bind, Option.bind_some]
  · cases readUnits fuel rest <;> rfl
  · exact hlong

theorem readUnits_long {c : Char} (h : c.toNat < 32) (fuel : Nat) (rest : List Char) :
    readUnits (fuel + 1) ('\\' :: 'u' :: '0' :: '0' :: Value.hexDigit (c.toNat / 16) ::
        Value.hexDigit (c.toNat % 16) :: rest) =
      (readUnits fuel rest).map fun found => ((true, c.toNat) :: found.1, found.2) := by
  have hhigh := Value.digit?_hexDigit (show c.toNat / 16 < 16 by omega)
  have hlow := Value.digit?_hexDigit (show c.toNat % 16 < 16 by omega)
  have hhex : readHex ('0' :: '0' :: Value.hexDigit (c.toNat / 16) ::
      Value.hexDigit (c.toNat % 16) :: rest) = some (c.toNat, rest) := by
    have hzero : Hexadecimal.digit? '0' = some 0 := by decide
    simp only [readHex, hzero, hhigh, hlow, Option.bind_eq_bind, Option.bind_some, Option.pure_def]
    congr 2
    omega
  rw [readUnits, if_neg (by decide), if_pos rfl, hhex, Option.bind_eq_bind, Option.bind_some]
  dsimp only
  cases readUnits fuel rest <;> rfl

/-- An escaped character is one unit, which has its number. -/
theorem exists_readUnits_escapeChar (c : Char) (fuel : Nat) (rest : List Char) :
    ∃ marked, (marked = true → c.toNat < 32) ∧ readUnits (fuel + 1) (escapeChar c ++ rest) =
      (readUnits fuel rest).map fun found => ((marked, c.toNat) :: found.1, found.2) := by
  have hcode {n : Nat} (h : c.toNat = n) : c = Char.ofNat n := by rw [← h, Char.ofNat_toNat]
  unfold escapeChar
  split
  · next h => exact ⟨false, by simp, readUnits_escape (by rw [h]; rfl) (by decide) fuel rest⟩
  split
  · next h => exact ⟨false, by simp, readUnits_escape (by rw [h]; rfl) (by decide) fuel rest⟩
  split
  · next h => exact ⟨false, by simp, readUnits_escape (by rw [h]; rfl) (by decide) fuel rest⟩
  split
  · next h => exact ⟨false, by simp, readUnits_escape (by rw [h]; rfl) (by decide) fuel rest⟩
  split
  · next h => exact ⟨false, by simp, readUnits_escape (by rw [h]; rfl) (by decide) fuel rest⟩
  split
  · next h => exact ⟨false, by simp, readUnits_escape (by rw [hcode h]; rfl) (by decide) fuel rest⟩
  split
  · next h => exact ⟨false, by simp, readUnits_escape (by rw [hcode h]; rfl) (by decide) fuel rest⟩
  split
  · next h => exact ⟨true, fun _ => h, readUnits_long h fuel rest⟩
  · next hquote hslash _ _ _ _ _ hcontrol =>
      refine ⟨false, by simp, ?_⟩
      rw [List.cons_append, List.nil_append, readUnits.eq_def]
      dsimp only
      rw [if_neg hquote, if_neg hslash, if_neg hcontrol]
      cases readUnits fuel rest <;> rfl

/-- A unit below the surrogates is the character of its number, marked or not. -/
theorem charsOfUnits_cons {marked : Bool} {c : Char} (h : marked = true → c.toNat < 32)
    (units : List (Bool × Nat)) :
    charsOfUnits ((marked, c.toNat) :: units) = (charsOfUnits units).map (c :: ·) := by
  cases marked with
  | false => rw [charsOfUnits, Char.ofNat_toNat]
  | true =>
      have hlow := h rfl
      rw [charsOfUnits.eq_def]
      dsimp only
      rw [if_neg, if_neg, Char.ofNat_toNat]
      · simp only [Bool.and_eq_true, decide_eq_true_eq]
        omega
      · simp only [Bool.and_eq_true, decide_eq_true_eq]
        omega

/-- The inside of a quote is read as its units, up to the quote behind it. -/
theorem exists_readUnits (text rest : List Char) : ∀ fuel, text.length < fuel →
    ∃ units, readUnits fuel (text.flatMap escapeChar ++ '"' :: rest) = some (units, rest) ∧
      charsOfUnits units = some text := by
  induction text with
  | nil =>
      intro fuel hfuel
      obtain ⟨fuel, rfl⟩ := Nat.exists_eq_add_of_lt hfuel
      exact ⟨[], by simp [readUnits], rfl⟩
  | cons c text ih =>
      intro fuel hfuel
      obtain ⟨fuel, rfl⟩ := Nat.exists_eq_add_one_of_ne_zero (Nat.ne_of_gt (Nat.zero_lt_of_lt hfuel))
      rw [List.length_cons, Nat.add_lt_add_iff_right] at hfuel
      obtain ⟨units, hunits, hchars⟩ := ih fuel hfuel
      obtain ⟨marked, hmarked, hread⟩ :=
        exists_readUnits_escapeChar c fuel (text.flatMap escapeChar ++ '"' :: rest)
      refine ⟨(marked, c.toNat) :: units, ?_, ?_⟩
      · rw [List.flatMap_cons, List.append_assoc, hread, hunits]
        rfl
      · rw [charsOfUnits_cons hmarked, hchars]
        rfl

theorem length_le_flatMap_escapeChar (text : List Char) :
    text.length ≤ (text.flatMap escapeChar).length := by
  induction text with
  | nil => exact Nat.le_refl _
  | cons c text ih =>
      have hsome : 0 < (escapeChar c).length := by
        unfold escapeChar
        repeat' split
        all_goals exact Nat.zero_lt_succ _
      rw [List.flatMap_cons, List.length_append, List.length_cons]
      omega

/-- A quoted text is read back, whatever stands behind it. -/
theorem readString_quote (text : String) (rest : List Char) :
    readString (text.toList.flatMap escapeChar ++ '"' :: rest) = some (some text, rest) := by
  have hfuel := length_le_flatMap_escapeChar text.toList
  obtain ⟨units, hunits, hchars⟩ := exists_readUnits text.toList rest
    ((text.toList.flatMap escapeChar ++ '"' :: rest).length + 1) (by
      rw [List.length_append]
      omega)
  rw [readString, hunits]
  dsimp only [Option.bind_eq_bind, Option.bind_some]
  rw [hchars]
  simp

/-! ## Values -/

theorem skipSpace_cons {c : Char} (h : isSpace c = false) (text : List Char) :
    skipSpace (c :: text) = c :: text := by
  rw [skipSpace, List.dropWhile_cons_of_neg (by simp [h])]

theorem exists_cons_of_readParts {text rest : List Char} {parts : Value.Numeral.Parts}
    (h : Value.Numeral.readParts text = some (parts, rest)) :
    ∃ c more, text = c :: more ∧ (c = '-' ∨ c.isDigit = true) := by
  cases text with
  | nil => cases h
  | cons c more =>
      refine ⟨c, more, rfl, Classical.byContradiction fun hc => ?_⟩
      rw [not_or, Bool.not_eq_true] at hc
      rw [Value.Numeral.readParts_of_ne hc.1, Value.Numeral.readMagnitude, Decimal.spanDigits,
        List.span_eq_takeWhile_dropWhile, List.takeWhile_cons_of_neg (by simp [hc.2])] at h
      cases h

theorem readAny_number {text rest : List Char} {parts : Value.Numeral.Parts}
    (h : Value.Numeral.readParts text = some (parts, rest)) (fuel : Nat) :
    readAny (fuel + 1) text = some (.number parts.value, rest) := by
  obtain ⟨c, more, rfl, hc⟩ := exists_cons_of_readParts h
  -- No character that a literal begins with is white space, or begins anything else.
  have hne : ∀ d ∈ [' ', '\t', '\n', '\r', 'n', 't', 'f', '"', '[', '\x7b'], c ≠ d := by
    rintro d hd rfl
    have hall : [' ', '\t', '\n', '\r', 'n', 't', 'f', '"', '[', '\x7b'].all
        (fun d => d != '-' && !d.isDigit) = true := by decide
    have hother := List.all_eq_true.mp hall c hd
    rw [Bool.and_eq_true, bne_iff_ne, Bool.not_eq_true'] at hother
    rcases hc with rfl | hdigit
    · exact hother.1 rfl
    · exact Bool.false_ne_true (hother.2.symm.trans hdigit)
  simp only [List.forall_mem_cons, List.not_mem_nil, false_imp_iff, implies_true, and_true] at hne
  obtain ⟨hblank, htab, hline, hreturn, hn, ht, hf, hquote, hbracket, hbrace⟩ := hne
  rw [readAny, skipSpace_cons (by simp [isSpace, *])]
  split
  · next heq => exact absurd (List.cons.inj heq).1 hn
  · next heq => exact absurd (List.cons.inj heq).1 ht
  · next heq => exact absurd (List.cons.inj heq).1 hf
  · next heq => exact absurd (List.cons.inj heq).1 hquote
  · next heq => exact absurd (List.cons.inj heq).1 hbracket
  · next heq => exact absurd (List.cons.inj heq).1 hbrace
  · rw [h]
    rfl

/-- The text of a value is read back, whatever closes it. -/
def IsRead (value : Value) : Prop :=
  ∀ (fuel : Nat) (rest : List Char), (compact value).toList.length < fuel → Closes rest →
    readAny fuel ((compact value).toList ++ rest) = some (ofValue value, rest)

theorem isRead_number {n : Number} (h : n.readsBack = true) : IsRead (.number n) := by
  intro fuel rest hfuel hrest
  obtain ⟨fuel, rfl⟩ := Nat.exists_eq_add_one_of_ne_zero (Nat.ne_of_gt (Nat.zero_lt_of_lt hfuel))
  rw [Number.readsBack] at h
  split at h
  · next parts hparts =>
      have htext : Value.Numeral.readParts ((compact (.number n)).toList ++ rest) = some (parts, rest) := by
        rw [compact, Value.Numeral.readParts_append hrest, hparts]
        rfl
      rw [readAny_number htext fuel, of_decide_eq_true h, ofValue]
  · cases h

theorem readAny_quote (fuel : Nat) (text : List Char) : readAny (fuel + 1) ('"' :: text) =
    (readString text).map fun found => (.string found.1, found.2) := rfl

theorem readAny_array {c : Char} (hspace : isSpace c = false) (hclose : c ≠ ']') (fuel : Nat)
    (text : List Char) : readAny (fuel + 1) ('[' :: c :: text) =
      (readItems fuel (c :: text)).map fun found => (.array found.1, found.2) := by
  rw [readAny, skipSpace_cons rfl]
  simp only [skipSpace_cons hspace]
  split
  · next heq => exact absurd (List.cons.inj heq).1 hclose
  · rfl

theorem readAny_object (fuel : Nat) (text : List Char) :
    readAny (fuel + 1) ('\x7b' :: '"' :: text) =
      (readMembers fuel ('"' :: text)).map fun found => (.object found.1, found.2) := rfl

theorem isRead_string (text : String) : IsRead (.string text) := by
  intro fuel rest hfuel hrest
  obtain ⟨fuel, rfl⟩ := Nat.exists_eq_add_one_of_ne_zero (Nat.ne_of_gt (Nat.zero_lt_of_lt hfuel))
  rw [compact, quote, String.toList_ofList, List.cons_append, List.cons_append, List.append_assoc,
    List.singleton_append, readAny_quote, readString_quote]
  rfl

/-- A value begins with a character that is no white space and closes nothing. -/
theorem exists_compact_cons {value : Value} (h : ∀ n ∈ value.numbers, n.readsBack = true) :
    ∃ c more, (compact value).toList = c :: more ∧ isSpace c = false ∧ c ≠ ']' := by
  cases value with
  | null => exact ⟨'n', _, rfl, rfl, by decide⟩
  | bool b => cases b <;> exact ⟨_, _, rfl, rfl, by decide⟩
  | number n =>
      have hn := h n (by rw [Value.numbers]; exact List.mem_singleton_self n)
      rw [Number.readsBack] at hn
      split at hn
      · next hparts =>
          obtain ⟨c, more, htext, hc⟩ := exists_cons_of_readParts hparts
          refine ⟨c, more, htext, ?_, ?_⟩
          · rw [← Bool.not_eq_true]
            intro hspace
            simp only [isSpace, Bool.or_eq_true, beq_iff_eq] at hspace
            obtain ((rfl | rfl) | rfl) | rfl := hspace <;> simp at hc
          · rintro rfl
            simp at hc
      · cases hn
  | string text => exact ⟨'"', _, by rw [compact, quote, String.toList_ofList]; rfl, rfl, by decide⟩
  | array items =>
      exact ⟨'[', _, (List.append_nil _).symm.trans (Value.toList_compact_array items []), rfl, by decide⟩
  | object fields =>
      exact ⟨'\x7b', _, (List.append_nil _).symm.trans (Value.toList_compact_object fields []), rfl,
        by decide⟩

theorem closes_commaEach {α : Type} {write : α → String} {close : Char}
    (hclose : close = ']' ∨ close = '\x7d') (items : List α) (rest : List Char) :
    Closes (commaEach write items ++ close :: rest) := by
  cases items with
  | nil => exact fun c hc => Option.some.inj hc ▸ .inr hclose
  | cons a items => exact fun c hc => Option.some.inj hc ▸ .inl rfl

/-! ## Arrays and objects -/

theorem readItems_last {fuel : Nat} {text rest : List Char} {item : Document}
    (h : readAny fuel text = some (item, ']' :: rest)) :
    readItems (fuel + 1) text = some ([item], rest) := by
  rw [readItems, h]
  rfl

theorem readItems_more {fuel : Nat} {text more : List Char} {item : Document}
    (h : readAny fuel text = some (item, ',' :: more)) : readItems (fuel + 1) text =
      (readItems fuel more).map fun found => (item :: found.1, found.2) := by
  have hcomma : skipSpace (',' :: more) = ',' :: more := rfl
  simp only [readItems, h, Option.bind_eq_bind, Option.bind_some, hcomma]
  cases readItems fuel more <;> rfl

theorem readMembers_last {fuel : Nat} {text more rest : List Char} {name : Option String}
    {value : Document} (hname : readString text = some (name, ':' :: more))
    (hvalue : readAny fuel more = some (value, '\x7d' :: rest)) :
    readMembers (fuel + 1) ('"' :: text) = some ([(name, value)], rest) := by
  have hquote : skipSpace ('"' :: text) = '"' :: text := rfl
  have hcolon : skipSpace (':' :: more) = ':' :: more := rfl
  have hclose : skipSpace ('\x7d' :: rest) = '\x7d' :: rest := rfl
  simp only [readMembers, hquote, hname, hcolon, hvalue, hclose, Option.bind_eq_bind, Option.bind_some]

theorem readMembers_more {fuel : Nat} {text more others : List Char} {name : Option String}
    {value : Document} (hname : readString text = some (name, ':' :: more))
    (hvalue : readAny fuel more = some (value, ',' :: others)) :
    readMembers (fuel + 1) ('"' :: text) =
      (readMembers fuel others).map fun found => ((name, value) :: found.1, found.2) := by
  have hquote : skipSpace ('"' :: text) = '"' :: text := rfl
  have hcolon : skipSpace (':' :: more) = ':' :: more := rfl
  have hcomma : skipSpace (',' :: others) = ',' :: others := rfl
  simp only [readMembers, hquote, hname, hcolon, hvalue, hcomma, Option.bind_eq_bind, Option.bind_some]
  cases readMembers fuel others <;> rfl

theorem readItems_compact {item : Value} {items : List Value} (rest : List Char) (fuel : Nat)
    (h : ∀ other ∈ item :: items, IsRead other)
    (hfuel : (compact item).toList.length + (commaEach compact items).length + 1 < fuel) :
    readItems fuel ((compact item).toList ++ (commaEach compact items ++ ']' :: rest)) =
      some (ofValues (item :: items), rest) := by
  induction items generalizing item fuel with
  | nil =>
      obtain ⟨fuel, rfl⟩ := Nat.exists_eq_add_one_of_ne_zero (Nat.ne_of_gt (Nat.zero_lt_of_lt hfuel))
      exact readItems_last (h item List.mem_cons_self fuel _ (by omega) (closes_commaEach (.inl rfl) [] rest))
  | cons next items ih =>
      obtain ⟨fuel, rfl⟩ := Nat.exists_eq_add_one_of_ne_zero (Nat.ne_of_gt (Nat.zero_lt_of_lt hfuel))
      obtain ⟨hitem, hothers⟩ := List.forall_mem_cons.mp h
      have hread := hitem fuel (commaEach compact (next :: items) ++ ']' :: rest) (by omega)
        (closes_commaEach (.inl rfl) _ rest)
      rw [Value.commaEach_cons, List.length_cons, List.length_append] at hfuel
      rw [Value.commaEach_cons, List.cons_append, List.append_assoc] at hread ⊢
      rw [readItems_more hread, ih fuel hothers (by omega)]
      rfl

/-- The text of a field behind its first quote. -/
theorem toList_fieldText (field : String × Value) (rest : List Char) : (fieldText field).toList ++ rest =
    '"' :: (field.1.toList.flatMap escapeChar ++ '"' :: ':' :: ((compact field.2).toList ++ rest)) := by
  simp [fieldText, quote, String.toList_append]

theorem readMembers_compact {field : String × Value} {fields : List (String × Value)}
    (rest : List Char) (fuel : Nat) (h : ∀ other ∈ field :: fields, IsRead other.2)
    (hfuel : (fieldText field).toList.length + (commaEach fieldText fields).length + 1 < fuel) :
    readMembers fuel ((fieldText field).toList ++ (commaEach fieldText fields ++ '\x7d' :: rest)) =
      some (ofFields (field :: fields), rest) := by
  have hvalue (field : String × Value) :
      (compact field.2).toList.length < (fieldText field).toList.length := by
    rw [← List.append_nil (fieldText field).toList, toList_fieldText]
    simp only [List.length_cons, List.length_append]
    omega
  induction fields generalizing field fuel with
  | nil =>
      obtain ⟨fuel, rfl⟩ := Nat.exists_eq_add_one_of_ne_zero (Nat.ne_of_gt (Nat.zero_lt_of_lt hfuel))
      have hlt := hvalue field
      rw [toList_fieldText]
      exact readMembers_last (readString_quote field.1 _)
        (h field List.mem_cons_self fuel _ (by omega) (closes_commaEach (.inr rfl) [] rest))
  | cons next fields ih =>
      obtain ⟨fuel, rfl⟩ := Nat.exists_eq_add_one_of_ne_zero (Nat.ne_of_gt (Nat.zero_lt_of_lt hfuel))
      obtain ⟨hfield, hothers⟩ := List.forall_mem_cons.mp h
      have hlt := hvalue field
      have hread := hfield fuel (commaEach fieldText (next :: fields) ++ '\x7d' :: rest) (by omega)
        (closes_commaEach (.inr rfl) _ rest)
      rw [Value.commaEach_cons, List.length_cons, List.length_append] at hfuel
      rw [Value.commaEach_cons, List.cons_append, List.append_assoc] at hread ⊢
      rw [toList_fieldText, readMembers_more (readString_quote field.1 _) hread, ih fuel hothers (by omega)]
      rfl

theorem isRead_array {items : List Value} (hhead : ∀ item ∈ items, ∃ c more,
      (compact item).toList = c :: more ∧ isSpace c = false ∧ c ≠ ']')
    (h : ∀ item ∈ items, IsRead item) : IsRead (.array items) := by
  intro fuel rest hfuel hrest
  have htext := Value.toList_compact_array items rest
  have hlength := congrArg List.length htext
  obtain ⟨fuel, rfl⟩ := Nat.exists_eq_add_one_of_ne_zero (Nat.ne_of_gt (Nat.zero_lt_of_lt hfuel))
  rw [htext]
  cases items with
  | nil => rfl
  | cons item items =>
      obtain ⟨c, more, hitem, hspace, hclose⟩ := hhead item List.mem_cons_self
      rw [Value.toList_join_cons, List.append_assoc] at hlength ⊢
      have hread := readItems_compact rest fuel h (by
        simp only [List.length_cons, List.length_append] at hlength
        omega)
      rw [hitem, List.cons_append] at hread ⊢
      rw [readAny_array hspace hclose, hread]
      rfl

theorem isRead_object {fields : List (String × Value)} (h : ∀ field ∈ fields, IsRead field.2) :
    IsRead (.object fields) := by
  intro fuel rest hfuel hrest
  have htext := Value.toList_compact_object fields rest
  have hlength := congrArg List.length htext
  obtain ⟨fuel, rfl⟩ := Nat.exists_eq_add_one_of_ne_zero (Nat.ne_of_gt (Nat.zero_lt_of_lt hfuel))
  rw [htext]
  cases fields with
  | nil => rfl
  | cons field fields =>
      rw [Value.toList_join_cons, List.append_assoc] at hlength ⊢
      have hread := readMembers_compact rest fuel h (by
        simp only [List.length_cons, List.length_append] at hlength
        omega)
      rw [toList_fieldText] at hread ⊢
      rw [readAny_object, hread]
      rfl

theorem isRead_word {value : Value} (h : ∀ fuel rest,
      readAny (fuel + 1) ((compact value).toList ++ rest) = some (ofValue value, rest)) :
    IsRead value := by
  intro fuel rest hfuel _
  obtain ⟨fuel, rfl⟩ := Nat.exists_eq_add_one_of_ne_zero (Nat.ne_of_gt (Nat.zero_lt_of_lt hfuel))
  exact h fuel rest

mutual

/-- Every value whose numbers are literals of themselves is read back. -/
theorem isRead_compact : ∀ value : Value, (∀ n ∈ value.numbers, n.readsBack = true) → IsRead value
  | .null, _ => isRead_word fun _ _ => rfl
  | .bool true, _ => isRead_word fun _ _ => rfl
  | .bool false, _ => isRead_word fun _ _ => rfl
  | .number n, h => isRead_number (h n (by rw [Value.numbers]; exact List.mem_singleton_self n))
  | .string text, _ => isRead_string text
  | .array items, h => by
      refine isRead_array (fun item hitem => exists_compact_cons fun n hn => h n ?_)
        (isRead_items items h)
      rw [Value.numbers, Value.numbersOfAll_eq]
      exact List.mem_flatMap.mpr ⟨item, hitem, hn⟩
  | .object fields, h => isRead_object (isRead_fields fields h)

theorem isRead_items : ∀ items : List Value, (∀ n ∈ Value.numbersOfAll items, n.readsBack = true) →
    ∀ item ∈ items, IsRead item
  | [], _ => List.forall_mem_nil _
  | item :: rest, h => by
      rw [Value.numbersOfAll, List.forall_mem_append] at h
      exact List.forall_mem_cons.mpr ⟨isRead_compact item h.1, isRead_items rest h.2⟩

theorem isRead_fields : ∀ fields : List (String × Value),
    (∀ n ∈ Value.numbersOfFields fields, n.readsBack = true) → ∀ field ∈ fields, IsRead field.2
  | [], _ => List.forall_mem_nil _
  | (_, value) :: rest, h => by
      rw [Value.numbersOfFields, List.forall_mem_append] at h
      exact List.forall_mem_cons.mpr ⟨isRead_compact value h.1, isRead_fields rest h.2⟩

end

/-- The compact text of a value is its document. -/
theorem read_compact {value : Value} (h : ∀ n ∈ value.numbers, n.readsBack = true) :
    Document.read value.compact = some (ofValue value) := by
  have hread := isRead_compact value h (2 * value.compact.toList.length + 2) [] (by omega)
    fun c hc => by cases hc
  rw [List.append_nil] at hread
  rw [Document.read, hread]
  rfl

end Document
end ReactiveMarkup
