import ReactiveMarkup.Proofs.Number.Writing
import ReactiveMarkup.Value.Text

/-!
# Values are told apart by their compact texts

The compact text of a value tells the value and where the text ends. A quote ends at the first quote that
is not escaped, a number where no character of numbers follows, an array or an object at its bracket, and
the first character tells which of them it is. Of numbers this asks that they are integers, or finite and
in their one form: what is not finite has no number for a text, and two forms of a number have the same.

Rows without a key field have their compact texts as keys, so such a key is the row itself.
-/

namespace ReactiveMarkup

/-- Whether a number is an integer, or finite and in its one form. -/
def Number.isCanonical : Number → Bool
  | .int _ => true
  | .float d => decide d.Canonical

namespace Value

open Decimal (isNumeral)

/-! ## Quotes -/

/-- The character at the front of the inside of a quote, and the rest. -/
def readEscaped : List Char → Option (Char × List Char)
  | [] => none
  | '\\' :: 'u' :: _ :: _ :: high :: low :: rest => do
    return (Char.ofNat (16 * (← Hexadecimal.digit? high) + (← Hexadecimal.digit? low)), rest)
  | '\\' :: 'n' :: rest => some ('\n', rest)
  | '\\' :: 't' :: rest => some ('\t', rest)
  | '\\' :: 'r' :: rest => some ('\r', rest)
  | '\\' :: 'b' :: rest => some (Char.ofNat 8, rest)
  | '\\' :: 'f' :: rest => some (Char.ofNat 12, rest)
  | '\\' :: c :: rest => some (c, rest)
  | c :: rest => some (c, rest)

theorem digit?_hexDigit {n : Nat} (h : n < 16) : Hexadecimal.digit? (hexDigit n) = some n := by
  have hall : ∀ n < 16, Hexadecimal.digit? (hexDigit n) = some n := by decide
  exact hall n h

theorem readEscaped_cons {c : Char} (h : c ≠ '\\') (rest : List Char) :
    readEscaped (c :: rest) = some (c, rest) := by
  unfold readEscaped
  split <;> simp_all

/-- An escaped character is read back, whatever comes behind it. -/
theorem readEscaped_escapeChar (c : Char) (rest : List Char) :
    readEscaped (escapeChar c ++ rest) = some (c, rest) := by
  have hcode {n : Nat} (h : c.toNat = n) : Char.ofNat n = c := by rw [← h, Char.ofNat_toNat]
  unfold escapeChar
  split
  · next h => rw [h]; rfl
  split
  · next h => rw [h]; rfl
  split
  · next h => rw [h]; rfl
  split
  · next h => rw [h]; rfl
  split
  · next h => rw [h]; rfl
  split
  · next h => rw [← hcode h]; rfl
  split
  · next h => rw [← hcode h]; rfl
  split
  · next h =>
      have hhigh := digit?_hexDigit (show c.toNat / 16 < 16 by omega)
      have hlow := digit?_hexDigit (show c.toNat % 16 < 16 by omega)
      simp only [List.cons_append, List.nil_append, readEscaped, hhigh, hlow]
      rw [Option.bind_eq_bind, Option.bind_some, Option.bind_some, Nat.div_add_mod, Char.ofNat_toNat]
      rfl
  · next hslash _ _ _ _ _ _ => exact readEscaped_cons hslash rest

theorem escapeChar_append_inj {c d : Char} {s t : List Char} (h : escapeChar c ++ s = escapeChar d ++ t) :
    c = d ∧ s = t := by
  have hread := readEscaped_escapeChar c s
  rw [h, readEscaped_escapeChar] at hread
  obtain ⟨hchar, hrest⟩ := Prod.mk.inj (Option.some.inj hread)
  exact ⟨hchar.symm, hrest.symm⟩

/-- No escaped character begins with a quote. -/
theorem escapeChar_append_ne (c : Char) (s t : List Char) : escapeChar c ++ s ≠ '"' :: t := by
  intro h
  have hread := readEscaped_escapeChar c s
  rw [h, readEscaped_cons (by decide)] at hread
  obtain ⟨rfl, rfl⟩ := Prod.mk.inj (Option.some.inj hread)
  cases (List.cons.inj h).1

/-- A quote tells its text and where it ends. -/
theorem quote_append_inj {a b : String} {s t : List Char}
    (h : (quote a).toList ++ s = (quote b).toList ++ t) : a = b ∧ s = t := by
  have hinside : ∀ (a b : List Char),
      a.flatMap escapeChar ++ '"' :: s = b.flatMap escapeChar ++ '"' :: t → a = b ∧ s = t := by
    intro a
    induction a with
    | nil =>
        intro b h
        cases b with
        | nil => exact ⟨rfl, (List.cons.inj h).2⟩
        | cons d b =>
            rw [List.flatMap_cons, List.append_assoc] at h
            exact absurd h.symm (escapeChar_append_ne d _ _)
    | cons c a ih =>
        intro b h
        cases b with
        | nil =>
            rw [List.flatMap_cons, List.append_assoc] at h
            exact absurd h (escapeChar_append_ne c _ _)
        | cons d b =>
            rw [List.flatMap_cons, List.flatMap_cons, List.append_assoc, List.append_assoc] at h
            obtain ⟨rfl, hmore⟩ := escapeChar_append_inj h
            obtain ⟨rfl, hrest⟩ := ih b hmore
            exact ⟨rfl, hrest⟩
  rw [quote, quote, String.toList_ofList, String.toList_ofList, List.cons_append, List.cons_append,
    List.cons_append, List.cons_append, List.append_assoc, List.append_assoc] at h
  obtain ⟨hsame, hrest⟩ := hinside _ _ (List.cons.inj h).2
  exact ⟨String.toList_inj.mp hsame, hrest⟩

/-! ## Numbers -/

/-- An integer is written in one of its forms. -/
theorem spells_toString (n : Int) : Decimal.Spells (toString n).toList n := by
  have hdigits (m : Nat) : ∀ c ∈ Nat.toDigits 10 m, c.isDigit = true := fun c hc =>
    Nat.isDigit_of_mem_toDigits (by decide) (by decide) hc
  rw [Int.toString_eq_repr, Int.repr_eq_if]
  split
  · next h =>
      have hplain := Decimal.Spells.plain Nat.toDigits_ne_nil (hdigits n.toNat)
      rw [Decimal.natOfDigits_toDigits, Int.toNat_of_nonneg h] at hplain
      rwa [Nat.toList_repr]
  · next h =>
      have hminus := Decimal.Spells.minus Nat.toDigits_ne_nil (hdigits (-n).toNat)
      rw [Decimal.natOfDigits_toDigits, Int.toNat_of_nonneg (by omega), Int.neg_neg] at hminus
      rw [String.toList_append, Nat.toList_repr]
      exact hminus

/-- The forms of an integer have digits and a sign, and neither a point nor an exponent. -/
theorem numeral_of_spells {text : List Char} {n : Int} (h : Decimal.Spells text n) :
    text ≠ [] ∧ ∀ c ∈ text, isNumeral c = true ∧ c ≠ '.' ∧ c ≠ 'e' := by
  have hdigit {c : Char} (hc : c.isDigit = true) : isNumeral c = true ∧ c ≠ '.' ∧ c ≠ 'e' := by
    refine ⟨Decimal.isNumeral_of_isDigit hc, ?_, ?_⟩ <;>
    · rintro rfl
      cases hc
  cases h with
  | plain hsome hall => exact ⟨hsome, fun c hc => hdigit (hall c hc)⟩
  | plus hsome hall =>
      exact ⟨List.cons_ne_nil _ _, List.forall_mem_cons.mpr
        ⟨⟨rfl, by decide, by decide⟩, fun c hc => hdigit (hall c hc)⟩⟩
  | minus hsome hall =>
      exact ⟨List.cons_ne_nil _ _, List.forall_mem_cons.mpr
        ⟨⟨rfl, by decide, by decide⟩, fun c hc => hdigit (hall c hc)⟩⟩

/-- A finite number has a point or an exponent in its text. -/
theorem numeral_of_write {d : Double} (h : d.Canonical) :
    (∀ c ∈ (Decimal.write numberFormat d).toList, isNumeral c = true) ∧
      ∃ c ∈ (Decimal.write numberFormat d).toList, c = '.' ∨ c = 'e' := by
  cases d with
  | infinite negative => cases h
  | nan => cases h
  | finite negative mantissa exponent =>
      obtain ⟨text, digits, place, hwritten, -, htext⟩ := Decimal.exists_written numberFormat h
      obtain ⟨c, hc, hmark⟩ := hwritten.marked
      rw [htext]
      cases negative with
      | false => exact ⟨hwritten.numeral, c, hc, hmark⟩
      | true =>
          exact ⟨List.forall_mem_cons.mpr ⟨rfl, hwritten.numeral⟩, c, List.mem_cons_of_mem _ hc, hmark⟩

theorem numeral_of_numberText {n : Number} (h : n.isCanonical = true) :
    (numberText n).toList ≠ [] ∧ ∀ c ∈ (numberText n).toList, isNumeral c = true := by
  cases n with
  | int n =>
      obtain ⟨hsome, hall⟩ := numeral_of_spells (spells_toString n)
      exact ⟨hsome, fun c hc => (hall c hc).1⟩
  | float d =>
      obtain ⟨hall, c, hc, -⟩ := numeral_of_write (of_decide_eq_true h)
      exact ⟨List.ne_nil_of_mem hc, hall⟩

/-- An integer and a number with a point are never written alike. -/
theorem toString_ne_write (n : Int) {d : Double} (h : d.Canonical) :
    toString n ≠ Decimal.write numberFormat d := by
  intro hsame
  obtain ⟨c, hc, hmark⟩ := (numeral_of_write h).2
  rw [← hsame] at hc
  obtain ⟨-, hpoint, hexponent⟩ := (numeral_of_spells (spells_toString n)).2 c hc
  exact hmark.elim hpoint hexponent

theorem numberText_inj {n m : Number} (hn : n.isCanonical = true)
    (hm : m.isCanonical = true) (h : numberText n = numberText m) : n = m := by
  cases n with
  | int n =>
      cases m with
      | int m =>
          have hspells := spells_toString n
          rw [show toString n = toString m from h] at hspells
          obtain ⟨-, -, hvalue⟩ := Decimal.spells_iff.mp hspells
          obtain ⟨-, -, hother⟩ := Decimal.spells_iff.mp (spells_toString m)
          exact congrArg Number.int (hvalue.symm.trans hother)
      | float d => exact absurd h (toString_ne_write n (of_decide_eq_true hm))
  | float d =>
      cases m with
      | int m => exact absurd h.symm (toString_ne_write m (of_decide_eq_true hn))
      | float d' =>
          have hread := Decimal.readDouble_write numberFormat (of_decide_eq_true hn)
          rw [show Decimal.write numberFormat d = Decimal.write numberFormat d' from h,
            Decimal.readDouble_write numberFormat (of_decide_eq_true hm)] at hread
          rw [Option.some.inj hread]

/-- A number tells where it ends, when no character of numbers stands behind it. -/
theorem numberText_append_inj {n m : Number} {s t : List Char} (hn : n.isCanonical = true)
    (hm : m.isCanonical = true) (hs : ∀ c ∈ s.head?, isNumeral c = false)
    (ht : ∀ c ∈ t.head?, isNumeral c = false)
    (h : (numberText n).toList ++ s = (numberText m).toList ++ t) : n = m ∧ s = t := by
  have hspan := span_append (numeral_of_numberText hn).2 hs
  rw [h, span_append (numeral_of_numberText hm).2 ht] at hspan
  obtain ⟨htext, hrest⟩ := Prod.mk.inj hspan
  exact ⟨numberText_inj hn hm (String.toList_inj.mp htext.symm), hrest.symm⟩

/-! ## Texts with commas between them -/

/-- What stands behind the text of a value is not taken for a part of a number. -/
def Ends (rest : List Char) : Prop := ∀ c ∈ rest.head?, isNumeral c = false

/-- The text of something tells what it is and where it ends, among all that are good. -/
def Told {α : Type} (write : α → String) (good : α → Bool) (a : α) : Prop :=
  ∀ (b : α) (s t : List Char), good b = true → Ends s → Ends t →
    (write a).toList ++ s = (write b).toList ++ t → a = b ∧ s = t

section Separated

variable {α : Type} {write : α → String} {good : α → Bool} {close : Char} {s t : List Char}

/-- Texts with a comma before each. -/
def commaEach (write : α → String) (items : List α) : List Char :=
  items.flatMap fun a => ',' :: (write a).toList

theorem commaEach_cons (write : α → String) (a : α) (items : List α) :
    commaEach write (a :: items) = ',' :: ((write a).toList ++ commaEach write items) := rfl

theorem ends_commaEach (hends : isNumeral close = false) (items : List α) (rest : List Char) :
    Ends (commaEach write items ++ close :: rest) := by
  cases items with
  | nil => exact fun c hc => Option.some.inj hc ▸ hends
  | cons a items => exact fun c hc => Option.some.inj hc ▸ rfl

theorem commaEach_append_inj (hcomma : close ≠ ',') (hends : isNumeral close = false) {as bs : List α}
    (has : ∀ a ∈ as, Told write good a) (hbs : ∀ b ∈ bs, good b = true)
    (h : commaEach write as ++ close :: s = commaEach write bs ++ close :: t) : as = bs ∧ s = t := by
  induction as generalizing bs with
  | nil =>
      cases bs with
      | nil => exact ⟨rfl, (List.cons.inj h).2⟩
      | cons b bs => exact absurd (List.cons.inj h).1 hcomma
  | cons a as ih =>
      cases bs with
      | nil => exact absurd (List.cons.inj h).1.symm hcomma
      | cons b bs =>
          obtain ⟨ha, hmine⟩ := List.forall_mem_cons.mp has
          obtain ⟨hb, hothers⟩ := List.forall_mem_cons.mp hbs
          rw [commaEach_cons, commaEach_cons, List.cons_append, List.cons_append, List.append_assoc,
            List.append_assoc] at h
          obtain ⟨rfl, hmore⟩ := ha b _ _ hb (ends_commaEach hends as s) (ends_commaEach hends bs t)
            (List.cons.inj h).2
          obtain ⟨rfl, hrest⟩ := ih hmine hothers hmore
          exact ⟨rfl, hrest⟩

theorem toList_join_cons (write : α → String) (a : α) (items : List α) :
    (Text.join "," ((a :: items).map write)).toList = (write a).toList ++ commaEach write items := by
  induction items generalizing a with
  | nil => exact (congrArg String.toList String.intercalate_singleton).trans (List.append_nil _).symm
  | cons b items ih =>
      have hjoin : Text.join "," ((a :: b :: items).map write) =
          write a ++ "," ++ Text.join "," ((b :: items).map write) := String.intercalate_cons_cons
      rw [hjoin, String.toList_append, String.toList_append, ih, commaEach_cons, List.append_assoc]
      rfl

/-- Texts with commas between them and a bracket at the end tell what they are of, when none of them
begins with the bracket. -/
theorem join_append_inj (hcomma : close ≠ ',') (hends : isNumeral close = false)
    (hopen : ∀ a, good a = true → ∀ u v, (write a).toList ++ u ≠ close :: v) {as bs : List α}
    (has : ∀ a ∈ as, Told write good a) (hgood : ∀ a ∈ as, good a = true) (hbs : ∀ b ∈ bs, good b = true)
    (h : (Text.join "," (as.map write)).toList ++ close :: s =
      (Text.join "," (bs.map write)).toList ++ close :: t) : as = bs ∧ s = t := by
  cases as with
  | nil =>
      cases bs with
      | nil => exact ⟨rfl, (List.cons.inj h).2⟩
      | cons b bs =>
          rw [toList_join_cons, List.append_assoc] at h
          exact absurd h.symm (hopen b (hbs b List.mem_cons_self) _ _)
  | cons a as =>
      cases bs with
      | nil =>
          rw [toList_join_cons, List.append_assoc] at h
          exact absurd h (hopen a (hgood a List.mem_cons_self) _ _)
      | cons b bs =>
          obtain ⟨ha, hmine⟩ := List.forall_mem_cons.mp has
          obtain ⟨hb, hothers⟩ := List.forall_mem_cons.mp hbs
          rw [toList_join_cons, toList_join_cons, List.append_assoc, List.append_assoc] at h
          obtain ⟨rfl, hmore⟩ := ha b _ _ hb (ends_commaEach hends as s) (ends_commaEach hends bs t) h
          obtain ⟨rfl, hrest⟩ := commaEach_append_inj hcomma hends hmine hothers hmore
          exact ⟨rfl, hrest⟩

end Separated

/-! ## Values -/

mutual

/-- Whether all numbers in a value are integers, or finite and in their one form. -/
def isCanonical : Value → Bool
  | .number n => n.isCanonical
  | .array items => allCanonical items
  | .object fields => fieldsCanonical fields
  | _ => true

/-- Whether that holds of all members of an array. -/
def allCanonical : List Value → Bool
  | [] => true
  | item :: rest => isCanonical item && allCanonical rest

/-- Whether that holds of all fields of an object. -/
def fieldsCanonical : List (String × Value) → Bool
  | [] => true
  | (_, value) :: rest => isCanonical value && fieldsCanonical rest

end

/-- The text of a field. -/
def fieldText (field : String × Value) : String := quote field.1 ++ ":" ++ compact field.2

theorem compactItems_eq (items : List Value) : compactItems items = items.map compact := by
  induction items with
  | nil => rfl
  | cons item rest ih => rw [compactItems, ih, List.map_cons]

theorem compactFields_eq (fields : List (String × Value)) :
    compactFields fields = fields.map fieldText := by
  induction fields with
  | nil => rfl
  | cons field rest ih =>
      rw [compactFields, ih, List.map_cons]
      rfl

theorem allCanonical_iff {items : List Value} :
    allCanonical items = true ↔ ∀ item ∈ items, isCanonical item = true := by
  induction items with
  | nil => exact iff_of_true rfl (List.forall_mem_nil _)
  | cons item rest ih => rw [allCanonical, Bool.and_eq_true, ih, List.forall_mem_cons]

theorem fieldsCanonical_iff {fields : List (String × Value)} :
    fieldsCanonical fields = true ↔ ∀ field ∈ fields, isCanonical field.2 = true := by
  induction fields with
  | nil => exact iff_of_true rfl (List.forall_mem_nil _)
  | cons field rest ih => rw [fieldsCanonical, Bool.and_eq_true, ih, List.forall_mem_cons]

theorem toList_compact_array (items : List Value) (s : List Char) :
    (compact (.array items)).toList ++ s =
      '[' :: ((Text.join "," (items.map compact)).toList ++ ']' :: s) := by
  rw [compact, compactItems_eq, String.toList_append, String.toList_append, List.append_assoc,
    List.append_assoc]
  rfl

theorem toList_compact_object (fields : List (String × Value)) (s : List Char) :
    (compact (.object fields)).toList ++ s =
      '\x7b' :: ((Text.join "," (fields.map fieldText)).toList ++ '\x7d' :: s) := by
  rw [compact, compactFields_eq, String.toList_append, String.toList_append, List.append_assoc,
    List.append_assoc]
  rfl

/-- The character that the text of a value begins with; one stands for all numbers. -/
def mark : Value → Char
  | .null => 'n'
  | .bool true => 't'
  | .bool false => 'f'
  | .number _ => '0'
  | .string _ => '"'
  | .array _ => '['
  | .object _ => '\x7b'

theorem exists_compact_eq_cons {value : Value} (h : value.isCanonical = true) :
    ∃ c rest, value.compact.toList = c :: rest ∧ (if isNumeral c then '0' else c) = value.mark := by
  cases value with
  | null => exact ⟨'n', _, rfl, rfl⟩
  | bool b => cases b <;> exact ⟨_, _, rfl, rfl⟩
  | number n =>
      obtain ⟨hsome, hall⟩ := numeral_of_numberText h
      obtain ⟨c, rest, htext⟩ := List.exists_cons_of_ne_nil hsome
      rw [htext] at hall
      exact ⟨c, rest, htext, if_pos (hall c List.mem_cons_self)⟩
  | string text =>
      refine ⟨'"', text.toList.flatMap escapeChar ++ ['"'], ?_, rfl⟩
      rw [compact, quote, String.toList_ofList]
      rfl
  | array items =>
      exact ⟨'[', _, (List.append_nil _).symm.trans (toList_compact_array items []), rfl⟩
  | object fields =>
      exact ⟨'\x7b', _, (List.append_nil _).symm.trans (toList_compact_object fields []), rfl⟩

theorem mark_eq {v w : Value} {s t : List Char} (hv : v.isCanonical = true) (hw : w.isCanonical = true)
    (h : v.compact.toList ++ s = w.compact.toList ++ t) : v.mark = w.mark := by
  obtain ⟨c, rest, hvtext, hvmark⟩ := exists_compact_eq_cons hv
  obtain ⟨d, more, hwtext, hwmark⟩ := exists_compact_eq_cons hw
  rw [hvtext, hwtext] at h
  rw [← hvmark, ← hwmark, (List.cons.inj h).1]

/-- No value begins with the bracket that ends an array. -/
theorem compact_append_ne {value : Value} (h : value.isCanonical = true) (u v : List Char) :
    value.compact.toList ++ u ≠ ']' :: v := by
  intro heq
  obtain ⟨c, rest, htext, hmark⟩ := exists_compact_eq_cons h
  rw [htext] at heq
  rw [(List.cons.inj heq).1] at hmark
  revert hmark
  cases value with
  | bool b => cases b <;> decide
  | null | number n | string text | array items | object fields =>
    intro hmark
    cases hmark

theorem fieldText_append_ne (field : String × Value) (u v : List Char) :
    (fieldText field).toList ++ u ≠ '\x7d' :: v := by
  intro heq
  rw [fieldText, quote, String.toList_append, String.toList_append, String.toList_ofList] at heq
  cases (List.cons.inj heq).1

theorem Told.field {name : String} {value : Value} (h : Told compact isCanonical value) :
    Told fieldText (fun field => field.2.isCanonical) (name, value) := by
  rintro ⟨other, value'⟩ s t hgood hs ht heq
  simp only [fieldText, String.toList_append, List.append_assoc] at heq
  obtain ⟨rfl, hmore⟩ := quote_append_inj heq
  obtain ⟨rfl, hrest⟩ := h value' s t hgood hs ht (List.append_cancel_left hmore)
  exact ⟨rfl, hrest⟩

theorem told_null : Told compact isCanonical .null := by
  intro other s t hother hs ht heq
  have hmark := mark_eq rfl hother heq
  cases other with
  | null => exact ⟨rfl, List.append_cancel_left heq⟩
  | bool b => cases b <;> cases hmark
  | number n | string text | array items | object fields => cases hmark

theorem told_bool (b : Bool) : Told compact isCanonical (.bool b) := by
  intro other s t hother hs ht heq
  have hmark := mark_eq rfl hother heq
  cases other with
  | bool b' =>
      obtain rfl : b = b' := by
        revert hmark
        cases b <;> cases b' <;> decide
      exact ⟨rfl, List.append_cancel_left heq⟩
  | null | number n | string text | array items | object fields => cases b <;> cases hmark

theorem told_number {n : Number} (h : n.isCanonical = true) :
    Told compact isCanonical (.number n) := by
  intro other s t hother hs ht heq
  have hmark := mark_eq (v := .number n) h hother heq
  cases other with
  | number m =>
      obtain ⟨rfl, hrest⟩ := numberText_append_inj h hother hs ht heq
      exact ⟨rfl, hrest⟩
  | bool b => cases b <;> cases hmark
  | null | string text | array items | object fields => cases hmark

theorem told_string (text : String) : Told compact isCanonical (.string text) := by
  intro other s t hother hs ht heq
  have hmark := mark_eq rfl hother heq
  cases other with
  | string text' =>
      obtain ⟨rfl, hrest⟩ := quote_append_inj heq
      exact ⟨rfl, hrest⟩
  | bool b => cases b <;> cases hmark
  | null | number n | array items | object fields => cases hmark

theorem told_array {items : List Value} (h : ∀ item ∈ items, item.isCanonical = true)
    (htold : ∀ item ∈ items, Told compact isCanonical item) :
    Told compact isCanonical (.array items) := by
  intro other s t hother hs ht heq
  have hmark := mark_eq (v := .array items) (allCanonical_iff.mpr h) hother heq
  cases other with
  | array others =>
      rw [toList_compact_array, toList_compact_array] at heq
      obtain ⟨rfl, hrest⟩ := join_append_inj (by decide) rfl (fun _ => compact_append_ne) htold h
        (allCanonical_iff.mp hother) (List.cons.inj heq).2
      exact ⟨rfl, hrest⟩
  | bool b => cases b <;> cases hmark
  | null | number n | string text | object fields => cases hmark

theorem told_object {fields : List (String × Value)} (h : ∀ field ∈ fields, field.2.isCanonical = true)
    (htold : ∀ field ∈ fields, Told compact isCanonical field.2) :
    Told compact isCanonical (.object fields) := by
  intro other s t hother hs ht heq
  have hmark := mark_eq (v := .object fields) (fieldsCanonical_iff.mpr h) hother heq
  cases other with
  | object others =>
      rw [toList_compact_object, toList_compact_object] at heq
      obtain ⟨rfl, hrest⟩ := join_append_inj (by decide) rfl (fun field _ => fieldText_append_ne field)
        (fun field hfield => (htold field hfield).field) h (fieldsCanonical_iff.mp hother)
        (List.cons.inj heq).2
      exact ⟨rfl, hrest⟩
  | bool b => cases b <;> cases hmark
  | null | number n | string text | array items => cases hmark

mutual

/-- The compact text of a value tells the value and where it ends. -/
theorem told_compact : ∀ value : Value, value.isCanonical = true → Told compact isCanonical value
  | .null, _ => told_null
  | .bool b, _ => told_bool b
  | .number _, h => told_number h
  | .string text, _ => told_string text
  | .array items, h => told_array (allCanonical_iff.mp h) (told_items items h)
  | .object fields, h => told_object (fieldsCanonical_iff.mp h) (told_fields fields h)

theorem told_items : ∀ items : List Value, allCanonical items = true →
    ∀ item ∈ items, Told compact isCanonical item
  | [], _ => List.forall_mem_nil _
  | item :: rest, h => by
      obtain ⟨hitem, hrest⟩ := Bool.and_eq_true_iff.mp h
      exact List.forall_mem_cons.mpr ⟨told_compact item hitem, told_items rest hrest⟩

theorem told_fields : ∀ fields : List (String × Value), fieldsCanonical fields = true →
    ∀ field ∈ fields, Told compact isCanonical field.2
  | [], _ => List.forall_mem_nil _
  | (_, value) :: rest, h => by
      obtain ⟨hvalue, hrest⟩ := Bool.and_eq_true_iff.mp h
      exact List.forall_mem_cons.mpr ⟨told_compact value hvalue, told_fields rest hrest⟩

end

/-- Different values have different compact texts. -/
theorem compact_inj {v w : Value} (hv : v.isCanonical = true) (hw : w.isCanonical = true)
    (h : v.compact = w.compact) : v = w := by
  have hends : Ends [] := fun _ hnone => by cases hnone
  exact (told_compact v hv w [] [] hw hends hends (by rw [h])).1

end Value

end ReactiveMarkup
