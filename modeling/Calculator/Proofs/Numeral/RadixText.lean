import Calculator.Proofs.Numeral.Exponents

/-!
# A radix is read without wrap-around

The radix behind an underscore is read digit by digit onto a word of 32 bits.  Product and sum are
checked at every digit, so the running value is the number of the digits so far or the text is
refused: however long it is, no larger number is taken for a radix.  Which fault a text brings is
decided by what comes first, a character that is no digit or a number too large for a word.

* `checkedMul`, `checkedAdd`     products and sums of words, where they are words;
* `Radix.readWord`               the loop over the digits with a running word;
* `Radix.readWord_eq`            its values are the numbers that are read;
* `Radix.parse_digits`, `Radix.parse_stray`   what becomes of digits alone, and of digits with
                                another character behind them;
* `radix_read_exactly`          **every text is the radix that it spells, or brings its own fault.**
-/

namespace Calculator

/-! ## words -/

/-- the product of two words if it is one -/
def checkedMul (a b : UInt32) : Option UInt32 :=
  if a.toNat * b.toNat < UInt32.size then some (a * b) else none

/-- the sum of two words if it is one -/
def checkedAdd (a b : UInt32) : Option UInt32 :=
  if a.toNat + b.toNat < UInt32.size then some (a + b) else none

theorem toNat_mul_of_lt {a b : UInt32} (h : a.toNat * b.toNat < UInt32.size) :
    (a * b).toNat = a.toNat * b.toNat := by
  rw [UInt32.toNat_mul]
  exact Nat.mod_eq_of_lt h

/-- a checked product and a checked sum fail together exactly when the number is no word -/
theorem checkedMul_checkedAdd (a b c : UInt32) :
    (checkedMul a b).bind (checkedAdd · c) =
      if a.toNat * b.toNat + c.toNat < UInt32.size then some (a * b + c) else none := by
  unfold checkedMul
  by_cases hmul : a.toNat * b.toNat < UInt32.size
  · rw [if_pos hmul, Option.bind_some, checkedAdd, toNat_mul_of_lt hmul]
  · rw [if_neg hmul, if_neg (by omega), Option.bind_none]

theorem toNat_mul_add {a b c : UInt32} (h : a.toNat * b.toNat + c.toNat < UInt32.size) :
    (a * b + c).toNat = a.toNat * b.toNat + c.toNat := by
  have hmul : a.toNat * b.toNat < UInt32.size := Nat.lt_of_le_of_lt (Nat.le_add_right _ _) h
  rw [UInt32.toNat_add, toNat_mul_of_lt hmul]
  exact Nat.mod_eq_of_lt h

namespace Radix

/-- reads decimal digits onto a word; the largest word stands for all numbers that are none -/
def readWord (value : UInt32) : List Char → Except Fault UInt32
  | [] => .ok value
  | c :: cs => do
    let d ← digitValue c 10
    match (checkedMul value 10).bind (checkedAdd · (UInt32.ofNat d)) with
    | some next => readWord next cs
    | none => .error (.radixOutOfRange 4294967295)

/-- the words of the loop are the numbers that are read -/
theorem readWord_eq (value : UInt32) (cs : List Char) :
    (readWord value cs).map UInt32.toNat = parseFrom value.toNat cs := by
  induction cs generalizing value with
  | nil => rfl
  | cons c cs ih =>
    rw [readWord, parseFrom]
    cases hd : digitValue c 10 with
    | error fault => rfl
    | ok d =>
      have hdigit : d < 10 := digitValue_lt hd
      have hd' : (UInt32.ofNat d).toNat = d :=
        UInt32.toNat_ofNat_of_lt' (Nat.lt_trans hdigit (by decide))
      have hten : (10 : UInt32).toNat = 10 := rfl
      have hsize : UInt32.size = parseLimit := rfl
      have hstep := @toNat_mul_add value 10 (UInt32.ofNat d)
      simp only [bind, Except.bind, checkedMul_checkedAdd, hd', hten, hsize] at hstep ⊢
      by_cases hlt : value.toNat * 10 + d < parseLimit
      · rw [if_pos hlt, if_pos hlt, ← hstep hlt]
        exact ih _
      · rw [if_neg hlt, if_neg hlt]
        rfl

/-! ## what a text brings -/

theorem digits_of_decimal {ds : List Char} (h : ∀ c ∈ ds, c.isDigit = true) :
    ∀ c ∈ ds, ∃ d, digitValue c 10 = .ok d :=
  fun c hc => isDigit_iff_digitValue.mp (h c hc)

theorem parseFrom_append {ds : List Char} (h : ∀ c ∈ ds, c.isDigit = true) (rest : List Char) :
    parseFrom 0 (ds ++ rest) =
      if ten.textNumber ds < parseLimit then parseFrom (ten.textNumber ds) rest
      else .error (.radixOutOfRange (parseLimit - 1)) :=
  read_append (by decide) (fun _ _ _ => rfl) (digits_of_decimal h) (by decide) rest

theorem parse_of_ne_nil {text : List Char} (h : text ≠ []) :
    parse text = parseFrom 0 text >>= ofNat := by
  unfold parse
  rw [if_neg fun he => h (List.isEmpty_iff.mp he)]

theorem parse_digits {ds : List Char} (hne : ds ≠ []) (h : ∀ c ∈ ds, c.isDigit = true) :
    parse ds = if ten.textNumber ds < parseLimit then ofNat (ten.textNumber ds)
      else .error (.radixOutOfRange (parseLimit - 1)) := by
  have hread := parseFrom_append h []
  rw [List.append_nil] at hread
  rw [parse_of_ne_nil hne, hread]
  split
  · rfl
  · rfl

theorem digitValue_of_not_isDigit {c : Char} (h : c.isDigit = false) :
    digitValue c 10 = .error (.digitNotInRadix c 10) := by
  cases hd : digitValue c 10 with
  | ok d =>
    rw [isDigit_iff_digitValue.mpr ⟨d, hd⟩] at h
    cases h
  | error fault =>
    unfold digitValue at hd
    split at hd
    · split at hd
      · cases hd
      · exact hd.symm
    · exact hd.symm

theorem parse_stray {ds : List Char} (h : ∀ c ∈ ds, c.isDigit = true) {c : Char}
    (hc : c.isDigit = false) (rest : List Char) :
    parse (ds ++ c :: rest) = if ten.textNumber ds < parseLimit then .error (.digitNotInRadix c 10)
      else .error (.radixOutOfRange (parseLimit - 1)) := by
  rw [parse_of_ne_nil (by simp), parseFrom_append h]
  split
  · rw [parseFrom, digitValue_of_not_isDigit hc]
    rfl
  · rfl

theorem decimal_or_stray (text : List Char) :
    (∀ c ∈ text, c.isDigit = true) ∨ ∃ ds c rest, text = ds ++ c :: rest ∧
      (∀ c ∈ ds, c.isDigit = true) ∧ c.isDigit = false := by
  induction text with
  | nil => exact .inl (List.forall_mem_nil _)
  | cons c cs ih =>
    cases hc : c.isDigit with
    | false => exact .inr ⟨[], c, cs, rfl, List.forall_mem_nil _, hc⟩
    | true =>
      rcases ih with hall | ⟨ds, x, rest, rfl, hds, hx⟩
      · exact .inl (List.forall_mem_cons.mpr ⟨hc, hall⟩)
      · exact .inr ⟨c :: ds, x, rest, rfl, List.forall_mem_cons.mpr ⟨hc, hds⟩, hx⟩

theorem parse_eq_missingRadix_iff {text : List Char} :
    parse text = .error .missingRadix ↔ text = [] := by
  constructor
  · intro h
    by_cases hne : text = []
    · exact hne
    rcases decimal_or_stray text with hall | ⟨ds, c, rest, rfl, hds, hc⟩
    · rw [parse_digits hne hall] at h
      unfold ofNat at h
      split at h
      · split at h <;> cases h
      · cases h
    · rw [parse_stray hds hc] at h
      split at h <;> cases h
  · rintro rfl
    rfl

end Radix

/-- **Every text is the radix that it spells, or brings its own fault.**  A text is read as a number
if and only if it is not empty, has decimal digits alone, any number of them and zeros in front too,
and these denote that number, from 2 to 36.  It has no radix if and only if it is empty.  Digits
that denote another number are out of range with it if it is a word of 32 bits, and with the largest
word if it is none.  A text with a first character that is no decimal digit is refused for that
character if the digits before it denote a word, and is out of range with the largest word if they
do not. All of this is the loop over a running word with checked products and sums. -/
theorem radix_read_exactly (text : List Char) :
    (∀ n, (∃ r, Radix.parse text = .ok r ∧ r.val = n) ↔
      text ≠ [] ∧ (∀ c ∈ text, c.isDigit = true) ∧ Radix.ten.textNumber text = n ∧
        2 ≤ n ∧ n ≤ 36) ∧
    (Radix.parse text = .error .missingRadix ↔ text = []) ∧
    (text ≠ [] → (∀ c ∈ text, c.isDigit = true) →
      ¬ (2 ≤ Radix.ten.textNumber text ∧ Radix.ten.textNumber text ≤ 36) →
      Radix.parse text = .error (.radixOutOfRange
        (if Radix.ten.textNumber text < 2 ^ 32 then Radix.ten.textNumber text else 4294967295))) ∧
    (∀ ds c rest, text = ds ++ c :: rest → (∀ d ∈ ds, d.isDigit = true) → c.isDigit = false →
      Radix.parse text = .error (if Radix.ten.textNumber ds < 2 ^ 32 then .digitNotInRadix c 10
        else .radixOutOfRange 4294967295)) ∧
    Radix.parse text = if text.isEmpty then .error .missingRadix
      else Radix.readWord 0 text >>= fun word => Radix.ofNat word.toNat := by
  have hlimit : Radix.parseLimit = 2 ^ 32 := rfl
  refine ⟨fun n => ?_, Radix.parse_eq_missingRadix_iff, ?_, ?_, ?_⟩
  · constructor
    · rintro ⟨r, hr, rfl⟩
      have hspelled := Radix.parse_eq_ok_iff.mp hr
      exact ⟨hspelled.ne_nil, hspelled.decimal, hspelled.number, r.two_le, r.le_max⟩
    · rintro ⟨hne, hdecimal, hnumber, h2, h36⟩
      exact ⟨⟨n, h2, h36⟩, Radix.parse_eq_ok_iff.mpr ⟨hne, hdecimal, hnumber⟩, rfl⟩
  · intro hne hdecimal hrange
    rw [Radix.parse_digits hne hdecimal, hlimit]
    by_cases hlt : Radix.ten.textNumber text < 2 ^ 32
    · rw [if_pos hlt, if_pos hlt, Radix.ofNat, dif_neg hrange]
    · rw [if_neg hlt, if_neg hlt]
      rfl
  · rintro ds c rest rfl hds hc
    rw [Radix.parse_stray hds hc, hlimit]
    split
    · rfl
    · rfl
  · unfold Radix.parse
    split
    · rfl
    · have hread := Radix.readWord_eq 0 text
      change _ = Radix.parseFrom 0 text at hread
      rw [← hread]
      cases Radix.readWord 0 text with
      | error fault => rfl
      | ok word => rfl

/-- zeros in front, a number that would be a radix if it wrapped around, and a letter before and
behind the largest word -/
theorem wrapping_radix_refused :
    (∃ r, Radix.parse "0016".toList = .ok r ∧ r.val = 16) ∧
    Radix.ten.textNumber "4294967298".toList = UInt32.size + 2 ∧
    Radix.parse "4294967298".toList = .error (.radixOutOfRange 4294967295) ∧
    Radix.parse "37".toList = .error (.radixOutOfRange 37) ∧
    Radix.parse "4294967295x".toList = .error (.digitNotInRadix 'x' 10) ∧
    Radix.parse "4294967296x".toList = .error (.radixOutOfRange 4294967295) := by
  have hsmall := (radix_read_exactly "0016".toList).1 16
  have hlarge := (radix_read_exactly "4294967298".toList).2.2.1
  have hword := (radix_read_exactly "37".toList).2.2.1
  have hstray := (radix_read_exactly "4294967295x".toList).2.2.2.1
  have hbeyond := (radix_read_exactly "4294967296x".toList).2.2.2.1
  refine ⟨hsmall.mpr ⟨by decide, ?_, by decide +kernel, by decide, by decide⟩, by decide +kernel,
    hlarge (by decide) ?_ (by decide +kernel), hword (by decide) ?_ (by decide +kernel),
    hstray "4294967295".toList 'x' [] (by decide) ?_ (by decide),
    hbeyond "4294967296".toList 'x' [] (by decide) ?_ (by decide)⟩
  all_goals exact List.all_eq_true.mp (by decide)

end Calculator
