import Calculator.Proofs.Numeral.Lexeme
import Mathlib.Algebra.Group.Nat.Defs
import Mathlib.Data.List.Basic
import Mathlib.Data.List.Induction

/-!
# Integers in another radix are exact and canonical

In each radix a number has one text with upper-case digits and no zero in front of other digits, and
`Radix.write` gives it.  Long division comes to the same text from the digits in any other radix,
zeros in front and digits in lower case included.  So converting once more starts from the number
again, and a text that was canonical comes back as it was.

* `Radix.textNumber r text`     the number that digits denote in a radix;
* `Radix.Canonical r text`      the canonical texts of a radix;
* `Radix.digits_number`         digits without a zero in front are the digits of their number;
* `Radix.canonical_write`, `Radix.Canonical.eq_write`   canonical texts are the written numbers;
* `rounds old new ds`           the rows of digits that long division divides one after another;
* `dividends_lt`, `rounds_lt`   how large the numbers in a row, and in all rows, can get;
* `convert_integer_canonical`   all of it, for texts without a point.
-/

namespace Calculator

namespace Radix

/-! ## canonical digits -/

theorem digits_head (r : Radix) {n : Nat} (h : (r.digits n).head? = some 0) : n = 0 := by
  induction n using Nat.strongRecOn with
  | _ n ih =>
    have h2 := r.two_le
    by_cases hn : n < r.val
    · rw [r.digits_of_lt hn] at h
      exact Option.some.inj h
    · rw [digits, if_neg hn, List.head?_append_of_ne_nil _ (r.digits_ne_nil _)] at h
      have hq : n / r.val = 0 := ih _ (Nat.div_lt_self (by omega) h2) h
      rw [Nat.div_eq_zero_iff] at hq
      omega

/-- digits without a zero in front are the digits of the number that they denote -/
theorem digits_number (r : Radix) {ds : List Nat} (hne : ds ≠ []) (hlt : ∀ d ∈ ds, d < r.val)
    (hzero : ds.head? = some 0 → ds = [0]) : r.digits (number r.val ds) = ds := by
  have h2 := r.two_le
  induction ds using List.reverseRecOn with
  | nil => exact absurd rfl hne
  | append_singleton init d ih =>
    have hd : d < r.val := hlt d (by simp)
    rw [number_concat]
    cases init with
    | nil =>
      rw [number_nil, Nat.zero_mul, Nat.zero_add, r.digits_of_lt hd]
      rfl
    | cons c cs =>
      -- two digits and more do not start with a zero, so the ones before the last are positive
      have hc : c ≠ 0 := by
        intro hc
        have := hzero (by simp [hc])
        simp at this
      have hpos : 0 < number r.val (c :: cs) := by
        have := head_le_number (by omega : 0 < r.val) c cs
        omega
      rw [r.digits_mul_add hpos hd, ih (List.cons_ne_nil c cs)]
      · intro e he
        exact hlt e (List.mem_append_left _ he)
      · intro h
        exact absurd (Option.some.inj h) hc

/-! ## canonical texts -/

/-- the number that a row of digits denotes -/
def textNumber (r : Radix) (text : List Char) : Nat := number r.val (text.map digitNumber)

/-- upper-case digits of the radix, no zero in front of other digits -/
structure Canonical (r : Radix) (text : List Char) : Prop where
  ne_nil : text ≠ []
  upper : ∀ c ∈ text, isUpperDigit c = true
  below : ∀ c ∈ text, digitNumber c < r.val
  leading : text.head? = some '0' → text = ['0']

instance (r : Radix) (text : List Char) : Decidable (r.Canonical text) :=
  decidable_of_iff (text ≠ [] ∧ text.all isUpperDigit = true ∧
      (text.all fun c => decide (digitNumber c < r.val)) = true ∧
      (text.head? = some '0' → text = ['0'])) (by
    simp only [List.all_eq_true, decide_eq_true_eq]
    exact ⟨fun ⟨h₁, h₂, h₃, h₄⟩ => ⟨h₁, h₂, h₃, h₄⟩, fun ⟨h₁, h₂, h₃, h₄⟩ => ⟨h₁, h₂, h₃, h₄⟩⟩)

theorem digitNumber_digitChar {v : Nat} (h : v < 36) : digitNumber (digitChar v) = v := by
  unfold digitNumber
  rw [digitValue?_digitChar h]
  rfl

theorem digitChar_digitNumber {c : Char} (h : isUpperDigit c = true) :
    digitChar (digitNumber c) = c := by
  have hall : upperDigits.all (fun d => digitChar (digitNumber d) == d) = true := by decide
  exact beq_iff_eq.mp (of_all_upperDigits hall h)

theorem textNumber_write (r : Radix) (n : Nat) : r.textNumber (r.write n) = n := by
  have hmap : (r.digits n).map (digitNumber ∘ digitChar) = (r.digits n).map id := by
    apply List.map_congr_left
    intro d hd
    exact digitNumber_digitChar (Nat.lt_of_lt_of_le (r.digits_lt n d hd) r.le_max)
  unfold textNumber write
  rw [List.map_map, hmap, List.map_id, r.number_digits]

theorem canonical_write (r : Radix) (n : Nat) : r.Canonical (r.write n) where
  ne_nil := r.write_ne_nil n
  upper := isUpperDigit_map_digitChar (r.digits_lt n)
  below := by
    intro c hc
    obtain ⟨d, hd, rfl⟩ := List.mem_map.mp hc
    have hlt := r.digits_lt n d hd
    rw [digitNumber_digitChar (Nat.lt_of_lt_of_le hlt r.le_max)]
    exact hlt
  leading := by
    intro h
    have h2 := r.two_le
    rw [write, List.head?_map] at h
    obtain ⟨d, hd, hc⟩ := Option.map_eq_some_iff.mp h
    have hmem : d ∈ r.digits n := List.mem_of_mem_head? hd
    have hzero : d = 0 := by
      rw [← digitNumber_digitChar (Nat.lt_of_lt_of_le (r.digits_lt n d hmem) r.le_max), hc]
      rfl
    have hn : n = 0 := r.digits_head (hzero ▸ hd)
    rw [hn, write, r.digits_of_lt (by omega)]
    rfl

/-- a canonical text is what its number is written as, so there is no other one for the number -/
theorem Canonical.eq_write {r : Radix} {text : List Char} (h : r.Canonical text) :
    text = r.write (r.textNumber text) := by
  have hback : (text.map digitNumber).map digitChar = text := by
    have hmap : text.map (digitChar ∘ digitNumber) = text.map id := by
      apply List.map_congr_left
      intro c hc
      exact digitChar_digitNumber (h.upper c hc)
    rw [List.map_map, hmap, List.map_id]
  unfold write textNumber
  rw [r.digits_number, hback]
  · exact fun e => h.ne_nil (List.map_eq_nil_iff.mp e)
  · intro d hd
    obtain ⟨c, hc, rfl⟩ := List.mem_map.mp hd
    exact h.below c hc
  · intro hhead
    rw [List.head?_map] at hhead
    obtain ⟨c, hc, hzero⟩ := Option.map_eq_some_iff.mp hhead
    have hchar : c = '0' := by
      rw [← digitChar_digitNumber (h.upper c (List.mem_of_mem_head? hc)), hzero]
      rfl
    rw [h.leading (hchar ▸ hc)]
    rfl

end Radix

/-! ## the size of the numbers in a division -/

theorem dividends_lt {old new rest : Nat} (hn : 0 < new) {ds : List Nat} (hrest : rest < new)
    (h : ∀ d ∈ ds, d < old) : ∀ a ∈ dividends old new rest ds, a < new * old := by
  induction ds generalizing rest with
  | nil => exact List.forall_mem_nil _
  | cons d ds ih =>
    obtain ⟨hd, hds⟩ := List.forall_mem_cons.mp h
    refine List.forall_mem_cons.mpr ⟨?_, ih (Nat.mod_lt _ hn) hds⟩
    calc rest * old + d
        < rest * old + old := Nat.add_lt_add_left hd _
      _ = (rest + 1) * old := (Nat.succ_mul rest old).symm
      _ ≤ new * old := Nat.mul_le_mul_right old hrest

theorem quotient_lt {old new : Nat} (hn : 0 < new) {ds : List Nat} (h : ∀ d ∈ ds, d < old) :
    ∀ q ∈ quotient old new ds, q < old := by
  intro q hq
  obtain ⟨a, ha, rfl⟩ := List.mem_map.mp ((List.dropWhile_sublist _).mem hq)
  rw [Nat.div_lt_iff_lt_mul hn, Nat.mul_comm]
  exact dividends_lt hn hn h a ha

/-- the rows of digits that are divided one after another, until nothing is left -/
def rounds (old new : Radix) (ds : List Nat) : List (List Nat) :=
  if _h : ds = [] then []
  else ds :: rounds old new (quotient old.val new.val ds)
termination_by number old.val ds + ds.length
decreasing_by exact quotient_measure old new _h

/-- the new digits are the remainders of the rows, the last row's first -/
theorem rebaseInteger_eq_rounds (old new : Radix) (ds : List Nat) :
    rebaseInteger old new ds = ((rounds old new ds).map (remainder old.val new.val)).reverse := by
  induction ds using rebaseInteger.induct old new with
  | case1 =>
    rw [rebaseInteger, rounds, dif_pos rfl, dif_pos rfl]
    rfl
  | case2 ds hds ih =>
    rw [rebaseInteger, rounds, dif_neg hds, dif_neg hds, ih, List.map_cons, List.reverse_cons]

/-- no number in any row reaches the product of the radices -/
theorem rounds_lt (old new : Radix) {ds : List Nat} (h : ∀ d ∈ ds, d < old.val) :
    ∀ row ∈ rounds old new ds, ∀ a ∈ dividends old.val new.val 0 row, a < new.val * old.val := by
  have hn : 0 < new.val := Nat.lt_of_lt_of_le Nat.two_pos new.two_le
  induction ds using rebaseInteger.induct old new with
  | case1 =>
    rw [rounds, dif_pos rfl]
    exact List.forall_mem_nil _
  | case2 ds hds ih =>
    rw [rounds, dif_neg hds]
    exact List.forall_mem_cons.mpr ⟨dividends_lt hn hn h, ih (quotient_lt hn h)⟩

/-! ## texts without a point -/

theorem digitsOf_of_digits {radix : Nat} {text : List Char}
    (h : ∀ c ∈ text, ∃ v, digitValue c radix = .ok v) :
    digitsOf radix text = .ok (text.map digitNumber) := by
  induction text with
  | nil => rfl
  | cons c cs ih =>
    obtain ⟨⟨v, hv⟩, hcs⟩ := List.forall_mem_cons.mp h
    rw [digitsOf, hv, ih hcs, List.map_cons, digitNumber_of_digitValue hv]
    rfl

theorem convert_digits (old new : Radix) {text : List Char}
    (h : ∀ c ∈ text, ∃ v, digitValue c old.val = .ok v) :
    convert text old.val new.val = .ok (new.write (old.textNumber text)) := by
  have hpoint : '.' ∉ text := by
    intro hmem
    obtain ⟨v, hv⟩ := h '.' hmem
    cases hv
  unfold convert
  rw [old.ofNat_val, new.ofNat_val]
  exact rebase_integer new hpoint (digitsOf_of_digits h)

theorem Radix.Canonical.digits {r : Radix} {text : List Char} (h : r.Canonical text) :
    ∀ c ∈ text, ∃ v, digitValue c r.val = .ok v := by
  intro c hc
  refine ⟨digitNumber c, ?_⟩
  have hv := digitValue_digitChar (h.below c hc) r.le_max
  rwa [Radix.digitChar_digitNumber (h.upper c hc)] at hv

/-- **Converting an integer is exact and canonical.**  For any two radices, digits of the old one,
in either case and however many of them, are converted to the one canonical text of the new radix
that denotes the same number.  The digits come from rounds of long division, and no running dividend
in them, the largest number that a step computes, reaches `2 ^ 32`.  Converting the result goes on
as from the text itself, and leads back to the text if that one was canonical. -/
theorem convert_integer_canonical (old new : Radix) (text : List Char)
    (h : ∀ c ∈ text, ∃ v, digitValue c old.val = .ok v) :
    ∃ result, convert text old.val new.val = .ok result ∧ new.Canonical result ∧
      new.textNumber result = old.textNumber text ∧
      (∀ other, new.Canonical other → new.textNumber other = old.textNumber text →
        other = result) ∧
      (∃ rows, rows = rounds old new ((text.map digitNumber).dropWhile (· == 0)) ∧
        rebaseInteger old new ((text.map digitNumber).dropWhile (· == 0))
          = (rows.map (remainder old.val new.val)).reverse ∧
        ∀ row ∈ rows, ∀ a ∈ dividends old.val new.val 0 row, a < 2 ^ 32) ∧
      (∀ third : Radix, convert result new.val third.val = convert text old.val third.val) ∧
      (old.Canonical text → convert result new.val old.val = .ok text) := by
  have hcanonical := new.canonical_write (old.textNumber text)
  have hnumber := new.textNumber_write (old.textNumber text)
  have hagain (third : Radix) : convert (new.write (old.textNumber text)) new.val third.val
      = .ok (third.write (old.textNumber text)) := by
    rw [convert_digits new third hcanonical.digits, hnumber]
  refine ⟨new.write (old.textNumber text), convert_digits old new h, hcanonical, hnumber, ?_, ?_,
    ?_, ?_⟩
  · intro other hother heq
    rw [← heq]
    exact hother.eq_write
  · refine ⟨_, rfl, rebaseInteger_eq_rounds old new _, ?_⟩
    intro row hrow a ha
    have hbelow : ∀ d ∈ (text.map digitNumber).dropWhile (· == 0), d < old.val := by
      intro d hd
      exact (digitsOf_ok (digitsOf_of_digits h)).2 d ((List.dropWhile_sublist _).mem hd)
    have hlt := rounds_lt old new hbelow row hrow a ha
    have hmax : new.val * old.val ≤ 36 * 36 := Nat.mul_le_mul new.le_max old.le_max
    omega
  · intro third
    rw [hagain third, convert_digits old third h]
  · intro htext
    rw [hagain old, ← htext.eq_write]

/-- zeros in front and a digit in lower case -/
theorem padded_hex_canonical :
    (∀ c ∈ "00fF".toList, ∃ v, digitValue c sixteen.val = .ok v) ∧
    convert "00fF".toList 16 10 = .ok "255".toList ∧
    convert "255".toList 10 16 = convert "00fF".toList 16 16 ∧
    ∀ other, Radix.ten.Canonical other → Radix.ten.textNumber other = 255 →
      other = "255".toList := by
  have hdigits : ∀ c ∈ "00fF".toList, ∃ v, digitValue c sixteen.val = .ok v := by
    intro c hc
    have hmem : c = '0' ∨ c = 'f' ∨ c = 'F' := by simpa using hc
    rcases hmem with rfl | rfl | rfl
    · exact ⟨0, rfl⟩
    · exact ⟨15, rfl⟩
    · exact ⟨15, rfl⟩
  obtain ⟨result, hresult, -, -, hunique, -, hagain, -⟩ :=
    convert_integer_canonical sixteen Radix.ten _ hdigits
  obtain rfl := hunique "255".toList (by decide) (by decide)
  exact ⟨hdigits, hresult, hagain sixteen, hunique⟩

end Calculator
