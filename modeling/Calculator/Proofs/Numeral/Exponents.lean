import Calculator.Proofs.Numeral.Format
import Mathlib.Algebra.Group.Int.Defs

/-!
# Exponents as signed words

An exponent is read digit by digit onto a magnitude that stays below `2 ^ 63`, and only then gets
its sign.  A signed word of 64 bits reaches one further below zero than above.  So the least number
of such a word is written as any other one, but it is not read: its magnitude is refused before the
sign could save it.  All other numbers of a word are read from any digits that denote them, and what
is read in one radix can be written in another one and read there.

* `InWord v`, `inWord v`         the numbers of a signed word, and the reader's answer if all of
                                 them were read;
* `Radix.signedNumber r sign digits`   the number that digits denote behind a sign;
* `read_append`, `read_of_digits`   a reader with a limit behind digits, and on digits alone: their
                                 number, or the fault of the limit;
* `parseExponent_signed`         an exponent of digits alone;
* `exponent_read_iff`            which exponents are read as numbers of a word;
* `exponent_rebased`             an exponent that was read, written in another radix.
-/

namespace Calculator

/-! ## words -/

/-- the numbers of a signed word of 64 bits -/
def InWord (v : Int) : Prop := -2 ^ 63 ≤ v ∧ v ≤ 2 ^ 63 - 1

instance (v : Int) : Decidable (InWord v) := inferInstanceAs (Decidable (_ ∧ _))

/-- the number itself if it is one of a word, an overflow if not -/
def inWord (v : Int) : Except Fault Int := if InWord v then .ok v else .error .exponentOverflow

/-- the number that digits denote behind an optional sign -/
def Radix.signedNumber (r : Radix) (sign digits : List Char) : Int :=
  if sign = ['-'] then -(r.textNumber digits : Int) else r.textNumber digits

theorem natAbs_lt_limit_iff {v : Int} : v.natAbs < exponentLimit ↔ InWord v ∧ v ≠ -2 ^ 63 := by
  have hlimit : exponentLimit = 2 ^ 63 := rfl
  unfold InWord
  omega

theorem Radix.natAbs_signedNumber (r : Radix) (sign digits : List Char) :
    (r.signedNumber sign digits).natAbs = r.textNumber digits := by
  unfold signedNumber
  split
  · rw [Int.natAbs_neg, Int.natAbs_natCast]
  · rw [Int.natAbs_natCast]

/-! ## reading digits -/

/-- a reader that puts digit after digit onto a value has their number behind them if that one is
below the limit, and the fault of the limit if not: digits bring no fault of their own -/
theorem read_append {read : Nat → List Char → Except Fault Nat} {radix limit : Nat}
    {fault : Fault} (hpos : 0 < radix)
    (hcons : ∀ value c cs, read value (c :: cs) = digitValue c radix >>= fun d =>
      if value * radix + d < limit then read (value * radix + d) cs else .error fault)
    {cs : List Char} (hcs : ∀ c ∈ cs, ∃ d, digitValue c radix = .ok d) {value : Nat}
    (hvalue : value < limit) (rest : List Char) :
    read value (cs ++ rest) =
      if (cs.map digitNumber).foldl (fun n d => n * radix + d) value < limit then
        read ((cs.map digitNumber).foldl (fun n d => n * radix + d) value) rest
      else .error fault := by
  induction cs generalizing value with
  | nil => exact (if_pos hvalue).symm
  | cons c cs ih =>
    obtain ⟨⟨d, hd⟩, hcs⟩ := List.forall_mem_cons.mp hcs
    rw [List.cons_append, hcons, hd, List.map_cons, List.foldl_cons, digitNumber_of_digitValue hd]
    show (if value * radix + d < limit then _ else _) = _
    by_cases hstep : value * radix + d < limit
    · rw [if_pos hstep]
      exact ih hcs hstep
    · -- the values only grow, so the number of all digits is not below the limit either
      have hle := le_foldl_digits hpos (cs.map digitNumber) (value * radix + d)
      rw [if_neg hstep, if_neg (by omega)]

theorem read_of_digits {read : Nat → List Char → Except Fault Nat} {radix limit : Nat}
    {fault : Fault} (hpos : 0 < radix) (hnil : ∀ value, read value [] = .ok value)
    (hcons : ∀ value c cs, read value (c :: cs) = digitValue c radix >>= fun d =>
      if value * radix + d < limit then read (value * radix + d) cs else .error fault)
    {cs : List Char} (hcs : ∀ c ∈ cs, ∃ d, digitValue c radix = .ok d) {value : Nat}
    (hvalue : value < limit) :
    read value cs =
      if (cs.map digitNumber).foldl (fun n d => n * radix + d) value < limit then
        .ok ((cs.map digitNumber).foldl (fun n d => n * radix + d) value)
      else .error fault := by
  have h := read_append hpos hcons hcs hvalue []
  rw [List.append_nil, hnil] at h
  exact h

theorem Radix.readMagnitude_of_digits (r : Radix) {digits : List Char}
    (hdigits : ∀ c ∈ digits, ∃ d, digitValue c r.val = .ok d) :
    readMagnitude r.val 0 digits =
      if r.textNumber digits < exponentLimit then .ok (r.textNumber digits)
      else .error .exponentOverflow :=
  read_of_digits (Nat.lt_of_lt_of_le Nat.two_pos r.two_le) (fun _ => rfl) (fun _ _ _ => rfl) hdigits
    (by decide)

theorem stops_isSign_of_digits {radix : Nat} {digits : List Char}
    (hdigits : ∀ c ∈ digits, ∃ d, digitValue c radix = .ok d) : Stops isSign digits := by
  intro c hc
  obtain ⟨d, hd⟩ := hdigits c (List.mem_of_mem_head? hc)
  refine Bool.eq_false_iff.mpr fun hsign => ?_
  have hcases : c = '+' ∨ c = '-' := by simpa [isSign] using hsign
  rcases hcases with rfl | rfl
  · cases hd
  · cases hd

theorem signed_sign_append {sign digits : List Char} (hsign : sign ∈ [[], ['+'], ['-']])
    (hstops : Stops isSign digits) : signed (sign ++ digits) = (decide (sign = ['-']), digits) := by
  have hcases : sign = [] ∨ sign = ['+'] ∨ sign = ['-'] := by simpa using hsign
  rcases hcases with rfl | rfl | rfl
  · rw [signed_eq, List.nil_append, takeSign_of_ne hstops]
  · rfl
  · rfl

theorem parseExponent_val (r : Radix) (text : List Char) :
    parseExponent text r.val = r.readExponent text := by
  unfold parseExponent
  rw [r.ofNat_val]
  rfl

theorem formatExponent_val (r : Radix) (v : Int) :
    formatExponent v r.val = .ok (r.writeExponent v) := by
  unfold formatExponent
  rw [r.ofNat_val]
  rfl

/-- an exponent of digits alone is the number that they denote, if its magnitude is below the limit,
and an overflow if not -/
theorem parseExponent_signed (r : Radix) {sign digits : List Char}
    (hsign : sign ∈ [[], ['+'], ['-']]) (hne : digits ≠ [])
    (hdigits : ∀ c ∈ digits, ∃ d, digitValue c r.val = .ok d) :
    parseExponent (sign ++ digits) r.val =
      if (r.signedNumber sign digits).natAbs < exponentLimit then .ok (r.signedNumber sign digits)
      else .error .exponentOverflow := by
  have hs := signed_sign_append hsign (stops_isSign_of_digits hdigits)
  have hread := r.readMagnitude_of_digits hdigits
  rw [parseExponent_val, r.natAbs_signedNumber]
  by_cases hlt : r.textNumber digits < exponentLimit
  · rw [if_pos hlt] at hread ⊢
    rw [Radix.readExponent_of_signed hs hne hread]
    simp only [decide_eq_true_eq, Radix.signedNumber]
  · rw [if_neg hlt] at hread ⊢
    unfold Radix.readExponent
    rw [hs, if_neg (by simpa using hne)]
    show (readMagnitude r.val 0 digits >>= _) = _
    rw [hread]
    rfl

/-- what a magnitude below the limit decides and what a word decides differ at one number -/
theorem read_eq_inWord_iff {v : Int} :
    ((if v.natAbs < exponentLimit then .ok v else .error .exponentOverflow : Except Fault Int)
      = inWord v) ↔ v ≠ -2 ^ 63 := by
  unfold inWord
  by_cases hlt : v.natAbs < exponentLimit
  · obtain ⟨hword, hne⟩ := natAbs_lt_limit_iff.mp hlt
    rw [if_pos hlt, if_pos hword]
    exact ⟨fun _ => hne, fun _ => rfl⟩
  · rw [if_neg hlt]
    by_cases hword : InWord v
    · rw [if_pos hword]
      constructor
      · intro h
        cases h
      · intro hne
        exact absurd (natAbs_lt_limit_iff.mpr ⟨hword, hne⟩) hlt
    · rw [if_neg hword]
      refine ⟨fun _ hmin => hword ?_, fun _ => rfl⟩
      rw [hmin]
      decide

/-! ## main statements -/

/-- **Exponents are the numbers of a signed word, without the least one.**  Take any radix.  Digits
of the radix in either case, one or more of them with an optional sign in front, are read as the
number that they denote if it is one of a signed word of 64 bits, and are an overflow otherwise, if
and only if the number is not the least one of the word; that one is an overflow.  Every number of
the word has a written form, which is read back if and only if the number is not the least one. -/
theorem exponent_read_iff (r : Radix) :
    (∀ sign digits : List Char, sign ∈ [[], ['+'], ['-']] → digits ≠ [] →
      (∀ c ∈ digits, ∃ d, digitValue c r.val = .ok d) →
      (parseExponent (sign ++ digits) r.val = inWord (r.signedNumber sign digits) ↔
        r.signedNumber sign digits ≠ -2 ^ 63) ∧
      (r.signedNumber sign digits = -2 ^ 63 →
        parseExponent (sign ++ digits) r.val = .error .exponentOverflow)) ∧
    ∀ v, InWord v → ∃ text, formatExponent v r.val = .ok text ∧
      (parseExponent text r.val = .ok v ↔ v ≠ -2 ^ 63) := by
  refine ⟨fun sign digits hsign hne hdigits => ⟨?_, fun hmin => ?_⟩, fun v hword => ?_⟩
  · rw [parseExponent_signed r hsign hne hdigits]
    exact read_eq_inWord_iff
  · rw [parseExponent_signed r hsign hne hdigits, hmin]
    rfl
  · refine ⟨r.writeExponent v, formatExponent_val r v, ?_⟩
    rw [parseExponent_val]
    constructor
    · intro h
      exact (natAbs_lt_limit_iff.mp (Radix.readExponent_natAbs_lt h)).2
    · intro hne
      exact r.readExponent_writeExponent (natAbs_lt_limit_iff.mpr ⟨hword, hne⟩)

/-- both ends of what is read, one of them with zeros in front and in lower case -/
theorem word_ends_read :
    parseExponent "-007fffffffffffffff".toList 16 = .ok (-(2 ^ 63 - 1)) ∧
    parseExponent "+7FFFFFFFFFFFFFFF".toList 16 = .ok (2 ^ 63 - 1) ∧
    ∃ text, formatExponent (2 ^ 63 - 1) 16 = .ok text ∧
      parseExponent text 16 = .ok (2 ^ 63 - 1) := by
  obtain ⟨hread, hwritten⟩ := exponent_read_iff sixteen
  have hlow := (hread ['-'] "007fffffffffffffff".toList (by decide) (by decide)
    (digits_of_digitsOf rfl)).1.mpr (by decide +kernel)
  have hhigh := (hread ['+'] "7FFFFFFFFFFFFFFF".toList (by decide) (by decide)
    (digits_of_digitsOf rfl)).1.mpr (by decide +kernel)
  obtain ⟨text, htext, hback⟩ := hwritten (2 ^ 63 - 1) (by decide)
  exact ⟨hlow, hhigh, text, htext, hback.mpr (by decide)⟩

/-- the least number of a word is written, but not read, though it is a number of the word -/
theorem least_exponent_refused :
    InWord (-2 ^ 63) ∧
    Radix.ten.signedNumber ['-'] "9223372036854775808".toList = -2 ^ 63 ∧
    formatExponent (-2 ^ 63) 10 = .ok "-9223372036854775808".toList ∧
    parseExponent "-9223372036854775808".toList 10 = .error .exponentOverflow := by
  have hcanonical : Radix.ten.Canonical "9223372036854775808".toList := by decide +kernel
  have hnumber : Radix.ten.textNumber "9223372036854775808".toList = (-2 ^ 63 : Int).natAbs := by
    decide +kernel
  have hwrite : Radix.ten.writeExponent (-2 ^ 63) = '-' :: "9223372036854775808".toList := by
    rw [hcanonical.eq_write, hnumber]
    rfl
  refine ⟨by decide, by decide +kernel, ?_, by decide +kernel⟩
  exact (formatExponent_val Radix.ten _).trans (congrArg Except.ok hwrite)

/-- **An exponent keeps its number in any other radix, and its written form there is canonical.**
An exponent that was read in one radix is written in any other one as its sign, which is `+` for
zero, and the canonical digits of its magnitude, which no other canonical digits denote.  This text
is read back as the same number, and writing what was read gives the text again. -/
theorem exponent_rebased (r q : Radix) (text : List Char) (v : Int)
    (h : parseExponent text r.val = .ok v) :
    ∃ written digits, formatExponent v q.val = .ok written ∧
      written = (if v < 0 then '-' else '+') :: digits ∧ q.Canonical digits ∧
      q.textNumber digits = v.natAbs ∧
      (∀ other, q.Canonical other → q.textNumber other = v.natAbs → other = digits) ∧
      parseExponent written q.val = .ok v ∧
      ∀ w, parseExponent written q.val = .ok w → formatExponent w q.val = .ok written := by
  rw [parseExponent_val] at h
  have hback : parseExponent (q.writeExponent v) q.val = .ok v := by
    rw [parseExponent_val]
    exact q.readExponent_writeExponent (Radix.readExponent_natAbs_lt h)
  refine ⟨q.writeExponent v, q.write v.natAbs, formatExponent_val q v, rfl, q.canonical_write _,
    q.textNumber_write _, ?_, hback, ?_⟩
  · intro other hother hnumber
    rw [hother.eq_write, hnumber]
  · intro w hw
    rw [hback] at hw
    cases hw
    exact formatExponent_val q v

/-- zeros in front and a digit in lower case are gone, and minus zero is written as plus zero -/
theorem padded_exponent_rebased :
    parseExponent "-00fF".toList 16 = .ok (-255) ∧
    formatExponent (-255) 10 = .ok "-255".toList ∧
    parseExponent "-255".toList 10 = .ok (-255) ∧
    parseExponent "-0".toList 16 = .ok 0 ∧
    formatExponent 0 10 = .ok "+0".toList := by
  have hread : parseExponent "-00fF".toList sixteen.val = .ok (-255) := by decide +kernel
  have hzero : parseExponent "-0".toList sixteen.val = .ok 0 := by decide +kernel
  obtain ⟨_, digits, hwritten, rfl, -, -, hunique, hback, -⟩ :=
    exponent_rebased sixteen Radix.ten _ _ hread
  obtain rfl := hunique "255".toList (by decide) (by decide)
  obtain ⟨_, digits, hwritten₀, rfl, -, -, hunique₀, -, -⟩ :=
    exponent_rebased sixteen Radix.ten _ _ hzero
  obtain rfl := hunique₀ "0".toList (by decide) (by decide)
  exact ⟨hread, hwritten, hback, hzero, hwritten₀⟩

end Calculator
