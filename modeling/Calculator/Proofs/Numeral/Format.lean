import Calculator.Proofs.Numeral.Canonical
import Calculator.Proofs.Numeral.Readable

/-!
# The texts of numerals

The reader of numerals cuts a text into parts and checks them one after another.  What it accepts is
said here part by part, without the order of the checks and without running values: a radix is
spelled by decimal digits, an exponent by digits with an optional sign, a numeral by a literal whose
digits belong to its radix.  Running values never shrink, so a limit on all of them is a limit on
the last one, and a number that passes the limit never comes back.

* `read_eq_ok_iff`            a reader that adds digit by digit below a limit;
* `Radix.Spelled r text`      decimal digits that spell a radix;
* `Radix.SpelledExponent q text v`   the digits of an exponent, with an optional sign;
* `Numeral.SpelledBy`         the literals that a numeral is written as;
* `Radix.parse_eq_ok_iff`, `Radix.readExponent_eq_ok_iff`   the readers of the parts;
* `parse_iff_spelled`         the reader of numerals.
-/

namespace Calculator

/-! ## digits -/

theorem exists_digitValue_iff {c : Char} {radix : Nat} :
    (∃ d, digitValue c radix = .ok d) ↔ ∃ d, digitValue? c = some d ∧ d < radix := by
  unfold digitValue
  cases digitValue? c with
  | none => simp
  | some v =>
    by_cases hv : v < radix
    · simp [hv]
    · simp [hv]

theorem isDigit_iff_digitValue {c : Char} :
    c.isDigit = true ↔ ∃ d, digitValue c 10 = .ok d := by
  have hdigit : c.isDigit = true ↔ '0' ≤ c ∧ c ≤ '9' := by
    unfold Char.isDigit
    rw [Bool.and_eq_true, decide_eq_true_eq, decide_eq_true_eq]
    rfl
  rw [exists_digitValue_iff, hdigit]
  unfold digitValue?
  constructor
  · rintro ⟨h₀, h₉⟩
    have h₉' : c.toNat ≤ 57 := h₉
    rw [if_pos ⟨h₀, h₉⟩]
    exact ⟨_, rfl, by omega⟩
  · rintro ⟨d, hd, hlt⟩
    split at hd
    · assumption
    · split at hd
      · rename_i hupper
        have hA : 65 ≤ c.toNat := hupper.1
        have := Option.some.inj hd
        omega
      · split at hd
        · rename_i hlower
          have ha : 97 ≤ c.toNat := hlower.1
          have := Option.some.inj hd
          omega
        · cases hd

theorem digitNumber_lt_iff {c : Char} (h : isUpperDigit c = true) {radix : Nat} :
    digitNumber c < radix ↔ ∃ d, digitValue c radix = .ok d := by
  have hall : upperDigits.all (fun d => digitValue? d == some (digitNumber d)) = true := by decide
  have hvalue : digitValue? c = some (digitNumber c) := beq_iff_eq.mp (of_all_upperDigits hall h)
  rw [exists_digitValue_iff, hvalue]
  simp

theorem digits_of_digitsOf {radix : Nat} {cs : List Char} {ds : List Nat}
    (h : digitsOf radix cs = .ok ds) : ∀ c ∈ cs, ∃ d, digitValue c radix = .ok d := by
  induction cs generalizing ds with
  | nil => exact List.forall_mem_nil _
  | cons c cs ih =>
    obtain ⟨d, hd, h⟩ := bind_eq_ok.mp h
    obtain ⟨ds', hds, -⟩ := bind_eq_ok.mp h
    exact List.forall_mem_cons.mpr ⟨⟨d, hd⟩, ih hds⟩

/-- a reader that puts digit after digit onto a value below a limit gives the number of the digits,
which has to be below the limit: on the way there the values only grow -/
theorem read_eq_ok_iff {read : Nat → List Char → Except Fault Nat} {radix limit : Nat}
    {fault : Fault} (hpos : 0 < radix) (hnil : ∀ value, read value [] = .ok value)
    (hcons : ∀ value c cs, read value (c :: cs) = digitValue c radix >>= fun d =>
      if value * radix + d < limit then read (value * radix + d) cs else .error fault)
    {value n : Nat} (hvalue : value < limit) {cs : List Char} :
    read value cs = .ok n ↔ (∀ c ∈ cs, ∃ d, digitValue c radix = .ok d) ∧
      (cs.map digitNumber).foldl (fun n d => n * radix + d) value = n ∧ n < limit := by
  induction cs generalizing value with
  | nil =>
    rw [hnil, Except.ok.injEq]
    constructor
    · rintro rfl
      exact ⟨List.forall_mem_nil _, rfl, hvalue⟩
    · rintro ⟨-, rfl, -⟩
      rfl
  | cons c cs ih =>
    rw [hcons, bind_eq_ok, List.forall_mem_cons, List.map_cons, List.foldl_cons]
    constructor
    · rintro ⟨d, hd, h⟩
      split at h
      · rename_i hlt
        obtain ⟨hcs, hn⟩ := (ih hlt).mp h
        rw [digitNumber_of_digitValue hd]
        exact ⟨⟨⟨d, hd⟩, hcs⟩, hn⟩
      · cases h
    · rintro ⟨⟨⟨d, hd⟩, hcs⟩, hn, hlt⟩
      rw [digitNumber_of_digitValue hd] at hn
      have hle := le_foldl_digits hpos (cs.map digitNumber) (value * radix + d)
      have hstep : value * radix + d < limit := by omega
      refine ⟨d, hd, ?_⟩
      rw [if_pos hstep]
      exact (ih hstep).mpr ⟨hcs, hn, hlt⟩

namespace Radix

/-! ## a radix -/

/-- decimal digits that spell a radix, however many zeros stand in front -/
structure Spelled (r : Radix) (text : List Char) : Prop where
  ne_nil : text ≠ []
  decimal : ∀ c ∈ text, c.isDigit = true
  number : ten.textNumber text = r.val

theorem parse_eq_ok_iff {text : List Char} {r : Radix} : parse text = .ok r ↔ r.Spelled text := by
  have hread {n : Nat} : parseFrom 0 text = .ok n ↔
      (∀ c ∈ text, ∃ d, digitValue c 10 = .ok d) ∧ ten.textNumber text = n ∧ n < parseLimit :=
    read_eq_ok_iff (by decide) (fun _ => rfl) (fun _ _ _ => rfl) (by decide)
  have hmax : r.val < parseLimit := Nat.lt_of_le_of_lt r.le_max (by decide)
  unfold parse
  constructor
  · intro h
    split at h
    · cases h
    · rename_i hne
      obtain ⟨n, hn, h⟩ := bind_eq_ok.mp h
      obtain rfl := ofNat_eq_ok_iff.mp h
      obtain ⟨hdigits, hnumber, -⟩ := hread.mp hn
      exact ⟨fun e => hne (List.isEmpty_iff.mpr e),
        fun c hc => isDigit_iff_digitValue.mpr (hdigits c hc), hnumber⟩
  · intro h
    rw [if_neg fun e => h.ne_nil (List.isEmpty_iff.mp e)]
    refine bind_eq_ok.mpr ⟨r.val, hread.mpr ⟨?_, h.number, hmax⟩, r.ofNat_val⟩
    intro c hc
    exact isDigit_iff_digitValue.mp (h.decimal c hc)

/-! ## an exponent -/

/-- upper-case digits of the radix behind an optional sign; their number stays below `2 ^ 63` -/
def SpelledExponent (q : Radix) (text : List Char) (v : Int) : Prop :=
  ∃ sign digits : List Char, text = sign ++ digits ∧ sign ∈ [[], ['+'], ['-']] ∧ digits ≠ [] ∧
    (∀ c ∈ digits, isUpperDigit c = true ∧ digitNumber c < q.val) ∧
    q.textNumber digits ≤ 2 ^ 63 - 1 ∧
    v = if sign = ['-'] then -(q.textNumber digits : Int) else q.textNumber digits

end Radix

theorem takeSign_sign_append {sign digits : List Char} (hsign : sign ∈ [[], ['+'], ['-']])
    (hdigits : ∀ c ∈ digits, isUpperDigit c = true) :
    takeSign (sign ++ digits) = (sign, digits) := by
  have h := Rules.takeSign_signed hsign hdigits [] (stops_nil _)
  rw [List.append_nil] at h
  exact h

namespace Radix

theorem readMagnitude_eq_ok_iff (q : Radix) {digits : List Char} {n : Nat} :
    readMagnitude q.val 0 digits = .ok n ↔ (∀ c ∈ digits, ∃ d, digitValue c q.val = .ok d) ∧
      q.textNumber digits = n ∧ n < exponentLimit :=
  read_eq_ok_iff (Nat.lt_of_lt_of_le Nat.two_pos q.two_le) (fun _ => rfl) (fun _ _ _ => rfl)
    (by decide)

theorem SpelledExponent.upper {q : Radix} {text : List Char} {v : Int}
    (h : q.SpelledExponent text v) : ∀ c ∈ (takeSign text).2, isUpperDigit c = true := by
  obtain ⟨sign, digits, rfl, hsign, -, hdigits, -⟩ := h
  have hupper : ∀ c ∈ digits, isUpperDigit c = true := fun c hc => (hdigits c hc).1
  rw [takeSign_sign_append hsign hupper]
  exact hupper

theorem SpelledExponent.read {q : Radix} {text : List Char} {v : Int}
    (h : q.SpelledExponent text v) : q.readExponent text = .ok v := by
  obtain ⟨sign, digits, rfl, hsign, hne, hdigits, hle, rfl⟩ := h
  have hs : signed (sign ++ digits) = (decide (sign = ['-']), digits) := by
    rw [signed_eq, takeSign_sign_append hsign fun c hc => (hdigits c hc).1]
  have hlt : q.textNumber digits < exponentLimit := Nat.lt_of_le_of_lt hle (by decide)
  have hread : readMagnitude q.val 0 digits = .ok (q.textNumber digits) := by
    refine q.readMagnitude_eq_ok_iff.mpr ⟨fun c hc => ?_, rfl, hlt⟩
    obtain ⟨hup, hbelow⟩ := hdigits c hc
    exact (digitNumber_lt_iff hup).mp hbelow
  rw [readExponent_of_signed hs hne hread]
  simp only [decide_eq_true_eq]

theorem readExponent_eq_ok_iff {q : Radix} {text : List Char} {v : Int}
    (hupper : ∀ c ∈ (takeSign text).2, isUpperDigit c = true) :
    q.readExponent text = .ok v ↔ q.SpelledExponent text v := by
  constructor
  · intro h
    unfold readExponent at h
    rw [signed_eq] at h
    split at h
    · cases h
    · rename_i hne
      obtain ⟨n, hn, h⟩ := bind_eq_ok.mp h
      obtain ⟨hdigits, rfl, hlt⟩ := q.readMagnitude_eq_ok_iff.mp hn
      refine ⟨(takeSign text).1, (takeSign text).2, (takeSign_append text).symm,
        Rules.takeSign_mem text, fun e => hne (List.isEmpty_iff.mpr e), ?_,
        Nat.le_sub_one_of_lt hlt, ?_⟩
      · intro c hc
        exact ⟨hupper c hc, (digitNumber_lt_iff (hupper c hc)).mpr (hdigits c hc)⟩
      · simp only [decide_eq_true_eq] at h
        exact (Except.ok.inj h).symm
  · intro h
    exact h.read

end Radix

/-! ## a numeral -/

/-- the radix that a suffix spells, or the default one -/
def SuffixSpells (default r : Radix) : Option (List Char) → Prop
  | none => r = default
  | some digits => r.Spelled digits

/-- the exponent that a marker, digits and a suffix spell -/
structure ExponentPart.Spells (default : Radix) (x : ExponentPart) (e : Exponent) : Prop where
  marker : x.marker = e.marker
  value : ∃ q, SuffixSpells default q x.radix ∧ q.SpelledExponent x.digits e.value

/-- the literal spells the numeral: its digits are upper-case digits of the radix, there is at least
one of them, and its suffixes and its exponent spell the ones of the numeral -/
structure Numeral.SpelledBy (default : Radix) (n : Numeral) (l : Literal) : Prop where
  integer : n.integer = l.integer
  fraction : n.fraction = l.fraction.getD []
  ne_nil : ¬ (l.integer = [] ∧ l.fraction.getD [] = [])
  digits : ∀ c ∈ l.integer ++ l.fraction.getD [],
    isUpperDigit c = true ∧ digitNumber c < n.radix.val
  radix : SuffixSpells default n.radix l.radix
  exponent : Option.Rel (ExponentPart.Spells default) l.exponent n.exponent

theorem forall_mem_getD {p : Char → Prop} {f : Option (List Char)} :
    (∀ c ∈ f.getD [], p c) ↔ ∀ fs ∈ f, ∀ c ∈ fs, p c := by
  cases f with
  | none => exact iff_of_true (List.forall_mem_nil _) forall_mem_none
  | some fs =>
    constructor
    · intro h gs hgs
      cases hgs
      exact h
    · intro h
      exact h fs rfl

theorem suffixRadix_eq_ok_iff {default r : Radix} {suffix : Option (List Char)} :
    suffixRadix default suffix = .ok r ↔ SuffixSpells default r suffix := by
  cases suffix with
  | none =>
    show Except.ok default = .ok r ↔ r = default
    rw [Except.ok.injEq, eq_comm]
  | some digits => exact Radix.parse_eq_ok_iff

theorem ExponentPart.read_eq_ok_iff {default : Radix} {x : ExponentPart} {e : Exponent}
    (hx : x.Fits) : x.read default = .ok e ↔ x.Spells default e := by
  constructor
  · intro h
    obtain ⟨q, hq, h⟩ := bind_eq_ok.mp h
    obtain ⟨v, hv, h⟩ := bind_eq_ok.mp h
    cases h
    exact ⟨rfl, q, suffixRadix_eq_ok_iff.mp hq, (Radix.readExponent_eq_ok_iff hx.digits).mp hv⟩
  · rintro ⟨hmarker, q, hq, hv⟩
    refine bind_eq_ok.mpr ⟨q, suffixRadix_eq_ok_iff.mpr hq, bind_eq_ok.mpr ⟨e.value, ?_, ?_⟩⟩
    · exact (Radix.readExponent_eq_ok_iff hx.digits).mpr hv
    · rw [hmarker]
      rfl

theorem Numeral.readExponent_eq_ok_iff {default : Radix} {x : Option ExponentPart}
    {e : Option Exponent} (hx : ∀ y ∈ x, y.Fits) :
    Numeral.readExponent default x = .ok e ↔ Option.Rel (ExponentPart.Spells default) x e := by
  cases x with
  | none =>
    show Except.ok none = .ok e ↔ _
    rw [Except.ok.injEq]
    constructor
    · rintro rfl
      exact .none
    · intro h
      cases h
      rfl
  | some y =>
    show (y.read default >>= fun e => .ok (some e)) = .ok e ↔ _
    rw [bind_eq_ok]
    constructor
    · rintro ⟨e', he, h⟩
      cases h
      exact .some ((ExponentPart.read_eq_ok_iff (hx y rfl)).mp he)
    · intro h
      cases h with
      | some h => exact ⟨_, (ExponentPart.read_eq_ok_iff (hx y rfl)).mpr h, rfl⟩

theorem SuffixSpells.decimal {default r : Radix} {suffix : Option (List Char)}
    (h : SuffixSpells default r suffix) : ∀ ds ∈ suffix, ∀ c ∈ ds, c.isDigit = true := by
  intro ds hds
  cases hds
  exact Radix.Spelled.decimal h

theorem ExponentPart.Spells.fits {default : Radix} {x : ExponentPart} {e : Exponent}
    (h : x.Spells default e) : x.Fits := by
  obtain ⟨-, q, hq, hv⟩ := h
  exact ⟨hv.upper, hq.decimal⟩

theorem Numeral.SpelledBy.fits {default : Radix} {n : Numeral} {l : Literal}
    (h : n.SpelledBy default l) : l.Fits where
  integer c hc := (h.digits c (List.mem_append_left _ hc)).1
  fraction := forall_mem_getD.mp fun c hc => (h.digits c (List.mem_append_right _ hc)).1
  radix := h.radix.decimal
  exponent x hx := by
    have hrel := h.exponent
    rw [Option.mem_def.mp hx] at hrel
    generalize n.exponent = e at hrel
    cases hrel with
    | some hspells => exact hspells.fits

/-- the checks on the parts of a literal come to what it spells -/
theorem Numeral.ofLiteral_iff_spelled {default : Radix} {l : Literal} {n : Numeral} (hl : l.Fits) :
    Numeral.ofLiteral default l = .ok n ↔ n.SpelledBy default l := by
  have hupper : ∀ c ∈ l.integer ++ l.fraction.getD [], isUpperDigit c = true :=
    List.forall_mem_append.mpr ⟨hl.integer, forall_mem_getD.mpr hl.fraction⟩
  rw [Numeral.ofLiteral_eq_ok]
  constructor
  · rintro ⟨hne, r, ds, x, hr, hds, hx, rfl⟩
    refine ⟨rfl, rfl, hne, fun c hc => ⟨hupper c hc, ?_⟩, suffixRadix_eq_ok_iff.mp hr,
      (Numeral.readExponent_eq_ok_iff hl.exponent).mp hx⟩
    exact (digitNumber_lt_iff (hupper c hc)).mpr (digits_of_digitsOf hds c hc)
  · intro h
    obtain ⟨i, f, r, x⟩ := n
    obtain rfl : i = l.integer := h.integer
    obtain rfl : f = l.fraction.getD [] := h.fraction
    refine ⟨h.ne_nil, r, _, x, suffixRadix_eq_ok_iff.mpr h.radix, digitsOf_of_digits ?_,
      (Numeral.readExponent_eq_ok_iff hl.exponent).mpr h.exponent, rfl⟩
    intro c hc
    obtain ⟨hup, hbelow⟩ := h.digits c hc
    exact (digitNumber_lt_iff hup).mp hbelow

/-- **The reader of numerals accepts exactly the format.**  For every default radix a text is read
as a numeral if and only if it is the text of a literal that spells the numeral: digits before and
behind an optional point, at least one of them, each an upper-case digit of the radix that the
suffix spells; and an optional exponent, a marker and an optional sign before upper-case digits of
the radix that its own suffix spells, of a number below `2 ^ 63`.  A part without a suffix has the
default radix. -/
theorem parse_iff_spelled (default : Radix) (text : List Char) (n : Numeral) :
    Numeral.parse text default.val = .ok n ↔
      ∃ l : Literal, l.write = text ∧ n.SpelledBy default l := by
  rw [Numeral.parse_of_ofNat default.ofNat_val]
  constructor
  · intro h
    split at h
    · cases h
    · rename_i l hl
      exact ⟨l, Literal.write_of_read hl,
        (Numeral.ofLiteral_iff_spelled (Literal.fits_of_read hl)).mp h⟩
  · rintro ⟨l, rfl, hspelled⟩
    rw [Literal.read_write hspelled.fits]
    exact (Numeral.ofLiteral_iff_spelled hspelled.fits).mpr hspelled

end Calculator
