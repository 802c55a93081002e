import Calculator.Proofs.Numeral.Lexeme

/-!
# A numeral is read back from its text

The text of a numeral spells out every radix, so what it is read as does not depend on a default
radix any more.  It is the text of a literal whose parts fit: the digits as they stand, the radix
and the exponent in decimal.  Each part is read back to what it was, so the whole is.

* `Radix.parse_write`            a radix that was written is read back;
* `Numeral.WellFormed n`         what reading a text makes sure of;
* `Numeral.wellFormed_of_parse`  numerals that were read are well-formed;
* `Numeral.literal`              the literal whose text is the text of the numeral;
* `Numeral.parse_write`          well-formed numerals are read back;
* `write_parse_stable`           numerals that were read are read back, in any default radix.
-/

namespace Calculator

/-! ## a written radix -/

namespace Radix

theorem parseFrom_map_digitChar (value : Nat) (ds : List Nat) (h : ∀ d ∈ ds, d < 10)
    (hlt : ds.foldl (fun n d => n * 10 + d) value < parseLimit) :
    parseFrom value (ds.map digitChar) = .ok (ds.foldl (fun n d => n * 10 + d) value) := by
  induction ds generalizing value with
  | nil => rfl
  | cons d ds ih =>
    obtain ⟨hd, hds⟩ := List.forall_mem_cons.mp h
    rw [List.foldl_cons] at hlt ⊢
    -- the value so far never shrinks, so it is below the limit too
    have hstep : value * 10 + d < parseLimit :=
      Nat.lt_of_le_of_lt (le_foldl_digits (by decide) ds _) hlt
    rw [List.map_cons, parseFrom, digitValue_digitChar hd (by decide)]
    show (if _ then _ else _) = _
    rw [if_pos hstep]
    exact ih _ hds hlt

theorem parse_write (r : Radix) : parse (ten.write r.val) = .ok r := by
  have hmax := r.le_max
  have hnum : number 10 (ten.digits r.val) = r.val := ten.number_digits r.val
  have hlt : number 10 (ten.digits r.val) < parseLimit := by
    rw [hnum]
    exact Nat.lt_of_le_of_lt hmax (by decide)
  have hread : parseFrom 0 (ten.write r.val) = .ok (number 10 (ten.digits r.val)) :=
    parseFrom_map_digitChar 0 (ten.digits r.val) (ten.digits_lt r.val) hlt
  unfold parse
  rw [if_neg (by simpa using ten.write_ne_nil r.val), hread, hnum]
  exact r.ofNat_val

end Radix

namespace Numeral

/-! ## numerals that were read -/

/-- upper-case digits of the radix, at least one of them, and an exponent within its limit -/
structure WellFormed (n : Numeral) : Prop where
  ne_nil : ¬ (n.integer = [] ∧ n.fraction = [])
  integer : ∀ c ∈ n.integer, isUpperDigit c = true
  fraction : ∀ c ∈ n.fraction, isUpperDigit c = true
  below : ∃ ds, digitsOf n.radix.val (n.integer ++ n.fraction) = .ok ds
  exponent : ∀ x ∈ n.exponent, x.value.natAbs < exponentLimit

theorem readExponent_lt {default : Radix} {part : Option ExponentPart} {exponent : Option Exponent}
    (h : readExponent default part = .ok exponent) :
    ∀ x ∈ exponent, x.value.natAbs < exponentLimit := by
  intro x hx
  cases part with
  | none =>
    cases h
    cases hx
  | some part =>
    obtain ⟨y, hy, h⟩ := bind_eq_ok.mp h
    obtain ⟨r, -, hy⟩ := bind_eq_ok.mp hy
    obtain ⟨v, hv, hy⟩ := bind_eq_ok.mp hy
    cases hy
    cases h
    cases hx
    exact Radix.readExponent_natAbs_lt hv

theorem wellFormed_of_ofLiteral {default : Radix} {l : Literal} {n : Numeral} (hl : l.Fits)
    (h : ofLiteral default l = .ok n) : n.WellFormed := by
  obtain ⟨hne, r, ds, x, -, hds, hx, rfl⟩ := ofLiteral_eq_ok.mp h
  refine ⟨hne, hl.integer, ?_, ⟨ds, hds⟩, readExponent_lt hx⟩
  intro c hc
  cases hf : l.fraction with
  | none =>
    rw [hf] at hc
    cases hc
  | some fs =>
    rw [hf] at hc
    exact hl.fraction fs hf c hc

theorem wellFormed_of_parse {text : List Char} {default : Nat} {n : Numeral}
    (h : parse text default = .ok n) : n.WellFormed := by
  obtain ⟨r, -, h⟩ := bind_eq_ok.mp h
  split at h
  · cases h
  · rename_i l hl
    exact wellFormed_of_ofLiteral (Literal.fits_of_read hl) h

/-! ## the literal of a numeral -/

/-- the literal with every radix spelled out, the exponent in decimal -/
def literal (n : Numeral) : Literal where
  integer := n.integer
  fraction := if n.fraction.isEmpty then none else some n.fraction
  radix := some (Radix.ten.write n.radix.val)
  exponent := n.exponent.map fun x =>
    ⟨x.marker, Radix.ten.writeExponent x.value, some ['1', '0']⟩

theorem fraction_literal (n : Numeral) : n.literal.fraction.getD [] = n.fraction := by
  cases hf : n.fraction with
  | nil => simp [literal, hf]
  | cons c cs => simp [literal, hf]

theorem write_literal (n : Numeral) : n.literal.write = n.write := by
  have hfraction : Literal.writeFraction n.literal.fraction
      = if n.fraction.isEmpty then [] else '.' :: n.fraction := by
    cases hf : n.fraction with
    | nil => simp [literal, hf, Literal.writeFraction]
    | cons c cs => simp [literal, hf, Literal.writeFraction]
  have hexponent : Literal.writeExponent n.literal.exponent = writeExponent n.exponent := by
    cases hx : n.exponent with
    | none => simp [literal, hx, Literal.writeExponent, writeExponent]
    | some x =>
      simp [literal, hx, Literal.writeExponent, writeExponent, Literal.writeSuffix]
  unfold Literal.write write
  rw [hfraction, hexponent]
  rfl

theorem WellFormed.fits {n : Numeral} (h : n.WellFormed) : n.literal.Fits where
  integer := h.integer
  fraction := by
    intro ds hds c hc
    have hmem : c ∈ n.literal.fraction.getD [] := by
      rw [Option.mem_def.mp hds]
      exact hc
    rw [fraction_literal] at hmem
    exact h.fraction c hmem
  radix := by
    intro ds hds c hc
    cases hds
    obtain ⟨d, hd, rfl⟩ := List.mem_map.mp hc
    exact isDigit_digitChar (Radix.ten.digits_lt _ d hd)
  exponent := by
    intro y hy
    obtain ⟨x, -, rfl⟩ := Option.map_eq_some_iff.mp hy
    constructor
    · show ∀ c ∈ (takeSign (Radix.ten.writeExponent x.value)).2, isUpperDigit c = true
      rw [takeSign_writeExponent]
      exact isUpperDigit_map_digitChar (Radix.ten.digits_lt _)
    · intro ds hds
      cases hds
      have hten : ['1', '0'].all Char.isDigit = true := by decide
      exact List.all_eq_true.mp hten

theorem WellFormed.readExponent_literal {n : Numeral} (h : n.WellFormed) (default : Radix) :
    readExponent default n.literal.exponent = .ok n.exponent := by
  cases hx : n.exponent with
  | none =>
    unfold literal
    rw [hx]
    rfl
  | some x =>
    have hback := Radix.ten.readExponent_writeExponent (h.exponent x hx)
    have hten : Radix.parse ['1', '0'] = .ok Radix.ten := rfl
    unfold literal readExponent ExponentPart.read suffixRadix
    simp only [hx, Option.map_some, hten]
    show (Radix.ten.readExponent (Radix.ten.writeExponent x.value) >>= _) >>= _ = _
    rw [hback]
    rfl

/-- a well-formed numeral is read back from its text, whatever the default radix -/
theorem parse_write {n : Numeral} (h : n.WellFormed) (default : Radix) :
    parse n.write default.val = .ok n := by
  obtain ⟨ds, hds⟩ := h.below
  rw [parse_of_ofNat default.ofNat_val, ← write_literal, Literal.read_write h.fits]
  apply ofLiteral_eq_ok.mpr
  rw [fraction_literal]
  exact ⟨h.ne_nil, n.radix, ds, n.exponent, n.radix.parse_write, hds,
    h.readExponent_literal default, rfl⟩

end Numeral

/-- **A numeral that was read is read back from its text.**  Whatever text a numeral came from, and
with whatever default radix, its own text gives it again in every default radix: the same digits on
both sides of the point, the same radix and the same exponent. -/
theorem write_parse_stable (text : List Char) (default : Nat) (n : Numeral)
    (h : Numeral.parse text default = .ok n) (other : Nat) (h₂ : 2 ≤ other) (h₃₆ : other ≤ 36) :
    Numeral.parse n.write other = .ok n :=
  Numeral.parse_write (Numeral.wellFormed_of_parse h) ⟨other, h₂, h₃₆⟩

/-- no digits before the point, and a negative exponent in another radix than the mantissa's -/
theorem binary_fraction_stable :
    ∃ n : Numeral, Numeral.parse ".1A_16p-101_2".toList 10 = .ok n ∧
      n.write = ".1A_16p-5_10".toList ∧ Numeral.parse ".1A_16p-5_10".toList 36 = .ok n := by
  have hread : Numeral.parse ".1A_16p-101_2".toList 10
      = .ok ⟨[], ['1', 'A'], sixteen, some ⟨.binary, -5⟩⟩ := rfl
  have hwrite : Numeral.write ⟨[], ['1', 'A'], sixteen, some ⟨.binary, -5⟩⟩
      = ".1A_16p-5_10".toList := by decide +kernel
  refine ⟨_, hread, hwrite, ?_⟩
  rw [← hwrite]
  exact write_parse_stable _ _ _ hread 36 (by decide) (by decide)

end Calculator
