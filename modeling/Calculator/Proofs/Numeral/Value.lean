import Calculator.Proofs.Numeral.Lexeme
import Calculator.Proofs.Token.Pieces
import Mathlib.Algebra.Order.Field.Rat

/-!
# The exact value of a numeral, and of its lexeme

A numeral denotes a rational number: its digits in its radix, scaled by a power of the radix behind
the marker `e` and by a power of two behind the marker `p`.  The lexer of programmer mode keeps the
digits in number and the exponent, but the lexeme no longer shows the radix that was written.  So a
power of two is kept, while a power of the mantissa's radix becomes a power of the lexer's radix.

* `Numeral.value`       the exact number that a numeral denotes;
* `Numeral.value_eq_iff`   when two numerals with one mantissa and one exponent are equal;
* `lexeme_value_iff`    the lexeme of a literal without a point denotes what the literal does,
                        except for a power of another radix than the lexer's.
-/

namespace Calculator

/-- what the marker scales by -/
def Marker.scale (radix : Radix) : Marker → ℕ
  | .radix => radix.val
  | .binary => 2

/-- what the exponent scales by, 1 without one -/
def Exponent.factor (radix : Radix) : Option Exponent → ℚ
  | none => 1
  | some x => (x.marker.scale radix : ℚ) ^ x.value

namespace Numeral

/-- the number that the digits denote, those behind the point included -/
def mantissa (n : Numeral) : ℚ :=
  (number n.radix.val ((n.integer ++ n.fraction).map digitNumber) : ℚ)
    / (n.radix.val : ℚ) ^ n.fraction.length

/-- the exact number that a numeral denotes -/
def value (n : Numeral) : ℚ := n.mantissa * Exponent.factor n.radix n.exponent

end Numeral

/-! ## powers of two radices -/

theorem Marker.scale_pos (radix : Radix) (m : Marker) : 0 < m.scale radix := by
  have h := radix.two_le
  cases m with
  | radix => show 0 < radix.val; omega
  | binary => show 0 < 2; omega

theorem Exponent.factor_ne_zero (radix : Radix) (x : Option Exponent) :
    Exponent.factor radix x ≠ 0 := by
  cases x with
  | none => exact one_ne_zero
  | some x =>
    refine zpow_ne_zero _ ?_
    have h := x.marker.scale_pos radix
    exact Nat.cast_ne_zero.mpr (by omega)

theorem Exponent.factor_eq_iff (r s : Radix) (x : Option Exponent) :
    Exponent.factor r x = Exponent.factor s x ↔
      ¬ (r ≠ s ∧ ∃ v, v ≠ 0 ∧ x = some ⟨.radix, v⟩) := by
  constructor
  · rintro h ⟨hrs, v, hv, rfl⟩
    have hpow : (r.val : ℚ) ^ v = (s.val : ℚ) ^ v := h
    rw [zpow_left_inj₀ (Nat.cast_nonneg _) (Nat.cast_nonneg _) hv, Nat.cast_inj] at hpow
    obtain ⟨a, _, _⟩ := r
    obtain ⟨b, _, _⟩ := s
    cases hpow
    exact hrs rfl
  · intro h
    by_cases hrs : r = s
    · rw [hrs]
    · cases x with
      | none => rfl
      | some x =>
        obtain ⟨m, v⟩ := x
        cases m with
        | binary => rfl
        | radix =>
          by_cases hv : v = 0
          · subst hv
            show (r.val : ℚ) ^ (0 : ℤ) = (s.val : ℚ) ^ (0 : ℤ)
            rw [zpow_zero, zpow_zero]
          · exact absurd ⟨hrs, v, hv, rfl⟩ h

namespace Numeral

theorem value_eq_zero_iff (n : Numeral) : n.value = 0 ↔ n.mantissa = 0 := by
  unfold value
  rw [mul_eq_zero]
  exact or_iff_left (Exponent.factor_ne_zero _ _)

/-- numerals with one mantissa and one exponent denote the same number, unless the number is not
zero and a power of two different radices -/
theorem value_eq_iff {n n' : Numeral} (hm : n'.mantissa = n.mantissa)
    (hx : n'.exponent = n.exponent) :
    n'.value = n.value ↔
      ¬ (n.value ≠ 0 ∧ n'.radix ≠ n.radix ∧ ∃ v, v ≠ 0 ∧ n.exponent = some ⟨.radix, v⟩) := by
  have hcancel : n'.value = n.value ↔
      Exponent.factor n'.radix n.exponent = Exponent.factor n.radix n.exponent ∨
        n.mantissa = 0 := by
    unfold value
    rw [hm, hx]
    exact mul_eq_mul_left_iff
  rw [hcancel, Exponent.factor_eq_iff, ← value_eq_zero_iff]
  constructor
  · rintro (h | h) ⟨hv, hrest⟩
    · exact h hrest
    · exact hv h
  · intro h
    by_cases hv : n.value = 0
    · exact Or.inr hv
    · exact Or.inl fun hrest => h ⟨hv, hrest⟩

theorem mantissa_of_digits {n : Numeral} {ds : List Nat} (hf : n.fraction = [])
    (hds : digitsOf n.radix.val n.integer = .ok ds) : n.mantissa = number n.radix.val ds := by
  unfold mantissa
  rw [hf, List.append_nil, ← (digitsOf_ok hds).1, List.length_nil, pow_zero, div_one]

end Numeral

/-! ## the lexeme of a literal -/

theorem Literal.fraction_of_no_point {text : List Char} {l : Literal} (h : l.write = text)
    (hp : '.' ∉ text) : l.fraction = none := by
  cases hf : l.fraction with
  | none => rfl
  | some ds =>
    refine absurd ?_ hp
    rw [← h]
    unfold Literal.write
    rw [hf]
    simp [Literal.writeFraction]

theorem Rules.scan_upperDigit {ρ : Rules} (hmode : ρ.mode = .programmer)
    (hg : ρ.grammar.UpperDigits) {c : Char} (hc : isUpperDigit c = true) (cs : List Char) :
    ρ.scan c cs = ρ.scanNumeral c cs := by
  obtain ⟨-, hpunct, hletter⟩ := hg.not_other hc
  have hreserved : ρ.mode.reserves c = false := by
    rw [hmode]
    have hall : upperDigits.all (fun d => !Mode.programmer.reserves d) = true := by decide
    exact (Bool.not_eq_true' _).mp (of_all_upperDigits hall hc)
  unfold scan
  rw [hpunct, hreserved, hletter, hg.isDigit_eq, hc]
  rfl

/-- a literal without a point lexes as one word, a literal that is read in the radix of the lexer -/
theorem Lexer.lexes_literal {l : Lexer} {n : Numeral} {lit : Literal} (h₀ : l.cursor = 0)
    (hmode : l.rules.mode = .programmer) (hg : l.rules.grammar.UpperDigits)
    (hword : l.rules.nameKind = Kind.word) (hread : Literal.read l.source = some lit)
    (hp : '.' ∉ l.source) (hn : Numeral.ofLiteral l.rules.radix lit = .ok n) :
    ∃ lit' : Literal, l.Lexes [⟨Kind.word, lit'.write, 0⟩] ∧ lit'.Fits ∧
      ∃ n', Numeral.ofLiteral l.rules.radix lit' = .ok n' ∧ n'.radix = l.rules.radix ∧
        n'.exponent = n.exponent ∧ n'.mantissa = n.mantissa := by
  have hwrite : lit.write = l.source := Literal.write_of_read hread
  have hfits := Literal.fits_of_read hread
  have hf := Literal.fraction_of_no_point hwrite hp
  obtain ⟨hne, -⟩ := Numeral.ofLiteral_eq_ok.mp hn
  obtain ⟨c, m, hi⟩ : ∃ c m, lit.integer = c :: m :=
    List.exists_cons_of_ne_nil fun e => hne ⟨e, by rw [hf]; rfl⟩
  have hc : isUpperDigit c = true := hfits.integer c (by rw [hi]; exact List.mem_cons_self)
  obtain ⟨hwhite, -⟩ := hg.not_other hc
  obtain ⟨cs, hcs⟩ : ∃ cs, lit.write = c :: cs := by
    unfold Literal.write
    rw [hi]
    exact ⟨_, rfl⟩
  obtain ⟨lit', hscan, hfits', ds, ds', hds, hds', hnum, hfrac, hn'⟩ :=
    Rules.numeral_scan hmode hg.isDigit_eq hfits hf hn hcs
  refine ⟨lit', ?_, hfits', _, hn', rfl, rfl, ?_⟩
  · refine Lexer.lexes_singleton h₀ (hwrite.symm.trans hcs) hwhite ?_ (fun e => by cases e)
    rw [Rules.scan_upperDigit hmode hg hc]
    unfold Rules.scanNumeral
    rw [hscan, hword]
  · rw [Numeral.mantissa_of_digits rfl hds', Numeral.mantissa_of_digits hfrac hds]
    exact congrArg (Nat.cast : ℕ → ℚ) hnum

/-- **The lexeme of a literal denotes the number of the literal, except for a power of another
radix.**  In programmer mode a source that is one literal without a point lexes as one word, and
the reader accepts its lexeme in the radix of the lexer.  Lexeme and source denote the same number
if and only if it is not so that the number is not zero, the mantissa was written in another radix
than the lexer's, and the marker `e` stands before an exponent that is not zero. -/
theorem lexeme_value_iff (g : Grammar) (config : Config) (text : List Char) (l : Lexer)
    (n : Numeral) (hg : Mode.programmer.grammar = .ok g)
    (hl : Lexer.new g .programmer config text = .ok l)
    (hp : '.' ∉ l.source) (hn : Numeral.parse l.source config.radix = .ok n) :
    ∃ (lexeme : List Char) (n' : Numeral), l.Lexes [⟨Kind.word, lexeme, 0⟩] ∧
      Numeral.parse lexeme config.radix = .ok n' ∧
      (n'.value = n.value ↔
        ¬ (n.value ≠ 0 ∧ n.radix.val ≠ config.radix ∧
          ∃ v, v ≠ 0 ∧ n.exponent = some ⟨.radix, v⟩)) := by
  obtain ⟨h₀, hgrammar, hmode, hname, hradix⟩ := Lexer.new_eq_ok hl
  have hword : l.rules.nameKind = Kind.word := by
    rw [(Mode.grammar_standard hg).words] at hname
    exact (Option.some.inj hname).symm
  have hupper : l.rules.grammar.UpperDigits := by
    have e : g = Mode.programmer.language := Except.ok.inj (hg.symm.trans (Mode.grammar_eq _))
    rw [hgrammar, e]
    exact Mode.programmer_upperDigits
  have hval : l.rules.radix.val = config.radix := Radix.ofNat_eq_ok_iff.mp hradix
  rw [Numeral.parse_of_ofNat hradix] at hn
  split at hn
  · cases hn
  · rename_i lit hread
    obtain ⟨lit', hlexes, hfits, n', hn', hr', hx', hm'⟩ :=
      Lexer.lexes_literal h₀ hmode hupper hword hread hp hn
    refine ⟨lit'.write, n', hlexes, ?_, ?_⟩
    · rw [Numeral.parse_of_ofNat hradix, Literal.read_write hfits]
      exact hn'
    · have hne : n'.radix ≠ n.radix ↔ n.radix.val ≠ config.radix := by
        rw [hr', ← hval]
        constructor
        · intro h e
          exact h (Except.ok.inj ((Radix.ofNat_val _).symm.trans (Radix.ofNat_eq_ok_iff.mpr e)))
        · rintro h e
          exact h (congrArg Radix.val e).symm
      rw [Numeral.value_eq_iff hm' hx', hne]

/-- a power of two is kept: 26 times 8 in both spellings -/
theorem binary_power_kept :
    Lexer.new Mode.programmer.language .programmer Config.whole "1A_16p3".toList
      = .ok (Mode.programmer.lexer "1A_16p3".toList) ∧
    Numeral.parse "1A_16p3".toList 10 = .ok ⟨['1', 'A'], [], sixteen, some ⟨.binary, 3⟩⟩ ∧
    ∃ (lexeme : List Char) (n' : Numeral),
      (Mode.programmer.lexer "1A_16p3".toList).Lexes [⟨Kind.word, lexeme, 0⟩] ∧
      Numeral.parse lexeme 10 = .ok n' ∧
      n'.value = Numeral.value ⟨['1', 'A'], [], sixteen, some ⟨.binary, 3⟩⟩ := by
  have hl := Mode.programmer.lexer_eq "1A_16p3".toList
  have hn : Numeral.parse "1A_16p3".toList 10
      = .ok ⟨['1', 'A'], [], sixteen, some ⟨.binary, 3⟩⟩ := by rfl
  obtain ⟨lexeme, n', hlexes, hn', hiff⟩ :=
    lexeme_value_iff _ _ _ _ _ (Mode.grammar_eq .programmer) hl (by decide) hn
  refine ⟨hl, hn, lexeme, n', hlexes, hn', hiff.mpr ?_⟩
  rintro ⟨-, -, v, -, hx⟩
  cases hx

/-- a power of the written radix is lost: the source denotes 16 times 16, its lexeme 16 times 10 -/
theorem written_radix_power_lost :
    Lexer.new Mode.programmer.language .programmer Config.whole "10_16e1".toList
      = .ok (Mode.programmer.lexer "10_16e1".toList) ∧
    (Mode.programmer.lexer "10_16e1".toList).Lexes [⟨Kind.word, "16e1".toList, 0⟩] ∧
    ∃ n n' : Numeral, Numeral.parse "10_16e1".toList 10 = .ok n ∧
      Numeral.parse "16e1".toList 10 = .ok n' ∧ n.value = 256 ∧ n'.value = 160 := by
  refine ⟨Mode.programmer.lexer_eq _, ⟨⟨Kind.ending, [], 7⟩, rfl, ?_⟩,
    ⟨['1', '0'], [], sixteen, some ⟨.radix, 1⟩⟩, ⟨['1', '6'], [], Radix.ten, some ⟨.radix, 1⟩⟩,
    rfl, rfl, ?_, ?_⟩
  · decide +kernel
  · decide +kernel
  · decide +kernel

end Calculator
