import Calculator.Proofs.Numeral.Rounding

/-!
# Fractions in another radix are canonical

Re-expressed digits have no zero in front and none at the end, whatever carries ran when they were
rounded.  Digits of this form are determined by the number that they denote: a last digit that is
not zero needs its place, so equal numbers have equally many places, and from there on they are
integers.  So re-expressing such digits in their own radix, where nothing is rounded, gives them
again.

* `Expansion.Canonical b x`         no zero at either end;
* `expand_canonical`                re-expressed digits are canonical;
* `Expansion.Canonical.eq_of_value` canonical digits with one number are the same;
* `Radix.CanonicalPoint r i f`      the canonical texts, with or without a point;
* `Radix.rounded_of_integer`        nothing is rounded when nothing is left behind the last place;
* `convert_canonical_bracketed`     all of it, for texts with one optional point.
-/

namespace Calculator

/-! ## canonical digits -/

/-- digits of the radix, without a zero in front of the integer and at the end of the fraction -/
structure Expansion.Canonical (b : ℕ) (x : Expansion) : Prop where
  below : x.Below b
  leading : x.integer.head? ≠ some 0
  trailing : x.fraction.getLast? ≠ some 0

theorem bump_head {b : ℕ} {ds : List ℕ} (h : ds.head? ≠ some 0) (hcarry : (bump b ds).1 = false) :
    (bump b ds).2.head? ≠ some 0 := by
  cases ds with
  | nil => exact h
  | cons d ds =>
    unfold bump at hcarry ⊢
    split
    · exact h
    · rename_i ds' he
      rw [he] at hcarry
      by_cases hd : d + 1 < b
      · rw [if_pos hd]
        simp
      · simp only at hcarry
        rw [if_neg hd] at hcarry
        cases hcarry

namespace Expansion

variable {b : ℕ} {x y : Expansion}

theorem up_leading (h : x.integer.head? ≠ some 0) : (x.up b).integer.head? ≠ some 0 := by
  unfold up
  split
  · exact h
  · cases hbump : bump b x.integer with
    | mk carry i =>
      cases carry with
      | true =>
        show (1 :: i).head? ≠ some 0
        simp
      | false =>
        have hhead := bump_head h (congrArg Prod.fst hbump)
        rw [hbump] at hhead
        exact hhead

theorem round_leading {places : ℕ} (h : x.integer.head? ≠ some 0) :
    (x.round b places).integer.head? ≠ some 0 := by
  unfold round
  split
  · simp only
    split
    · exact up_leading h
    · exact h
  · exact h

theorem trim_trailing : x.trim.fraction.getLast? ≠ some 0 := by
  intro hlast
  have hne : x.fraction.rdropWhile (· == 0) ≠ [] := by
    intro e
    have hlast' : (x.fraction.rdropWhile (· == 0)).getLast? = some 0 := hlast
    rw [e] at hlast'
    cases hlast'
  have hnot := List.rdropWhile_last_not (· == 0) x.fraction hne
  have hzero : (x.fraction.rdropWhile (· == 0)).getLast hne = 0 := by
    have hlast' : (x.fraction.rdropWhile (· == 0)).getLast? = some 0 := hlast
    rw [List.getLast?_eq_some_getLast hne] at hlast'
    exact Option.some.inj hlast'
  rw [hzero] at hnot
  exact hnot rfl

end Expansion

theorem rebaseInteger_leading (old new : Radix) (ds : List ℕ) :
    (rebaseInteger old new (ds.dropWhile (· == 0))).head? ≠ some 0 := by
  rw [rebaseInteger_dropWhile]
  by_cases h0 : number old.val ds = 0
  · rw [if_pos h0]
    simp
  · rw [if_neg h0]
    intro hhead
    exact h0 (new.digits_head hhead)

/-- re-expressed digits are canonical -/
theorem expand_canonical (old new : Radix) (places : ℕ) {x : Expansion} (h : x.Below old.val) :
    (expand old new places x).Canonical new.val where
  below := expand_below old new places h.fraction
  leading := Expansion.round_leading (rebaseInteger_leading old new x.integer)
  trailing := Expansion.trim_trailing

namespace Expansion

variable {b : ℕ} {x y : Expansion}

/-- canonical digits have no more places than their number needs -/
theorem Canonical.length_le (hb : 1 < b) (hx : x.Canonical b) (h : x.value b = y.value b) :
    x.fraction.length ≤ y.fraction.length := by
  by_contra hlt
  have hlt : y.fraction.length < x.fraction.length := Nat.lt_of_not_le hlt
  obtain ⟨init, d, hf⟩ : ∃ init d, x.fraction = init ++ [d] := by
    rcases List.eq_nil_or_concat' x.fraction with hnil | hf
    · rw [hnil] at hlt
      exact absurd hlt (Nat.not_lt_zero _)
    · exact hf
  have hd : d < b := hx.below.fraction d (by rw [hf]; simp)
  have hd0 : d ≠ 0 := by
    intro e
    apply hx.trailing
    rw [hf, e, List.getLast?_concat]
  -- in units of the last place of `x` the other number is a multiple of the radix
  have hunits : x.units b x.fraction.length = y.units b x.fraction.length := by
    have hpos : (b : ℚ) ^ x.fraction.length ≠ 0 :=
      pow_ne_zero _ (Nat.cast_ne_zero.mpr (by omega))
    rw [value_eq_units (by omega) (Nat.le_refl x.fraction.length),
      value_eq_units (by omega) (Nat.le_of_lt hlt), div_left_inj' hpos, Nat.cast_inj] at h
    exact h
  have hmod : x.units b x.fraction.length % b = d := by
    unfold units
    rw [Nat.sub_self, pow_zero, Nat.mul_one, hf, ← List.append_assoc, number_concat,
      Nat.mul_comm, Nat.mul_add_mod, Nat.mod_eq_of_lt hd]
  have hzero : y.units b x.fraction.length % b = 0 := by
    obtain ⟨k, hk⟩ : ∃ k, x.fraction.length - y.fraction.length = k + 1 :=
      ⟨x.fraction.length - y.fraction.length - 1, by omega⟩
    unfold units
    rw [hk, pow_succ, ← Nat.mul_assoc, Nat.mul_mod_left]
  rw [hunits, hzero] at hmod
  exact hd0 hmod.symm

theorem number_pos (hb : 0 < b) {ds : List ℕ} (hne : ds ≠ []) (h : ds.head? ≠ some 0) :
    0 < number b ds := by
  obtain ⟨d, ds, rfl⟩ := List.exists_cons_of_ne_nil hne
  have hle := head_le_number hb d ds
  have hd : d ≠ 0 := by
    intro e
    exact h (congrArg some e)
  omega

theorem eq_of_number_eq (r : Radix) {ds es : List ℕ} (hds : ∀ d ∈ ds, d < r.val)
    (hes : ∀ e ∈ es, e < r.val) (hd : ds.head? ≠ some 0) (he : es.head? ≠ some 0)
    (h : number r.val ds = number r.val es) : ds = es := by
  have hpos : 0 < r.val := Nat.lt_of_lt_of_le Nat.two_pos r.two_le
  by_cases hdnil : ds = []
  · by_contra hne
    have hmore := number_pos hpos (fun e => hne (hdnil.trans e.symm)) he
    rw [← h, hdnil, number_nil] at hmore
    exact absurd hmore (Nat.lt_irrefl 0)
  · by_cases henil : es = []
    · have hmore := number_pos hpos hdnil hd
      rw [h, henil, number_nil] at hmore
      exact absurd hmore (Nat.lt_irrefl 0)
    · rw [← r.digits_number hdnil hds fun e => absurd e hd,
        ← r.digits_number henil hes fun e => absurd e he, h]

theorem eq_of_length_eq (hb : 1 < b) {ds es : List ℕ} (hlen : ds.length = es.length)
    (hds : ∀ d ∈ ds, d < b) (hes : ∀ e ∈ es, e < b) (h : number b ds = number b es) : ds = es := by
  rw [number_eq_ofDigits, number_eq_ofDigits] at h
  apply List.reverse_injective
  apply Nat.ofDigits_inj_of_len_eq hb _ _ _ h
  · rw [List.length_reverse, List.length_reverse, hlen]
  · intro d hd
    exact hds d (List.mem_reverse.mp hd)
  · intro e he
    exact hes e (List.mem_reverse.mp he)

/-- canonical digits are determined by the number that they denote -/
theorem Canonical.eq_of_value {r : Radix} (hx : x.Canonical r.val) (hy : y.Canonical r.val)
    (h : x.value r.val = y.value r.val) : x = y := by
  have hb : 1 < r.val := r.two_le
  have hlen : x.fraction.length = y.fraction.length :=
    Nat.le_antisymm (hx.length_le hb h) (hy.length_le hb h.symm)
  have hfx := number_lt hb hx.below.fraction
  have hfy := number_lt hb hy.below.fraction
  have hnumber : number r.val x.integer * r.val ^ y.fraction.length + number r.val x.fraction
      = number r.val y.integer * r.val ^ y.fraction.length + number r.val y.fraction := by
    have hne : (r.val : ℚ) ^ y.fraction.length ≠ 0 := pow_ne_zero _ r.cast_pos.ne'
    unfold value at h
    rw [hlen, div_left_inj' hne, Nat.cast_inj, number_append, number_append, hlen] at h
    exact h
  rw [hlen] at hfx
  have hpow : 0 < r.val ^ y.fraction.length := Nat.pow_pos (by omega)
  have hinteger : number r.val x.integer = number r.val y.integer := by
    have hdiv := congrArg (· / r.val ^ y.fraction.length) hnumber
    simp only [Nat.add_comm (_ * _), Nat.add_mul_div_right _ _ hpow, Nat.div_eq_of_lt hfx,
      Nat.div_eq_of_lt hfy, Nat.zero_add] at hdiv
    exact hdiv
  have hfraction : number r.val x.fraction = number r.val y.fraction := by
    rw [hinteger] at hnumber
    exact Nat.add_left_cancel hnumber
  obtain ⟨i, f⟩ := x
  obtain ⟨i', f'⟩ := y
  congr 1
  · exact eq_of_number_eq r hx.below.integer hy.below.integer hx.leading hy.leading hinteger
  · exact eq_of_length_eq hb hlen hx.below.fraction hy.below.fraction hfraction

end Expansion

/-! ## canonical texts -/

namespace Radix

/-- a canonical integer, and behind a point digits that do not end with a zero -/
structure CanonicalPoint (r : Radix) (i : List Char) (f : Option (List Char)) : Prop where
  integer : r.Canonical i
  point : ∀ fs ∈ f, fs ≠ []
  fraction : ∀ fs ∈ f, ∀ c ∈ fs, isUpperDigit c = true ∧ digitNumber c < r.val
  trailing : ∀ fs ∈ f, fs.getLast? ≠ some '0'

end Radix

theorem fractionPlaces_self (n : ℕ) (r : Radix) : fractionPlaces n r r = n := if_pos rfl

namespace Expansion

variable {r : Radix} {x : Expansion}

theorem Canonical.integerText_eq (h : x.Canonical r.val) :
    x.integerText = r.write (number r.val x.integer) := by
  have h2 := r.two_le
  unfold integerText Radix.write
  by_cases hi : x.integer.isEmpty = true
  · rw [if_pos hi, List.isEmpty_iff.mp hi, number_nil, r.digits_of_lt (by omega)]
    rfl
  · rw [if_neg hi, r.digits_number (fun e => hi (List.isEmpty_iff.mpr e)) h.below.integer
      fun e => absurd e h.leading]

theorem Canonical.text (h : x.Canonical r.val) :
    r.CanonicalPoint x.integerText x.fractionText := by
  have hfraction : ∀ fs ∈ x.fractionText, x.fraction ≠ [] ∧ fs = x.fraction.map digitChar := by
    intro fs hfs
    unfold fractionText at hfs
    by_cases hf : x.fraction.isEmpty = true
    · rw [if_pos hf] at hfs
      cases hfs
    · rw [if_neg hf] at hfs
      cases hfs
      exact ⟨fun e => hf (List.isEmpty_iff.mpr e), rfl⟩
  constructor
  · rw [h.integerText_eq]
    exact r.canonical_write _
  · intro fs hfs
    obtain ⟨hne, rfl⟩ := hfraction fs hfs
    intro e
    exact hne (List.map_eq_nil_iff.mp e)
  · intro fs hfs c hc
    obtain ⟨-, rfl⟩ := hfraction fs hfs
    refine ⟨isUpperDigit_map_digitChar h.below.fraction c hc, ?_⟩
    obtain ⟨d, hd, rfl⟩ := List.mem_map.mp hc
    have hlt := h.below.fraction d hd
    rw [Radix.digitNumber_digitChar (Nat.lt_of_lt_of_le hlt r.le_max)]
    exact hlt
  · intro fs hfs hlast
    obtain ⟨-, rfl⟩ := hfraction fs hfs
    rw [List.getLast?_map] at hlast
    obtain ⟨d, hd, hchar⟩ := Option.map_eq_some_iff.mp hlast
    have hlt := h.below.fraction d (List.mem_of_getLast? hd)
    have hzero : d = 0 := by
      rw [← Radix.digitNumber_digitChar (Nat.lt_of_lt_of_le hlt r.le_max), hchar]
      rfl
    exact h.trailing (hzero ▸ hd)

end Expansion

/-! ## nothing to round -/

namespace Radix

variable {r : Radix} {v : ℚ} {places : ℕ}

theorem rounded_eq_or (r : Radix) (s : ℚ) : r.rounded s = ⌊s⌋ ∨ r.rounded s = ⌊s⌋ + 1 := by
  unfold rounded
  split
  · exact Or.inr rfl
  · exact Or.inl (add_zero _)

theorem rounded_of_integer {k : ℤ} (h : v * r.val ^ places = k) :
    (r.rounded (v * r.val ^ places) : ℚ) / r.val ^ places = v := by
  have hpow : (r.val : ℚ) ^ places ≠ 0 := pow_ne_zero _ r.cast_pos.ne'
  have hdown : ¬ (r.val : ℤ) ≤ r.guard (v * r.val ^ places) * 2 := by
    rw [half_le_guard_iff, h, Int.fract_intCast]
    rintro ⟨hhalf, -⟩
    exact absurd hhalf (by norm_num)
  unfold rounded
  rw [if_neg hdown, add_zero, h, Int.floor_intCast, ← h, mul_div_assoc, div_self hpow, mul_one]

theorem value_mul_pow (r : Radix) (i f : List Char) :
    r.value i f * r.val ^ f.length = (number r.val ((i ++ f).map digitNumber) : ℤ) := by
  have hpow : (r.val : ℚ) ^ f.length ≠ 0 := pow_ne_zero _ r.cast_pos.ne'
  unfold value Numeral.mantissa
  rw [div_mul_cancel₀ _ hpow, Int.cast_natCast]

end Radix

/-- converting canonical digits into their own radix leaves them as they are -/
theorem Expansion.Canonical.convert_self {r : Radix} {x : Expansion} (h : x.Canonical r.val) :
    convert (x.integerText ++ Literal.writeFraction x.fractionText) r.val r.val
      = .ok (x.integerText ++ Literal.writeFraction x.fractionText) := by
  have hdigits := h.below.text_digits
  have hbelow := ofText_below r hdigits
  obtain ⟨y, rfl, -, -, hconvert, hvalue⟩ :=
    rebaseTo_rounds r r hdigits (x.fractionText.getD []).length
  have hcanonical := expand_canonical r r (x.fractionText.getD []).length hbelow
  rw [hconvert (fractionPlaces_self _ r).symm]
  rw [Radix.rounded_of_integer (r.value_mul_pow _ _), hcanonical.below.value_text,
    h.below.value_text] at hvalue
  rw [hcanonical.eq_of_value h hvalue]

/-- **Converted fractions are canonical and bracketed.**  Digits of a radix with one optional point
are re-expressed in any radix with any number of places, which in the radix itself is the number of
places that are written; converting takes it from the estimate.  The result has upper-case digits of
the new radix, no zero in front of other digits, no more places than it may have, no zero at the end
of a fraction and no point without one.  It denotes the number cut off behind the last place or one
unit of that place more, and the number itself when that ends there, as it does in the same radix.
Converting the result into its own radix leaves it as it is. -/
theorem convert_canonical_bracketed (old new : Radix) (i : List Char) (f : Option (List Char))
    (h : ∀ c ∈ i ++ f.getD [], ∃ d, digitValue c old.val = .ok d) (places : ℕ)
    (hplaces : old = new → places = (f.getD []).length) :
    ∃ (i' : List Char) (f' : Option (List Char)),
      rebaseTo (fun _ => places) old new (i ++ Literal.writeFraction f)
        = .ok (i' ++ Literal.writeFraction f') ∧
      (places = fractionPlaces (f.getD []).length old new →
        convert (i ++ Literal.writeFraction f) old.val new.val
          = .ok (i' ++ Literal.writeFraction f')) ∧
      new.CanonicalPoint i' f' ∧ (f'.getD []).length ≤ places ∧
      (new.value i' (f'.getD [])
          = ⌊old.value i (f.getD []) * new.val ^ places⌋ / new.val ^ places ∨
        new.value i' (f'.getD [])
          = (⌊old.value i (f.getD []) * new.val ^ places⌋ + 1) / new.val ^ places) ∧
      ((∃ k : ℤ, old.value i (f.getD []) * new.val ^ places = k) →
        new.value i' (f'.getD []) = old.value i (f.getD [])) ∧
      (old = new → ∃ k : ℤ, old.value i (f.getD []) * new.val ^ places = k) ∧
      convert (i' ++ Literal.writeFraction f') new.val new.val
        = .ok (i' ++ Literal.writeFraction f') := by
  obtain ⟨x, hx, -, hrebase, hconvert, hvalue⟩ := rebaseTo_rounds old new h places
  have hcanonical : x.Canonical new.val := by
    rw [hx]
    exact expand_canonical old new places (ofText_below old h)
  refine ⟨_, _, hrebase, hconvert, hcanonical.text, ?_, ?_, ?_, ?_, hcanonical.convert_self⟩
  · rw [Expansion.getD_fractionText, List.length_map, hx]
    exact length_expand_le old new places _
  · rw [hvalue]
    rcases new.rounded_eq_or (old.value i (f.getD []) * new.val ^ places) with hr | hr
    · rw [hr]
      exact Or.inl rfl
    · rw [hr, Int.cast_add, Int.cast_one]
      exact Or.inr rfl
  · rintro ⟨k, hk⟩
    rw [hvalue, Radix.rounded_of_integer hk]
  · rintro rfl
    rw [hplaces rfl]
    exact ⟨_, old.value_mul_pow i (f.getD [])⟩

/-- zeros at both ends go, and nothing else -/
theorem padded_fraction_canonical :
    (∀ c ∈ "00A".toList ++ (some "B0".toList).getD [], ∃ d, digitValue c sixteen.val = .ok d) ∧
    convert "00A.B0".toList 16 16 = .ok "A.B".toList ∧
    convert "A.B".toList 16 16 = .ok "A.B".toList ∧
    ∃ (i' : List Char) (f' : Option (List Char)), i' ++ Literal.writeFraction f' = "A.B".toList ∧
      sixteen.CanonicalPoint i' f' ∧ (f'.getD []).length ≤ 2 ∧
      sixteen.value i' (f'.getD []) = sixteen.value "00A".toList "B0".toList := by
  have hdigits : ∀ c ∈ "00A".toList ++ (some "B0".toList).getD [],
      ∃ d, digitValue c sixteen.val = .ok d := by
    intro c hc
    have hmem : c = '0' ∨ c = 'A' ∨ c = 'B' := by
      simp at hc
      tauto
    rcases hmem with rfl | rfl | rfl
    · exact ⟨0, rfl⟩
    · exact ⟨10, rfl⟩
    · exact ⟨11, rfl⟩
  have hresult : rebaseTo (fun _ => 2) sixteen sixteen "00A.B0".toList = .ok "A.B".toList := by
    decide +kernel
  obtain ⟨i', f', hrebase, hconvert, hcanonical, hlen, -, hexact, hsame, hself⟩ :=
    convert_canonical_bracketed sixteen sixteen _ _ hdigits 2 fun _ => rfl
  have htext : i' ++ Literal.writeFraction f' = "A.B".toList :=
    Except.ok.inj (hrebase.symm.trans hresult)
  rw [htext] at hconvert hself
  exact ⟨hdigits, hconvert (fractionPlaces_self 2 sixteen).symm, hself, i', f', htext, hcanonical,
    hlen, hexact (hsame rfl)⟩

end Calculator
