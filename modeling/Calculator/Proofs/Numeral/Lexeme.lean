import Calculator.Proofs.Grammar.Builtin
import Calculator.Proofs.Numeral.Digits
import Calculator.Proofs.Numeral.Literal

/-!
# The lexeme of a literal

Over the digits of programmer mode the scanner cuts a literal without a point where the reader of
numerals does.  A part without a suffix goes into the lexeme as it stands; a part with a suffix is
re-expressed in the radix of the lexer, which is exact.  So the lexeme is a literal of its own,
without suffixes, with the same digits in number and the same exponent.

* `Numeral.ofLiteral_eq_ok`   what the parts of a literal have to be;
* `Rules.mantissa_scan`       the mantissa of a literal;
* `Rules.exponent_scan`       the exponent of a literal;
* `Rules.numeral_scan`        the whole lexeme.
-/

namespace Calculator

/-! ## characters -/

theorem toUpper_of_upperDigit {c : Char} (h : isUpperDigit c = true) : c.toUpper = c := by
  have hall : upperDigits.all (fun d => d.toUpper == d) = true := by decide
  exact beq_iff_eq.mp (of_all_upperDigits hall h)

theorem map_toUpper {cs : List Char} (h : ∀ c ∈ cs, isUpperDigit c = true) :
    cs.map Char.toUpper = cs := by
  have hmap : cs.map Char.toUpper = cs.map id :=
    List.map_congr_left fun c hc => toUpper_of_upperDigit (h c hc)
  rw [hmap, List.map_id]

theorem isUpperDigit_digitChar {v : Nat} (h : v < 36) : isUpperDigit (digitChar v) = true := by
  have hall : ∀ u ∈ List.range 36, isUpperDigit (digitChar u) = true := by decide
  exact hall v (List.mem_range.mpr h)

theorem isDigit_digitChar {v : Nat} (h : v < 10) : (digitChar v).isDigit = true := by
  have all : ∀ u ∈ List.range 10, (digitChar u).isDigit = true := by decide
  exact all v (List.mem_range.mpr h)

theorem isUpperDigit_map_digitChar {r : Radix} {ds : List Nat} (h : ∀ d ∈ ds, d < r.val) :
    ∀ c ∈ ds.map digitChar, isUpperDigit c = true := by
  intro c hc
  obtain ⟨d, hd, rfl⟩ := List.mem_map.mp hc
  exact isUpperDigit_digitChar (Nat.lt_of_lt_of_le (h d hd) r.le_max)

/-! ## what the reader accepts -/

theorem Numeral.parse_of_ofNat {radix : Radix} {d : Nat} (hd : Radix.ofNat d = .ok radix)
    (text : List Char) :
    Numeral.parse text d =
      match Literal.read text with
      | none => .error .notANumeral
      | some l => Numeral.ofLiteral radix l := by
  unfold Numeral.parse
  rw [hd]
  rfl

theorem Numeral.ofLiteral_eq_ok {default : Radix} {l : Literal} {n : Numeral} :
    Numeral.ofLiteral default l = .ok n ↔
      ¬ (l.integer = [] ∧ l.fraction.getD [] = []) ∧
      ∃ r ds x, suffixRadix default l.radix = .ok r ∧
        digitsOf r.val (l.integer ++ l.fraction.getD []) = .ok ds ∧
        Numeral.readExponent default l.exponent = .ok x ∧
        n = ⟨l.integer, l.fraction.getD [], r, x⟩ := by
  unfold Numeral.ofLiteral
  have hempty : (l.integer.isEmpty && (l.fraction.getD []).isEmpty) = true ↔
      l.integer = [] ∧ l.fraction.getD [] = [] := by
    rw [Bool.and_eq_true, List.isEmpty_iff, List.isEmpty_iff]
  constructor
  · intro h
    split at h
    · cases h
    · rename_i hne
      obtain ⟨r, hr, h⟩ := bind_eq_ok.mp h
      obtain ⟨ds, hds, h⟩ := bind_eq_ok.mp h
      obtain ⟨x, hx, h⟩ := bind_eq_ok.mp h
      cases h
      exact ⟨fun e => hne (hempty.mpr e), r, ds, x, hr, hds, hx, rfl⟩
  · rintro ⟨hne, r, ds, x, hr, hds, hx, rfl⟩
    rw [if_neg (fun e => hne (hempty.mp e)), hr]
    show (digitsOf r.val _ >>= _) = _
    rw [hds]
    show (Numeral.readExponent default l.exponent >>= _) = _
    rw [hx]
    rfl

theorem signed_eq (text : List Char) :
    signed text = (decide ((takeSign text).1 = ['-']), (takeSign text).2) := by
  unfold signed takeSign
  split
  · rfl
  · rfl
  · rename_i hm hp
    split
    · exact absurd rfl (hp _)
    · exact absurd rfl (hm _)
    · rfl

theorem takeSign_writeExponent (r : Radix) (v : Int) :
    (takeSign (r.writeExponent v)).2 = r.write v.natAbs := by
  unfold Radix.writeExponent
  split <;> rfl

namespace Rules

section
variable {ρ : Rules} (hmode : ρ.mode = .programmer)
  (hdigit : ∀ c, ρ.grammar.isDigit c = isUpperDigit c)

/-! ## the mantissa -/

theorem exponentStarts_of_upperDigit {mode : Mode} {c : Char} {cs : List Char}
    (hc : isUpperDigit c = true) (hs : Stops isSign cs) :
    exponentStarts mode (c :: cs) = false := by
  have hmarker : mode.markers.contains c = false := by
    have hall : upperDigits.all (fun d => !mode.markers.contains d) = true := by
      cases mode <;> decide
    exact (Bool.not_eq_true' _).mp (of_all_upperDigits hall hc)
  cases cs with
  | nil => exact hmarker
  | cons d cs =>
    show (mode.markers.contains c || (mode.signedMarkers.contains c && isSign d)) = false
    rw [hmarker, hs d rfl, Bool.and_false, Bool.or_false]

theorem exponentStarts_of_marker {mode : Mode} {c : Char} (h : c ∈ mode.markers) (cs : List Char) :
    exponentStarts mode (c :: cs) = true := by
  have hmarker : mode.markers.contains c = true := List.contains_iff_mem.mpr h
  cases cs with
  | nil => exact hmarker
  | cons d cs =>
    show (mode.markers.contains c || _) = true
    rw [hmarker, Bool.true_or]

theorem stops_isSign_append {m rest : List Char} (hm : ∀ c ∈ m, isUpperDigit c = true)
    (hr : Stops isSign rest) : Stops isSign (m ++ rest) := by
  cases m with
  | nil => exact hr
  | cons c m =>
    have hall : upperDigits.all (fun d => !isSign d) = true := by decide
    exact stops_cons ((Bool.not_eq_true' _).mp (of_all_upperDigits hall (hm c List.mem_cons_self)))

theorem takeSign_signed {sign digits : List Char} (hsign : sign ∈ [[], ['+'], ['-']])
    (hdigits : ∀ c ∈ digits, isUpperDigit c = true) (rest : List Char) (hrest : Stops isSign rest) :
    takeSign (sign ++ (digits ++ rest)) = (sign, digits ++ rest) := by
  simp only [List.mem_cons, List.not_mem_nil, or_false] at hsign
  rcases hsign with rfl | rfl | rfl
  · show takeSign (digits ++ rest) = ([], digits ++ rest)
    exact takeSign_of_ne (stops_isSign_append hdigits hrest)
  · rfl
  · rfl

/-- digits go into a mantissa, unless a sign behind them makes the last one a marker -/
theorem mantissaTail_digits_append
    (hupper : ∀ c, ρ.grammar.isDigit c = true → isUpperDigit c = true) (seenPoint : Bool)
    {ds rest : List Char} (hds : ∀ c ∈ ds, ρ.grammar.isDigit c = true) (hs : Stops isSign rest) :
    ρ.mantissaTail seenPoint (ds ++ rest) = ds ++ ρ.mantissaTail seenPoint rest := by
  induction ds with
  | nil => rfl
  | cons c ds ih =>
    obtain ⟨hc, hds⟩ := List.forall_mem_cons.mp hds
    have hstart : exponentStarts ρ.mode (c :: (ds ++ rest)) = false :=
      exponentStarts_of_upperDigit (hupper c hc)
        (stops_isSign_append (fun d hd => hupper d (hds d hd)) hs)
    rw [List.cons_append, mantissaTail, hstart, if_neg Bool.false_ne_true, if_pos hc, ih hds,
      List.cons_append]

theorem mantissaTail_point (hupper : ∀ c, ρ.grammar.isDigit c = true → isUpperDigit c = true)
    (rest : List Char) :
    ρ.mantissaTail false ('.' :: rest) = '.' :: ρ.mantissaTail true rest := by
  have hstart : exponentStarts ρ.mode ('.' :: rest) = false := by
    cases ρ.mode <;> cases rest <;> rfl
  have hdigit : ρ.grammar.isDigit '.' = false := by
    refine Bool.eq_false_iff.mpr fun hd => ?_
    exact absurd (hupper '.' hd) (by decide)
  rw [mantissaTail, hstart, hdigit]
  rfl

include hdigit

theorem mantissaTail_append (seenPoint : Bool) {m rest : List Char}
    (hm : ∀ c ∈ m, isUpperDigit c = true) (hd : Stops isUpperDigit rest)
    (hp : Stops (· == '.') rest) (hs : Stops isSign rest) :
    ρ.mantissaTail seenPoint (m ++ rest) = m := by
  have hnone : ρ.mantissaTail seenPoint rest = [] := by
    cases rest with
    | nil => rfl
    | cons c cs =>
      rw [mantissaTail, hdigit, hd c rfl]
      have hc : (c = '.') = False := by simpa using hp c rfl
      simp only [hc, decide_false, Bool.false_and, Bool.false_eq_true, if_false, ite_self]
  rw [mantissaTail_digits_append (fun c hc => by rw [← hdigit]; exact hc) seenPoint
    (fun c hc => by rw [hdigit]; exact hm c hc) hs, hnone, List.append_nil]

theorem mantissa_scan {l : Literal} {c : Char} {m : List Char} {r : Radix} {ds : List Nat}
    (hl : l.Fits) (hi : l.integer = c :: m) (hr : suffixRadix ρ.radix l.radix = .ok r)
    (hds : digitsOf r.val l.integer = .ok ds) :
    ∃ m' ds', ρ.mantissa c (m ++ (Literal.writeSuffix l.radix ++ Literal.writeExponent l.exponent))
        = (.ok m', Literal.writeExponent l.exponent) ∧
      m' ≠ [] ∧ (∀ c ∈ m', isUpperDigit c = true) ∧ digitsOf ρ.radix.val m' = .ok ds' ∧
      number ρ.radix.val ds' = number r.val ds := by
  have hup : ∀ d ∈ c :: m, isUpperDigit d = true := hi ▸ hl.integer
  have hstops : ∀ p : Char → Bool, p 'e' = false → p 'p' = false → p '_' = false →
      Stops p (Literal.writeSuffix l.radix ++ Literal.writeExponent l.exponent) :=
    fun p he hp hu => Literal.stops_writeSuffix _ hu (Literal.stops_writeExponent _ he hp)
  have htail : ρ.mantissaTail false
      (m ++ (Literal.writeSuffix l.radix ++ Literal.writeExponent l.exponent)) = m :=
    mantissaTail_append hdigit false (fun d hd => hup d (List.mem_cons_of_mem _ hd))
      (hstops _ (by decide) (by decide) (by decide)) (hstops _ (by decide) (by decide) (by decide))
      (hstops _ (by decide) (by decide) (by decide))
  have hsuffix : takeSuffix (Literal.writeSuffix l.radix ++ Literal.writeExponent l.exponent)
      = (l.radix, Literal.writeExponent l.exponent) :=
    takeSuffix_append hl.radix (Literal.stops_writeExponent _ (by decide) (by decide))
      (Literal.stops_writeExponent _ (by decide) (by decide))
  have hpoint : '.' ∉ l.integer := fun hmem => absurd (hl.integer _ hmem) (by decide)
  unfold mantissa
  simp only [htail, List.drop_left, hsuffix, map_toUpper hup]
  cases hrad : l.radix with
  | none =>
    rw [hrad] at hr
    cases hr
    exact ⟨c :: m, ds, rfl, List.cons_ne_nil _ _, hup, hi ▸ hds, rfl⟩
  | some suffix =>
    rw [hrad] at hr
    have hparse : Radix.parse suffix = .ok r := hr
    have hlt := ρ.radix.digits_lt (number r.val ds)
    refine ⟨ρ.radix.write (number r.val ds), ρ.radix.digits (number r.val ds), ?_,
      ρ.radix.write_ne_nil _, isUpperDigit_map_digitChar hlt,
      digitsOf_map_digitChar ρ.radix.le_max _ hlt, ρ.radix.number_digits _⟩
    simp only [hparse]
    show (rebase r ρ.radix (c :: m), _) = _
    rw [← hi, rebase_integer ρ.radix hpoint hds]

theorem exponent_scan {x : ExponentPart} {y : Exponent} (hx : x.Fits)
    (hy : x.read ρ.radix = .ok y) :
    ∃ x' : ExponentPart, ρ.exponent x.marker.char (x.digits ++ Literal.writeSuffix x.radix)
        = (.ok (Literal.writeExponent (some x')), []) ∧
      x'.radix = none ∧ x'.Fits ∧ x'.read ρ.radix = .ok y := by
  obtain ⟨r, hr, h⟩ := bind_eq_ok.mp hy
  obtain ⟨v, hv, h⟩ := bind_eq_ok.mp h
  cases h
  have hfun : ρ.grammar.isDigit = isUpperDigit := funext hdigit
  have hstops : ∀ p : Char → Bool, p '_' = false → Stops p (Literal.writeSuffix x.radix) := by
    intro p hp
    have := Literal.stops_writeSuffix x.radix hp (stops_nil p)
    rwa [List.append_nil] at this
  have hsign := takeSign_append_right x.digits (hstops isSign (by decide))
  obtain ⟨htake, hdrop⟩ := takeWhile_append_stops hx.digits (hstops isUpperDigit (by decide))
  have hsuffix : takeSuffix (Literal.writeSuffix x.radix) = (x.radix, []) := by
    have := takeSuffix_append hx.radix (stops_nil _) (stops_nil _)
    rwa [List.append_nil] at this
  -- an exponent that can be read has digits
  have hne : (takeSign x.digits).2 ≠ [] := by
    intro e
    unfold Radix.readExponent at hv
    rw [signed_eq, e] at hv
    cases hv
  have hlower : x.marker.char.toLower = x.marker.char := by
    cases x.marker <;> decide
  unfold exponent
  simp only [hsign, hfun, htake, hdrop, hsuffix, map_toUpper hx.digits, takeSign_append, hlower]
  rw [if_neg (by simpa using hne)]
  cases hrad : x.radix with
  | none =>
    rw [hrad] at hr
    cases hr
    refine ⟨x, ?_, hrad, hx, hy⟩
    rw [Literal.writeExponent, hrad, Literal.writeSuffix, List.append_nil]
  | some suffix =>
    rw [hrad] at hr
    have hparse : Radix.parse suffix = .ok r := hr
    have hbound := Radix.readExponent_natAbs_lt hv
    refine ⟨⟨x.marker, ρ.radix.writeExponent v, none⟩, ?_, rfl,
      ⟨?_, fun ds hds => by cases hds⟩, ?_⟩
    · simp only [hparse]
      show (r.readExponent x.digits >>= _, _) = _
      rw [hv, Literal.writeExponent, Literal.writeSuffix, List.append_nil]
      rfl
    · show ∀ c ∈ (takeSign (ρ.radix.writeExponent v)).2, _
      rw [takeSign_writeExponent]
      exact isUpperDigit_map_digitChar (ρ.radix.digits_lt _)
    · show (ρ.radix.readExponent (ρ.radix.writeExponent v) >>= _) = _
      rw [ρ.radix.readExponent_writeExponent hbound]
      rfl

include hmode

/-- the lexeme of a literal without a point: another literal, without suffixes, that denotes the
same digits in number with the same exponent -/
theorem numeral_scan {l : Literal} {n : Numeral} {c : Char} {cs : List Char} (hl : l.Fits)
    (hf : l.fraction = none) (hn : Numeral.ofLiteral ρ.radix l = .ok n)
    (htext : l.write = c :: cs) :
    ∃ l' : Literal, ρ.numeral c cs = (.ok l'.write, []) ∧ l'.Fits ∧
      ∃ ds ds' : List Nat,
        digitsOf n.radix.val n.integer = .ok ds ∧ digitsOf ρ.radix.val l'.integer = .ok ds' ∧
        number ρ.radix.val ds' = number n.radix.val ds ∧ n.fraction = [] ∧
        Numeral.ofLiteral ρ.radix l' = .ok ⟨l'.integer, [], ρ.radix, n.exponent⟩ := by
  obtain ⟨hne, r, ds, y, hr, hds, hy, rfl⟩ := Numeral.ofLiteral_eq_ok.mp hn
  rw [hf, Option.getD_none] at hne hds
  rw [List.append_nil] at hds
  obtain ⟨d, m, hi⟩ : ∃ d m, l.integer = d :: m :=
    List.exists_cons_of_ne_nil fun e => hne ⟨e, rfl⟩
  have hcs : d = c ∧
      m ++ (Literal.writeSuffix l.radix ++ Literal.writeExponent l.exponent) = cs := by
    unfold Literal.write at htext
    rw [hi, hf, Literal.writeFraction, List.append_nil, List.append_assoc] at htext
    exact List.cons.inj htext
  obtain ⟨rfl, rfl⟩ := hcs
  obtain ⟨m', ds', hm, hm0, hmup, hds', hnum⟩ := mantissa_scan hdigit hl hi hr hds
  -- what is left to show of the lexeme `l'` once its exponent is known
  have hread : ∀ x' : Option ExponentPart, Numeral.readExponent ρ.radix x' = .ok y →
      Numeral.ofLiteral ρ.radix ⟨m', none, none, x'⟩ = .ok ⟨m', [], ρ.radix, y⟩ := by
    intro x' hx'
    refine Numeral.ofLiteral_eq_ok.mpr ⟨fun e => hm0 e.1, ρ.radix, ds', y, rfl, ?_, hx', rfl⟩
    rw [Option.getD_none, List.append_nil]
    exact hds'
  have hnil : ∀ ds ∈ (none : Option (List Char)), ∀ c ∈ ds, isUpperDigit c = true :=
    fun ds hds => by cases hds
  have hnil' : ∀ ds ∈ (none : Option (List Char)), ∀ c ∈ ds, c.isDigit = true :=
    fun ds hds => by cases hds
  unfold numeral
  rw [hm]
  cases hx : l.exponent with
  | none =>
    rw [hx] at hy
    cases hy
    refine ⟨⟨m', none, none, none⟩, ?_, ⟨hmup, hnil, hnil', fun x hx => by cases hx⟩, ds, ds', hds,
      hds', hnum, by rw [hf]; rfl, hread none rfl⟩
    simp only [Literal.writeExponent, Literal.write, Literal.writeFraction, Literal.writeSuffix,
      List.append_nil]
  | some x =>
    rw [hx] at hy
    obtain ⟨y', hy', hy⟩ := bind_eq_ok.mp hy
    cases hy
    obtain ⟨x', hscan, hrad, hfit, hread'⟩ := exponent_scan hdigit (hl.exponent x hx) hy'
    have hstart : exponentStarts ρ.mode
        (x.marker.char :: (x.digits ++ Literal.writeSuffix x.radix)) = true := by
      refine exponentStarts_of_marker ?_ _
      rw [hmode]
      cases x.marker <;> decide
    refine ⟨⟨m', none, none, some x'⟩, ?_, ⟨hmup, hnil, hnil', ?_⟩, ds, ds', hds, hds', hnum,
      by rw [hf]; rfl, hread (some x') ?_⟩
    · simp only [Literal.writeExponent] at hscan ⊢
      rw [if_pos hstart, hscan]
      simp only [Literal.write, Literal.writeFraction, Literal.writeSuffix, Literal.writeExponent,
        List.append_nil]
    · intro z hz
      cases hz
      exact hfit
    · show (x'.read ρ.radix >>= _) = _
      rw [hread']
      rfl

end

end Rules
end Calculator
