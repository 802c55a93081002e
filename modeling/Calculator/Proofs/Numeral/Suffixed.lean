import Calculator.Proofs.Numeral.Format
import Calculator.Proofs.Numeral.Rounding
import Calculator.Proofs.Token.Seams

/-!
# Literals with a radix of their own

A literal that says its radix is read by the lexer as one word, and each part of the word is what
the functions on numerals make of that part alone: the mantissa is converted, the number of the
exponent is read in one radix and written in another.  Among the digits of programmer mode are the
letters `E` and `P`, and inside a literal no sign stands behind them, so none of them starts an
exponent.  A suffix ends where its decimal digits end, and what stands behind the literal has only
to keep clear of that.

* `Literal.Suffixed w r q`     the mantissa in radix `r` and the exponent in radix `q`, both with
                               their suffix;
* `rebaseExponent`             an exponent part in another radix;
* `Rules.mantissa_suffixed`, `Rules.exponent_suffixed`, `Rules.numeral_suffixed`   the parts of the
                               lexeme before any rest;
* `suffixed_literal_rebased`   the first pull from a source that starts with such a literal.
-/

namespace Calculator

/-- digits of `r`, at least one of them before a point, and a suffix that spells `r`; the exponent,
if there is one, is spelled in `q` and has a suffix that spells `q` -/
structure Literal.Suffixed (w : Literal) (r q : Radix) : Prop where
  integer : w.integer ≠ []
  digits : ∀ c ∈ w.integer ++ w.fraction.getD [], isUpperDigit c = true ∧ digitNumber c < r.val
  radix : ∃ suffix, w.radix = some suffix ∧ r.Spelled suffix
  exponent : ∀ x ∈ w.exponent, (∃ v, q.SpelledExponent x.digits v) ∧
    ∃ suffix, x.radix = some suffix ∧ q.Spelled suffix

namespace Literal.Suffixed

variable {w : Literal} {r q : Radix} (h : w.Suffixed r q)
include h

theorem upper : ∀ c ∈ w.integer, isUpperDigit c = true :=
  fun c hc => (h.digits c (List.mem_append_left _ hc)).1

theorem upper_fraction : ∀ fs ∈ w.fraction, ∀ c ∈ fs, isUpperDigit c = true :=
  forall_mem_getD.mp fun c hc => (h.digits c (List.mem_append_right _ hc)).1

theorem valid : ∀ c ∈ w.integer ++ w.fraction.getD [], ∃ d, digitValue c r.val = .ok d := by
  intro c hc
  obtain ⟨hup, hbelow⟩ := h.digits c hc
  exact (digitNumber_lt_iff hup).mp hbelow

end Literal.Suffixed

/-- an exponent part with its number read in one radix and written in another, nothing for none -/
def rebaseExponent (old new : Nat) : Option ExponentPart → Except Fault (List Char)
  | none => .ok []
  | some x => do
    let value ← parseExponent x.digits old
    let written ← formatExponent value new
    return x.marker.char :: written

theorem rebaseExponent_spelled {q : Radix} {x : ExponentPart} {v : Int}
    (h : q.SpelledExponent x.digits v) (new : Radix) :
    rebaseExponent q.val new.val (some x) = .ok (x.marker.char :: new.writeExponent v) := by
  have hparse : parseExponent x.digits q.val = .ok v := by
    unfold parseExponent
    rw [q.ofNat_val]
    exact h.read
  have hformat : formatExponent v new.val = .ok (new.writeExponent v) := by
    unfold formatExponent
    rw [new.ofNat_val]
    rfl
  show (parseExponent x.digits q.val >>= _) = _
  rw [hparse]
  show (formatExponent v new.val >>= _) = _
  rw [hformat]
  rfl

namespace Rules

variable {ρ : Rules} (hdigit : ∀ c, ρ.grammar.isDigit c = isUpperDigit c)
include hdigit

/-! ## the mantissa -/

theorem mantissaTail_point_append {m : List Char} {f : Option (List Char)} {rest : List Char}
    (hm : ∀ c ∈ m, isUpperDigit c = true) (hf : ∀ fs ∈ f, ∀ c ∈ fs, isUpperDigit c = true)
    (hd : Stops isUpperDigit rest) (hp : Stops (· == '.') rest) (hs : Stops isSign rest) :
    ρ.mantissaTail false (m ++ Literal.writeFraction f ++ rest) = m ++ Literal.writeFraction f := by
  cases f with
  | none =>
    show ρ.mantissaTail false (m ++ [] ++ rest) = m ++ []
    rw [List.append_nil]
    exact mantissaTail_append hdigit false hm hd hp hs
  | some fs =>
    have hupper : ∀ c, ρ.grammar.isDigit c = true → isUpperDigit c = true :=
      fun c hc => (hdigit c).symm.trans hc
    show ρ.mantissaTail false (m ++ '.' :: fs ++ rest) = m ++ '.' :: fs
    rw [List.append_assoc, List.cons_append,
      mantissaTail_digits_append hupper false (fun c hc => (hdigit c).trans (hm c hc))
        (stops_cons rfl),
      mantissaTail_point hupper, mantissaTail_append hdigit true (hf fs rfl) hd hp hs]

theorem mantissa_suffixed {r : Radix} {c : Char} {m : List Char} {f : Option (List Char)}
    {suffix rest : List Char} (hm : ∀ d ∈ c :: m, isUpperDigit d = true)
    (hf : ∀ fs ∈ f, ∀ d ∈ fs, isUpperDigit d = true) (hr : r.Spelled suffix)
    (hrest : Stops Char.isDigit rest) :
    ρ.mantissa c (m ++ Literal.writeFraction f ++ '_' :: (suffix ++ rest))
      = (rebase r ρ.radix (c :: m ++ Literal.writeFraction f), rest) := by
  have hstops : ∀ p : Char → Bool, p '_' = false → Stops p ('_' :: (suffix ++ rest)) :=
    fun p hp => stops_cons hp
  have htail := mantissaTail_point_append hdigit (List.forall_mem_cons.mp hm).2 hf
    (hstops _ (by decide)) (hstops _ (by decide)) (hstops _ (by decide))
  rw [mantissa_eq htail rfl, takeSuffix_digits_append hr.decimal hrest, ← List.cons_append,
    map_toUpper_mantissa hm hf]
  show (Radix.parse suffix >>= _, rest) = _
  rw [Radix.parse_eq_ok_iff.mpr hr]
  rfl

/-! ## the exponent -/

theorem exponent_suffixed {q : Radix} {marker : Marker} {digits suffix rest : List Char} {v : Int}
    (hv : q.SpelledExponent digits v) (hq : q.Spelled suffix) (hrest : Stops Char.isDigit rest) :
    ρ.exponent marker.char (digits ++ '_' :: (suffix ++ rest))
      = (.ok (marker.char :: ρ.radix.writeExponent v), rest) := by
  have hread := hv.read
  have hlower : marker.char.toLower = marker.char := by
    cases marker <;> decide
  obtain ⟨sign, ds, rfl, hsign, hne, hds, -⟩ := hv
  have hupper : ∀ c ∈ ds, isUpperDigit c = true := fun c hc => (hds c hc).1
  have htake := takeSign_signed hsign hupper ('_' :: (suffix ++ rest)) (stops_cons (by decide))
  have hstop : Stops ρ.grammar.isDigit ('_' :: (suffix ++ rest)) :=
    stops_cons ((hdigit '_').trans (by decide))
  rw [List.append_assoc, exponent_eq marker.char htake
      (fun c hc => (hdigit c).trans (hupper c hc)) hstop,
    if_neg (fun e => hne (List.isEmpty_iff.mp e)), takeSuffix_digits_append hq.decimal hrest,
    map_toUpper hupper, hlower]
  show (Radix.parse suffix >>= _, rest) = _
  rw [Radix.parse_eq_ok_iff.mpr hq]
  show (q.readExponent (sign ++ ds) >>= _, rest) = _
  rw [hread]
  rfl

/-! ## the whole literal -/

/-- the lexeme of a literal with suffixes, before any rest that keeps clear of it -/
theorem numeral_suffixed (hmode : ρ.mode = .programmer) {w : Literal} {r q : Radix}
    (hw : w.Suffixed r q) {c : Char} {cs rest : List Char} (htext : c :: cs = w.write ++ rest)
    (hrest : Stops Char.isDigit rest)
    (hstart : w.exponent = none → exponentStarts .programmer rest = false) :
    ∃ m e, convert (w.integer ++ Literal.writeFraction w.fraction) r.val ρ.radix.val = .ok m ∧
      rebaseExponent q.val ρ.radix.val w.exponent = .ok e ∧
      ρ.numeral c cs = (.ok (m ++ e), rest) := by
  obtain ⟨suffix, hsuffix, hr⟩ := hw.radix
  obtain ⟨d, ds, hi⟩ := List.exists_cons_of_ne_nil hw.integer
  obtain ⟨rfl, rfl⟩ : c = d ∧ cs = ds ++ Literal.writeFraction w.fraction
      ++ '_' :: (suffix ++ (Literal.writeExponent w.exponent ++ rest)) := by
    unfold Literal.write at htext
    rw [hi, hsuffix, Literal.writeSuffix] at htext
    simp only [List.append_assoc, List.cons_append] at htext ⊢
    exact List.cons.inj htext
  obtain ⟨m, hconvert⟩ : ∃ m,
      convert (w.integer ++ Literal.writeFraction w.fraction) r.val ρ.radix.val = .ok m :=
    ⟨_, convert_text r ρ.radix hw.valid⟩
  have hbehind : Stops Char.isDigit (Literal.writeExponent w.exponent ++ rest) := by
    cases w.exponent with
    | none => exact hrest
    | some x =>
      refine stops_cons ?_
      cases x.marker <;> decide
  have hm := mantissa_suffixed hdigit (hi ▸ hw.upper) hw.upper_fraction hr hbehind
  rw [← hi, ← convert_val, hconvert] at hm
  cases hx : w.exponent with
  | none =>
    rw [hx] at hm
    refine ⟨m, [], hconvert, rfl, ?_⟩
    rw [List.append_nil]
    refine numeral_of_mantissa hm ?_
    rw [hmode]
    exact hstart hx
  | some x =>
    obtain ⟨⟨v, hv⟩, suffix', hsuffix', hq⟩ := hw.exponent x hx
    have hexponent : Literal.writeExponent (some x) ++ rest
        = x.marker.char :: (x.digits ++ '_' :: (suffix' ++ rest)) := by
      simp only [Literal.writeExponent, hsuffix', Literal.writeSuffix, List.cons_append,
        List.append_assoc]
    have hmarker : x.marker.char ∈ ρ.mode.markers := by
      rw [hmode]
      cases x.marker <;> decide
    rw [hx, hexponent] at hm
    refine ⟨m, _, hconvert, rebaseExponent_spelled hv ρ.radix, ?_⟩
    rw [hexponent, numeral_of_exponent hm (exponentStarts_of_marker hmarker _),
      exponent_suffixed hdigit hv hq hrest]
    rfl

end Rules

theorem Lexer.next_suffixed {l : Lexer} (h₀ : l.cursor = 0) (hmode : l.rules.mode = .programmer)
    (hg : l.rules.grammar.UpperDigits) (hword : l.rules.nameKind = Kind.word) {w : Literal}
    {r q : Radix} {rest : List Char} (hsource : l.source = w.write ++ rest) (hw : w.Suffixed r q)
    (hrest : Stops Char.isDigit rest)
    (hstart : w.exponent = none → exponentStarts .programmer rest = false) :
    ∃ m e, convert (w.integer ++ Literal.writeFraction w.fraction) r.val l.rules.radix.val = .ok m ∧
      rebaseExponent q.val l.rules.radix.val w.exponent = .ok e ∧
      l.next = (.ok ⟨Kind.word, m ++ e, 0⟩, { l with cursor := w.write.length }) := by
  obtain ⟨c, i, hi⟩ := List.exists_cons_of_ne_nil hw.integer
  have hc : isUpperDigit c = true := hw.upper c (by rw [hi]; exact List.mem_cons_self)
  obtain ⟨cs, htext⟩ : ∃ cs, w.write ++ rest = c :: cs := by
    unfold Literal.write
    rw [hi]
    exact ⟨_, rfl⟩
  obtain ⟨m, e, hconvert, hexponent, hnumeral⟩ :=
    Rules.numeral_suffixed hg.isDigit_eq hmode hw htext.symm hrest hstart
  refine ⟨m, e, hconvert, hexponent, ?_⟩
  refine next_at_start h₀ (hsource.trans htext) htext.symm (hg.not_other hc).1 ?_
  rw [Rules.scan_upperDigit hmode hg hc]
  unfold Rules.scanNumeral
  rw [hnumeral, hword]

/-- **A literal with suffixes is re-expressed as its parts are.**  In programmer mode, with any
radix of the lexer, take a source that starts with a literal whose mantissa has a suffix and whose
exponent, if there is one, has one too; behind the literal stands any text that does not go on the
last suffix and, if there is no exponent, is not the start of one.  The first pull gives a word at
the start: the mantissa as it is converted to the radix of the lexer and, for an exponent, its
marker and its number as it is written in that radix.  The lexer then stands right behind the
literal. -/
theorem suffixed_literal_rebased (g : Grammar) (config : Config) (text : List Char) (l : Lexer)
    (w : Literal) (r q : Radix) (rest : List Char) (hg : Mode.programmer.grammar = .ok g)
    (hl : Lexer.new g .programmer config text = .ok l) (hsource : l.source = w.write ++ rest)
    (hw : w.Suffixed r q) (hrest : Stops Char.isDigit rest)
    (hstart : w.exponent = none → exponentStarts .programmer rest = false) :
    ∃ m e, convert (w.integer ++ Literal.writeFraction w.fraction) r.val config.radix = .ok m ∧
      rebaseExponent q.val config.radix w.exponent = .ok e ∧
      l.next = (.ok ⟨Kind.word, m ++ e, 0⟩, { l with cursor := w.write.length }) := by
  obtain rfl : Mode.programmer.language = g :=
    Except.ok.inj (Mode.programmer.grammar_eq.symm.trans hg)
  obtain ⟨d, source, hd, -, hnew⟩ := (Mode.programmer.new_eq_ok_iff _ _ _).mp hl
  have h₀ : l.cursor = 0 := by rw [hnew]
  have hrules : l.rules = Mode.programmer.rules d := by rw [hnew]
  have hmode : l.rules.mode = .programmer := by rw [hrules]; rfl
  have hword : l.rules.nameKind = Kind.word := by rw [hrules]; rfl
  have hupper : l.rules.grammar.UpperDigits := by
    rw [hrules, Mode.rules_grammar]
    exact Mode.programmer_upperDigits
  have hradix : l.rules.radix.val = config.radix := by
    rw [hrules]
    exact Radix.ofNat_eq_ok_iff.mp hd
  rw [← hradix]
  exact Lexer.next_suffixed h₀ hmode hupper hword hsource hw hrest hstart

/-- digits that look like markers, zeros at both ends, an exponent in a radix of its own, and behind
it what would start another exponent -/
def suffixedLiteral : Literal :=
  ⟨['0', 'E'], some ['E', '0'], some ['1', '6'],
    some ⟨.binary, ['-', 'Z', 'Z'], some ['0', '3', '6']⟩⟩

theorem suffixedLiteral_rebased :
    suffixedLiteral.write ++ "E+1".toList = "0E.E0_16p-ZZ_036E+1".toList ∧
    suffixedLiteral.Suffixed sixteen thirtySix ∧
    Lexer.new Mode.programmer.language .programmer ⟨0, none, 16⟩ "0E.E0_16p-ZZ_036E+1".toList
      = .ok ⟨Mode.programmer.rules sixteen, "0E.E0_16p-ZZ_036E+1".toList, 0⟩ ∧
    Lexer.next ⟨Mode.programmer.rules sixteen, "0E.E0_16p-ZZ_036E+1".toList, 0⟩
      = (.ok ⟨Kind.word, "E.Ep-50F".toList, 0⟩,
          ⟨Mode.programmer.rules sixteen, "0E.E0_16p-ZZ_036E+1".toList, 16⟩) := by
  have hwrite : suffixedLiteral.write ++ "E+1".toList = "0E.E0_16p-ZZ_036E+1".toList := by decide
  have hdigits : (['0', 'E', 'E', '0'].all fun c => isUpperDigit c && digitNumber c < sixteen.val)
      = true := by decide
  have hexponent : (['Z', 'Z'].all fun c => isUpperDigit c && digitNumber c < thirtySix.val)
      = true := by decide
  simp only [List.all_eq_true, Bool.and_eq_true, decide_eq_true_eq] at hdigits hexponent
  have hradix : sixteen.Spelled ['1', '6'] :=
    ⟨List.cons_ne_nil _ _, List.all_eq_true.mp (by decide), by decide⟩
  have hradix' : thirtySix.Spelled ['0', '3', '6'] :=
    ⟨List.cons_ne_nil _ _, List.all_eq_true.mp (by decide), by decide⟩
  have hw : suffixedLiteral.Suffixed sixteen thirtySix := by
    refine ⟨List.cons_ne_nil _ _, hdigits, ⟨_, rfl, hradix⟩, fun x hx => ?_⟩
    cases hx
    exact ⟨⟨-1295, ['-'], ['Z', 'Z'], rfl, by decide, List.cons_ne_nil _ _, hexponent, by decide,
      by decide⟩, _, rfl, hradix'⟩
  have hl : Lexer.new Mode.programmer.language .programmer ⟨0, none, 16⟩
      "0E.E0_16p-ZZ_036E+1".toList
        = .ok ⟨Mode.programmer.rules sixteen, "0E.E0_16p-ZZ_036E+1".toList, 0⟩ :=
    (Mode.new_eq_ok_iff _ _ _ _).mpr ⟨sixteen, _, rfl, Config.select_whole 16 _, rfl⟩
  have hconvert : convert "0E.E0".toList 16 16 = .ok "E.E".toList := by decide +kernel
  have hrebase : rebaseExponent 36 16 suffixedLiteral.exponent = .ok "p-50F".toList := by
    decide +kernel
  obtain ⟨m, e, hm, he, hnext⟩ := suffixed_literal_rebased _ _ _ _ _ _ _ _
    (Mode.grammar_eq .programmer) hl hwrite.symm hw (stops_cons (by decide)) (fun h => by cases h)
  obtain rfl : m = "E.E".toList := Except.ok.inj (hm.symm.trans hconvert)
  obtain rfl : e = "p-50F".toList := Except.ok.inj (he.symm.trans hrebase)
  exact ⟨hwrite, hw, hl, hnext⟩

end Calculator
