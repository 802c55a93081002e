import Calculator.Proofs.Climb.Blanks
import Calculator.Proofs.Climb.Bounded
import Calculator.Proofs.Grammar.Registry
import Calculator.Proofs.Numeral.Canonical
import Calculator.Proofs.Numeral.Readable
import Calculator.Proofs.Token.Runs

/-!
# Lexemes are a normal form

Read by itself the lexeme of a token is that token again.  For symbols and names the lexeme is what
was read; the lexeme of a numeral is rewritten, with parts in the radix of the lexer, but as soon as
the digits of that radix are digits of the grammar it is a numeral without suffixes, in upper case
with its marker in lower case, and such a numeral is its own lexeme.  Blanks are separators, so the
lexemes of a run with a blank between any two give the same run.

* `Rules.WritesDigits`         the digits that a lexer writes start numerals;
* `Rules.mantissa_normal`, `Rules.exponent_normal`, `Rules.numeral_normal`   the lexeme of a numeral
                               transcribes itself;
* `Rules.mantissa_back`, `Rules.exponent_back`, `Rules.numeral_back`   a numeral without suffixes is
                               read whole;
* `Rules.scan_again`           a lexeme is one piece of its own kind;
* `Rules.run_joined`           a run over lexemes with blanks between them;
* `lexemes_normal_form`        lexing and parsing the lexemes of a source.
-/

namespace Calculator

namespace Rules

/-- digits are in upper case and start numerals, and the radix of the lexer is written with them -/
structure WritesDigits (ρ : Rules) : Prop where
  upper : ∀ c, ρ.grammar.isDigit c = true → isUpperDigit c = true
  reading : ∀ c, ρ.grammar.isDigit c = true → ρ.reading c = .numeral
  blank : ∀ c, ρ.grammar.isDigit c = true → ρ.grammar.isWhitespace c = false
  written : ∀ d, d < ρ.radix.val → ρ.grammar.isDigit (digitChar d) = true

variable {ρ : Rules}

theorem Mantissa.exists_cons {m : List Char} (h : ρ.Mantissa m) :
    ∃ d tail, m = d :: tail ∧ ρ.grammar.isDigit d = true := by
  obtain ⟨ds, fs, hne, hall, hm⟩ := h
  obtain ⟨d, ds, rfl⟩ := List.exists_cons_of_ne_nil hne
  have hd := hall d List.mem_cons_self
  rcases hm with rfl | rfl
  · exact ⟨d, ds, rfl, hd⟩
  · exact ⟨d, _, rfl, hd⟩

theorem Transcribes.exists_cons {text lexeme : List Char} (h : ρ.Transcribes text lexeme) :
    ∃ d tail, text = d :: tail ∧ ρ.grammar.isDigit d = true := by
  cases h with
  | plain hm => exact hm.exists_cons
  | scaled hm =>
    obtain ⟨d, tail, rfl, hd⟩ := hm.exists_cons
    exact ⟨d, _, rfl, hd⟩

variable (hρ : ρ.WritesDigits)
include hρ

/-! ## lexemes of numerals -/

theorem Mantissa.map_toUpper {m : List Char} (h : ρ.Mantissa m) : m.map Char.toUpper = m := by
  obtain ⟨ds, fs, -, hall, rfl | rfl⟩ := h
  · exact Calculator.map_toUpper fun c hc => hρ.upper c (hall c (List.mem_append_left _ hc))
  · rw [List.map_append, List.map_cons,
      Calculator.map_toUpper fun c hc => hρ.upper c (hall c (List.mem_append_left _ hc)),
      Calculator.map_toUpper fun c hc => hρ.upper c (hall c (List.mem_append_right _ hc))]
    rfl

theorem isDigit_of_below {cs : List Char} {ds : List Nat} (hup : ∀ c ∈ cs, isUpperDigit c = true)
    (hds : digitsOf ρ.radix.val cs = .ok ds) : ∀ c ∈ cs, ρ.grammar.isDigit c = true := by
  intro c hc
  obtain ⟨rfl, hlt⟩ := digitsOf_ok hds
  rw [← Radix.digitChar_digitNumber (hup c hc)]
  exact hρ.written _ (hlt _ (List.mem_map_of_mem hc))

theorem mantissa_normal {c : Char} {cs m rest : List Char} (hc : ρ.grammar.isDigit c = true)
    (h : ρ.mantissa c cs = (.ok m, rest)) : ρ.Mantissa m := by
  obtain ⟨behind, hbehind⟩ := ρ.mantissaTail_prefix false cs
  rw [mantissa_eq rfl hbehind] at h
  split at h
  · cases h
    have hm := ρ.mantissa_of_tail hc cs
    rw [hm.map_toUpper hρ]
    exact hm
  · obtain ⟨hm, -⟩ := Prod.mk.inj h
    obtain ⟨old, -, hm⟩ := bind_eq_ok.mp hm
    obtain ⟨i, f, rfl, hne, hup, ds, hds⟩ := rebase_eq_ok hm
    have hall := isDigit_of_below hρ hup hds
    cases f with
    | none => exact ⟨i, [], hne, hall, Or.inl (List.append_nil i)⟩
    | some fs => exact ⟨i, fs, hne, hall, Or.inr rfl⟩

theorem exponent_normal {marker : Char} {cs x rest : List Char}
    (h : ρ.exponent marker cs = (.ok x, rest)) :
    ∃ sign ds, x = marker.toLower :: (sign ++ ds) ∧ sign ∈ [[], ['+'], ['-']] ∧ ds ≠ [] ∧
      ∀ c ∈ ds, ρ.grammar.isDigit c = true := by
  have hall : ∀ c ∈ (takeSign cs).2.takeWhile ρ.grammar.isDigit, ρ.grammar.isDigit c = true :=
    all_takeWhile
  simp only [exponent] at h
  split at h
  · cases h
  · rename_i hne
    split at h
    · cases h
      rw [Calculator.map_toUpper fun c hc => hρ.upper c (hall c hc)]
      exact ⟨_, _, rfl, takeSign_mem cs, fun e => hne (List.isEmpty_iff.mpr e), hall⟩
    · obtain ⟨hx, -⟩ := Prod.mk.inj h
      obtain ⟨old, -, hx⟩ := bind_eq_ok.mp hx
      obtain ⟨v, -, hx⟩ := bind_eq_ok.mp hx
      cases hx
      refine ⟨[if v < 0 then '-' else '+'], ρ.radix.write v.natAbs, rfl, ?_,
        ρ.radix.write_ne_nil _, fun c hc => ?_⟩
      · split <;> simp
      · obtain ⟨d, hd, rfl⟩ := List.mem_map.mp hc
        exact hρ.written d (ρ.radix.digits_lt _ d hd)

omit hρ in
theorem toLower_marker {mode : Mode} {marker : Char} {cs : List Char}
    (h : exponentStarts mode (marker :: cs) = true) :
    marker.toLower ∈ mode.markers ∧ marker.toLower.toLower = marker.toLower := by
  have hall : ((mode.markers ++ mode.signedMarkers).all fun c =>
      decide (c.toLower ∈ mode.markers ∧ c.toLower.toLower = c.toLower)) = true := by
    cases mode <;> decide
  exact of_decide_eq_true (List.all_eq_true.mp hall marker (mem_markers_of_exponentStarts h))

/-- the lexeme of a numeral is a numeral without suffixes, and its own lexeme -/
theorem numeral_normal {c : Char} {cs lexeme rest : List Char} (hc : ρ.grammar.isDigit c = true)
    (h : ρ.numeral c cs = (.ok lexeme, rest)) : ρ.Transcribes lexeme lexeme := by
  cases hm : ρ.mantissa c cs with
  | mk r behind =>
    cases r with
    | error fault =>
      unfold numeral at h
      rw [hm] at h
      cases h
    | ok m =>
      have hman := mantissa_normal hρ hc hm
      have hplain : ρ.Transcribes m (m.map Char.toUpper) := .plain hman
      rw [hman.map_toUpper hρ] at hplain
      cases hstart : exponentStarts ρ.mode behind with
      | false =>
        rw [numeral_of_mantissa hm hstart] at h
        cases h
        exact hplain
      | true =>
        cases behind with
        | nil => cases hstart
        | cons marker behind =>
          rw [numeral_of_exponent hm hstart] at h
          cases hx : ρ.exponent marker behind with
          | mk x rest' =>
            rw [hx] at h
            cases x with
            | error fault => cases h
            | ok x =>
              cases h
              obtain ⟨sign, ds, rfl, hsign, hne, hall⟩ := exponent_normal hρ hx
              obtain ⟨hmarker, hlower⟩ := toLower_marker hstart
              have hscaled := Transcribes.scaled hman
                (exponentStarts_of_marker hmarker (sign ++ ds)) hsign hne hall
              rw [hman.map_toUpper hρ, hlower,
                Calculator.map_toUpper fun c hc => hρ.upper c (hall c hc)] at hscaled
              exact hscaled

/-! ## reading a numeral without suffixes -/

theorem mantissa_back {c : Char} {tail rest : List Char} (hm : ρ.Mantissa (c :: tail))
    (hrest : rest = [] ∨ exponentStarts ρ.mode rest = true) :
    ρ.mantissa c (tail ++ rest) = (.ok ((c :: tail).map Char.toUpper), rest) := by
  -- what no marker is stops before the rest
  have hstops : ∀ p : Char → Bool,
      ((ρ.mode.markers ++ ρ.mode.signedMarkers).all fun d => !p d) = true → Stops p rest := by
    intro p hp
    rcases hrest with rfl | hstart
    · exact stops_nil p
    · cases rest with
      | nil => exact stops_nil p
      | cons d ds =>
        have hd := List.all_eq_true.mp hp d (mem_markers_of_exponentStarts hstart)
        exact stops_cons ((Bool.not_eq_true' _).mp hd)
  have hend : ∀ seen, ρ.mantissaTail seen rest = [] := by
    intro seen
    rcases hrest with rfl | hstart
    · rfl
    · cases rest with
      | nil => rfl
      | cons d ds => rw [mantissaTail, if_pos hstart]
  have hsign : Stops isSign rest := hstops isSign (by cases ρ.mode <;> decide)
  have hsuffix : Stops (· == '_') rest := hstops (· == '_') (by cases ρ.mode <;> decide)
  have htail : ρ.mantissaTail false (tail ++ rest) = tail := by
    obtain ⟨ds, fs, hne, hall, hcs⟩ := hm
    cases ds with
    | nil => exact absurd rfl hne
    | cons d ds =>
      have hds : ∀ e ∈ ds, ρ.grammar.isDigit e = true :=
        fun e he => hall e (List.mem_append_left _ (List.mem_cons_of_mem _ he))
      have hfs : ∀ e ∈ fs, ρ.grammar.isDigit e = true :=
        fun e he => hall e (List.mem_append_right _ he)
      rcases hcs with hcs | hcs
      · cases hcs
        rw [mantissaTail_digits_append hρ.upper false hds hsign, hend, List.append_nil]
      · obtain rfl : tail = ds ++ '.' :: fs := (List.cons.inj hcs).2
        rw [List.append_assoc, List.cons_append,
          mantissaTail_digits_append hρ.upper false hds (stops_cons rfl),
          mantissaTail_point hρ.upper, mantissaTail_digits_append hρ.upper true hfs hsign, hend,
          List.append_nil]
  rw [mantissa_eq htail rfl, takeSuffix_of_ne hsuffix]

theorem exponent_back {marker : Char} {sign ds : List Char} (hsign : sign ∈ [[], ['+'], ['-']])
    (hne : ds ≠ []) (hall : ∀ c ∈ ds, ρ.grammar.isDigit c = true) :
    ρ.exponent marker (sign ++ ds)
      = (.ok (marker.toLower :: (sign ++ ds.map Char.toUpper)), []) := by
  have htake := takeSign_signed hsign (fun c hc => hρ.upper c (hall c hc)) [] (stops_nil _)
  have hx := exponent_eq marker htake hall (stops_nil _)
  rw [List.append_nil, if_neg (by simpa using hne)] at hx
  exact hx

/-- a numeral without suffixes is read whole -/
theorem numeral_back {c : Char} {cs lexeme : List Char} (h : ρ.Transcribes (c :: cs) lexeme) :
    ρ.numeral c cs = (.ok lexeme, []) := by
  generalize htext : c :: cs = text at h
  cases h with
  | plain hm =>
    subst htext
    have hback := mantissa_back hρ hm (Or.inl rfl)
    rw [List.append_nil] at hback
    exact numeral_of_mantissa hback rfl
  | @scaled m sign ds marker hm hstart hsign hne hall =>
    obtain ⟨d, tail, rfl, -⟩ := hm.exists_cons
    rw [List.cons_append] at htext
    cases htext
    have hback := mantissa_back hρ hm (Or.inr hstart)
    rw [numeral_of_exponent hback hstart, exponent_back hρ hsign hne hall]
    rfl

/-! ## one piece again -/

omit hρ in
theorem symbol_again {c : Char} {cs lexeme tail : List Char} {k : Kind}
    (h : ρ.symbol c cs = ⟨.ok (k, lexeme), tail⟩) :
    ∃ ds, lexeme = c :: ds ∧ ρ.symbol c ds = ⟨.ok (k, lexeme), []⟩ := by
  have single {cs : List Char} (h : ρ.single c cs = ⟨.ok (k, lexeme), tail⟩) :
      ∃ ds, lexeme = c :: ds ∧ ρ.symbol c ds = ⟨.ok (k, lexeme), []⟩ := by
    obtain ⟨rfl, hk⟩ := single_ok (congrArg Scan.result h)
    refine ⟨[], rfl, ?_⟩
    show ρ.single c [] = _
    unfold Rules.single
    rw [hk]
  cases cs with
  | nil => exact single h
  | cons d cs =>
    simp only [symbol] at h
    split at h
    · rename_i k' hk
      cases h
      refine ⟨[d], rfl, ?_⟩
      simp only [symbol, hk]
    · exact single h

/-- a lexeme is one piece, of the kind that it has -/
theorem scan_again {c : Char} {cs lexeme tail : List Char} {k : Kind}
    (hw : ρ.grammar.isWhitespace c = false) (h : ρ.scan c cs = ⟨.ok (k, lexeme), tail⟩) :
    ρ.Run lexeme [(k, lexeme)] [] := by
  rw [scan_eq_reading] at h
  cases hr : ρ.reading c with
  | symbol =>
    rw [hr] at h
    obtain ⟨ds, rfl, hagain⟩ := symbol_again h
    refine .piece hw ?_ (.done [])
    rw [scan_eq_reading, hr]
    exact hagain
  | name =>
    rw [hr] at h
    obtain ⟨hkey, -⟩ := Scan.mk.inj h
    cases hkey
    refine .piece hw ?_ (.done [])
    have hall : ∀ d ∈ cs.takeWhile ρ.grammar.isLetter, ρ.grammar.isLetter d = true := all_takeWhile
    obtain ⟨htake, hdrop⟩ := takeWhile_append_stops hall (stops_nil _)
    rw [List.append_nil] at htake hdrop
    rw [scan_eq_reading, hr]
    show ρ.name c _ = _
    unfold name
    rw [htake, hdrop]
  | numeral =>
    rw [hr] at h
    have hclass := ρ.class_of_reading c
    rw [hr] at hclass
    change ρ.scanNumeral c cs = _ at h
    unfold scanNumeral at h
    split at h
    · rename_i lexeme' rest hn
      cases h
      have hself := numeral_normal hρ hclass.1 hn
      -- the lexeme starts with a digit of its own, which is not always the digit of the source
      obtain ⟨d, ds, rfl, hd⟩ := hself.exists_cons
      refine .piece (hρ.blank d hd) ?_ (.done [])
      rw [scan_eq_reading, hρ.reading d hd]
      show ρ.scanNumeral d ds = _
      unfold scanNumeral
      rw [numeral_back hρ hself]
    · cases h
  | unknown =>
    rw [hr] at h
    cases h

theorem Run.again {text rest : List Char} {keys : List (Kind × List Char)}
    (h : ρ.Run text keys rest) : ∀ key ∈ keys, ρ.Run key.2 [key] [] := by
  induction h with
  | done text => exact List.forall_mem_nil _
  | blank hw h ih => exact ih
  | piece hc hscan h ih => exact List.forall_mem_cons.mpr ⟨scan_again hρ hc hscan, ih⟩

omit hρ in
/-- texts of one piece each with a blank between any two -/
theorem run_joined (hapart : ρ.Apart ρ.grammar.isWhitespace) {w : Char}
    (hw : ρ.grammar.isWhitespace w = true) {keys : List (Kind × List Char)}
    (h : ∀ key ∈ keys, ρ.Run key.2 [key] []) :
    ρ.Run (List.intercalate [w] (keys.map Prod.snd)) keys [] := by
  induction keys with
  | nil => exact .done []
  | cons key keys ih =>
    obtain ⟨hkey, hkeys⟩ := List.forall_mem_cons.mp h
    cases keys with
    | nil =>
      rw [List.map_singleton, List.intercalate_singleton]
      exact hkey
    | cons next keys =>
      rw [List.map_cons, List.map_cons, List.intercalate_cons_cons, List.append_assoc]
      exact (hkey.parted hapart hw _).append (.blank hw (ih hkeys))

end Rules

/-! ## the built-in grammars -/

namespace Mode

/-- in programmer mode every radix, in scientific mode those up to ten are written with digits of
the mode -/
theorem writesDigits {mode : Mode} {r : Radix} (h : mode = .programmer ∨ r.val ≤ 10) :
    (mode.rules r).WritesDigits := by
  obtain ⟨hplain, hten, hall⟩ :
      (mode.language.alphabet.digits.toList.all fun c =>
        !mode.reserves c && !mode.language.isLetter c) = true ∧
      ((List.range 10).all fun d => mode.language.isDigit (digitChar d)) = true ∧
      (mode = .programmer →
        ((List.range 36).all fun d => mode.language.isDigit (digitChar d)) = true) := by
    cases mode <;> decide +kernel
  simp only [List.all_eq_true, Bool.and_eq_true, Bool.not_eq_true'] at hplain hten hall
  have hpunctuator : ∀ c, mode.language.isDigit c = true →
      mode.language.isPunctuator c = false := by
    intro c hc
    refine Bool.eq_false_iff.mpr fun hp => ?_
    rw [(mode.language_apart.punctuators c hp).2.2] at hc
    cases hc
  refine ⟨fun c hc => mode.isUpperDigit_of_isDigit hc, fun c hc => ?_, fun c hc => ?_,
    fun d hd => ?_⟩
  · obtain ⟨hreserved, hletter⟩ := hplain c (of_decide_eq_true hc)
    unfold Rules.reading
    rw [rules_grammar, hpunctuator c hc, hletter]
    show (if mode.reserves c = true then _ else _) = _
    rw [hreserved, if_neg Bool.false_ne_true, if_neg Bool.false_ne_true]
    exact if_pos hc
  · refine Bool.eq_false_iff.mpr fun hw => ?_
    have hnot := (mode.language_apart.whitespace c hw).2
    rw [rules_grammar, hnot] at hc
    cases hc
  · have hd : d < r.val := hd
    rcases h with hmode | hradix
    · exact hall hmode d (List.mem_range.mpr (Nat.lt_of_lt_of_le hd r.le_max))
    · exact hten d (List.mem_range.mpr (Nat.lt_of_lt_of_le hd hradix))

theorem blanks_apart (mode : Mode) (r : Radix) :
    (mode.rules r).Apart mode.language.isWhitespace := by
  have hnames : (mode.language.kinds.all fun k =>
      k.name.all fun c => !mode.language.isWhitespace c) = true := by
    cases mode <;> decide +kernel
  simp only [List.all_eq_true, Bool.not_eq_true'] at hnames
  have hg : mode.language.Assembled := Grammar.assembled_of_build mode.grammar_eq
  exact (Rules.blanksApart_of_assembled (ρ := mode.rules r) hg hnames).apart

end Mode

/-- **Lexemes are a normal form.**  With the programmer grammar and any radix of the lexer, or with
the scientific grammar and a radix up to ten, take any part of any text that lexes without an error
and write the lexemes of its tokens with one blank between any two.  The new text lexes to the same
tokens, up to positions; and a parse of it, with any radix of the parser, ends like the parse of the
text, with the same expression up to positions or with an error of the same cause. -/
theorem lexemes_normal_form (mode : Mode) (g : Grammar) (config : Config) (text : List Char)
    (l : Lexer) (ts : List Token) (hg : mode.grammar = .ok g)
    (hradix : mode = .programmer ∨ config.radix ≤ 10)
    (hl : Lexer.new g mode config text = .ok l) (hts : l.Lexes ts) :
    ∃ l' ts', Lexer.new g mode ⟨0, none, config.radix⟩
        (List.intercalate [' '] (ts.map Token.lexeme)) = .ok l' ∧
      l'.Lexes ts' ∧ ts'.map Token.key = ts.map Token.key ∧
      ∀ params, Setting.parse ⟨g, params⟩ (.ofLexer l) ≠ .unfinished ∧
        Outcome.Alike Expr.same (Setting.parse ⟨g, params⟩ (.ofLexer l))
          (Setting.parse ⟨g, params⟩ (.ofLexer l')) := by
  obtain rfl : mode.language = g := Except.ok.inj (mode.grammar_eq.symm.trans hg)
  obtain ⟨r, source, hr, -, rfl⟩ := (mode.new_eq_ok_iff _ _ _).mp hl
  obtain ⟨t, ht, -, hall, hpull⟩ := hts.pull_eq
  have hname := mode.rules_nameKind r
  have hrun := Lexer.run_of_pull hname hall ht hpull
  have hdigits : (mode.rules r).WritesDigits := by
    rw [← Radix.ofNat_eq_ok_iff.mp hr] at hradix
    exact Mode.writesDigits hradix
  have hblank : mode.language.isWhitespace ' ' = true := by
    cases mode <;> decide +kernel
  have hjoined := Rules.run_joined (mode.blanks_apart r) hblank (Rules.Run.again hdigits hrun)
  rw [List.map_map] at hjoined
  obtain ⟨ts', hts', hkeys⟩ :=
    Lexer.lexes_of_run (l := ⟨mode.rules r, List.intercalate [' '] (ts.map Token.lexeme), 0⟩)
      hjoined hname
  refine ⟨_, ts', Lexer.new_setSource hl _, hts', hkeys, fun params => ⟨?_, ?_⟩⟩
  · exact (Setting.finished _ (Mode.grammar_standard hg).noEnding _).2
  · refine Setting.parse_alike _ rfl rfl fun n => ?_
    rw [Lexer.result_of_run hrun]
    exact (Lexer.result_of_run hjoined n).symm

/-- a marker behind a digit like it, a character with the kind of a shift, and two suffixes -/
def markedSource : List Char := "7.EE-1<0255_10p11_2->x".toList

/-- the tokens of `markedSource` in radix sixteen -/
def markedTokens : List Token :=
  [⟨Kind.word, "7.Ee-1".toList, 0⟩, ⟨⟨['<', '<'], .caretLowest⟩, ['<'], 6⟩,
    ⟨Kind.word, "FFp+3".toList, 7⟩, ⟨⟨['-', '>'], .infix4⟩, ['-', '>'], 19⟩,
    ⟨Kind.word, ['x'], 21⟩]

theorem markedSource_normal_form :
    Lexer.new Mode.programmer.language .programmer ⟨0, none, 16⟩ markedSource
      = .ok ⟨Mode.programmer.rules sixteen, markedSource, 0⟩ ∧
    Lexer.Lexes ⟨Mode.programmer.rules sixteen, markedSource, 0⟩ markedTokens ∧
    ∃ l' ts' e after e' after',
      Lexer.new Mode.programmer.language .programmer ⟨0, none, 16⟩ "7.Ee-1 < FFp+3 -> x".toList
        = .ok l' ∧ l'.Lexes ts' ∧ ts'.map Token.key = markedTokens.map Token.key ∧
      Setting.parse ⟨Mode.programmer.language, 16⟩
        (.ofLexer ⟨Mode.programmer.rules sixteen, markedSource, 0⟩) = .done e after ∧
      Setting.parse ⟨Mode.programmer.language, 16⟩ (.ofLexer l') = .done e' after' ∧
      e.text = "(< 7.Ee-1 (-> FFp+3 x))".toList ∧ e.same e' = true := by
  have hl : Lexer.new Mode.programmer.language .programmer ⟨0, none, 16⟩ markedSource
      = .ok ⟨Mode.programmer.rules sixteen, markedSource, 0⟩ :=
    (Mode.new_eq_ok_iff _ _ _ _).mpr ⟨sixteen, _, rfl, Config.select_whole 16 _, rfl⟩
  have hts : Lexer.Lexes ⟨Mode.programmer.rules sixteen, markedSource, 0⟩ markedTokens :=
    ⟨⟨Kind.ending, [], 22⟩, rfl, by decide +kernel⟩
  have htext : (Setting.parse ⟨Mode.programmer.language, 16⟩
      (.ofLexer ⟨Mode.programmer.rules sixteen, markedSource, 0⟩)).value?.map Expr.text
      = some "(< 7.Ee-1 (-> FFp+3 x))".toList := by decide +kernel
  obtain ⟨e, after, he, htext⟩ := Outcome.exists_done htext
  have hjoined : List.intercalate [' '] (markedTokens.map Token.lexeme)
      = "7.Ee-1 < FFp+3 -> x".toList := by decide
  obtain ⟨l', ts', hl', hts', hkeys, hparse⟩ :=
    lexemes_normal_form _ _ _ _ _ _ (Mode.grammar_eq .programmer) (Or.inl rfl) hl hts
  rw [hjoined] at hl'
  have halike := (hparse 16).2
  rw [he] at halike
  generalize hsecond : Setting.parse ⟨Mode.programmer.language, 16⟩ (.ofLexer l') = o at halike
  cases halike with
  | done hsame _ =>
    exact ⟨hl, hts, l', ts', e, after, _, _, hl', hts', hkeys, he, hsecond, htext, hsame⟩

end Calculator
