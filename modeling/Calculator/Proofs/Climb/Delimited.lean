import Calculator.Proofs.Climb.Leaves
import Calculator.Proofs.Grammar.Registry
import Calculator.Proofs.Token.Runs
import Mathlib.Data.List.Forall2

/-!
# Delimiters compose

In the built-in grammars a text parses to an expression if and only if a run over the text gives the
tokens of the expression, and its nodes are what their roles make and precedence allows.  Delimiters
are separators to a run, so the runs over the items of a list go on behind each other, whatever the
items are: no numeral, name or symbol at the end of one reaches over the delimiter behind it.

* `Parses`                    a fresh parser over the text gives the expression, up to positions;
* `Rules.Spells`              the text reads like the expression;
* `parses_iff`                a text parses to what it reads like;
* `Grammar.StandardDelimiters`, `Mode.standardDelimiters`   the delimiters of the built-in grammars;
* `Mode.delimiters_apart`     delimiters are separators;
* `Mode.run_items`            a run over a list of items;
* `Mode.spells_array`, `Mode.spells_call`, `Mode.spells_group`   arrays, calls and groups;
* `delimiters_compose`        the whole statement.
-/

namespace Calculator

/-! ## parses and runs -/

/-- a fresh parser over the text gives the expression, up to positions -/
def Parses (g : Grammar) (mode : Mode) (radix params : Nat) (text : List Char) (e : Expr) : Prop :=
  ∃ l e' after, Lexer.new g mode ⟨0, none, radix⟩ text = .ok l ∧
    Setting.parse ⟨g, params⟩ (.ofLexer l) = .done e' after ∧ e'.same e = true

/-- a run over the text gives the tokens of the expression, whose nodes are what their roles make
and precedence allows -/
structure Rules.Spells (ρ : Rules) (params : Nat) (text : List Char) (e : Expr) : Prop where
  run : ρ.Run text (e.inOrder Token.key ρ.grammar.keyMarks) []
  built : e.Built ⟨ρ.grammar, params⟩
  bound : e.WellBound ρ.grammar 0

theorem Rules.Spells.of_same {ρ : Rules} {params : Nat} {text : List Char} {e e' : Expr}
    (h : ρ.Spells params text e') (hsame : e'.same e = true) : ρ.Spells params text e := by
  have he : e'.unplaced = e.unplaced := (Expr.same_iff e' e).mp hsame
  refine ⟨?_, ?_, ?_⟩
  · rw [← Expr.inOrder_unplaced ρ.grammar.keyMarks (fun _ => rfl) e, ← he,
      Expr.inOrder_unplaced ρ.grammar.keyMarks (fun _ => rfl) e']
    exact h.run
  · rw [← Expr.built_unplaced, ← he, Expr.built_unplaced]
    exact h.built
  · rw [← Expr.wellBound_unplaced, ← he, Expr.wellBound_unplaced]
    exact h.bound

section
variable {mode : Mode} {r : Radix} {params : Nat}

/-- a text that was parsed reads like the expression: nothing but blanks is left behind it -/
theorem spells_of_parse {text : List Char} {e : Expr} {after : Stream}
    (h : Setting.parse ⟨mode.language, params⟩ (.ofLexer ⟨mode.rules r, text, 0⟩) = .done e after) :
    (mode.rules r).Spells params text e := by
  have hstd := mode.language_standard
  have hname := mode.rules_nameKind r
  obtain ⟨us, stop, hpull, hstop, -, -, hus⟩ := Setting.parse_results hstd.noEnding h
  have hrun : (mode.rules r).Run text (us.map Token.key) [] := by
    refine Lexer.run_of_pull (l := ⟨mode.rules r, text, 0⟩) hname (fun u hu => ?_) hstop hpull
    obtain ⟨k, hk⟩ := List.mem_iff_getElem?.mp hu
    exact (hus k u hk).2
  obtain ⟨ts, hts, hkeys⟩ := Lexer.lexes_of_run (l := ⟨mode.rules r, text, 0⟩) hrun hname
  obtain ⟨horder, hbuilt, hbound⟩ := Setting.parse_sound hstd rfl rfl hts h
  refine ⟨?_, hbuilt, hbound⟩
  rw [← hkeys, ← horder] at hrun
  exact hrun

/-- in a built-in grammar a text parses to what it reads like, and to nothing else -/
theorem parses_iff {radix : Nat} (hr : Radix.ofNat radix = .ok r) {text : List Char} {e : Expr} :
    Parses mode.language mode radix params text e ↔ (mode.rules r).Spells params text e := by
  have hnew : Lexer.new mode.language mode ⟨0, none, radix⟩ text
      = .ok ⟨mode.rules r, text, 0⟩ :=
    (mode.new_eq_ok_iff _ _ _).mpr ⟨r, text, hr, Config.select_whole radix text, rfl⟩
  constructor
  · rintro ⟨l, e', after, hl, hparse, hsame⟩
    rw [hnew] at hl
    cases hl
    exact (spells_of_parse hparse).of_same hsame
  · intro h
    obtain ⟨ts, hts, hkeys⟩ :=
      Lexer.lexes_of_run (l := ⟨mode.rules r, text, 0⟩) h.run (mode.rules_nameKind r)
    obtain ⟨e', after, hparse, he⟩ := Setting.parse_complete mode.language_standard hts
      hkeys.symm h.built h.bound
    exact ⟨_, e', after, hnew, hparse, (Expr.same_iff e' e).mpr he⟩

end

/-! ## the delimiters of the built-in grammars -/

def openingChars : List Char := ['(', '[', '\x7b']

/-- the delimiters and the separator -/
def delimiterChars : List Char := openingChars ++ markChars

/-- the kind of an opening delimiter in the built-in grammars -/
def openingKind (c : Char) : Kind := ⟨[c], .highest⟩

/-- an opening delimiter as a token -/
def openingToken (c : Char) : Token := ⟨openingKind c, [c], 0⟩

/-- delimiters are punctuators and no part of a longer symbol, and opening ones have kinds and roles
of their own -/
structure Grammar.StandardDelimiters (g : Grammar) : Prop where
  punctuators : ∀ c ∈ delimiterChars, g.isPunctuator c = true
  names : ∀ k ∈ g.kinds, ∀ c ∈ k.name, c ∈ delimiterChars → k.name = [c]
  kindOf : ∀ c ∈ openingChars, g.kindOf c = some (openingKind c)
  grouping : g.prefixRole? (openingKind '(') = some .grouping
  array : g.prefixRole? (openingKind '\x7b') = some .array
  call : g.infixRole? (openingKind '[') = some .call

namespace Mode

theorem standardDelimiters (mode : Mode) : mode.language.StandardDelimiters := by
  obtain ⟨h₁, h₂, h₃, h₄, h₅, h₆⟩ :
      (delimiterChars.all mode.language.isPunctuator) = true ∧
      (mode.language.kinds.all fun k =>
        k.name.all fun c => !delimiterChars.contains c || k.name == [c]) = true ∧
      (openingChars.all fun c => mode.language.kindOf c == some (openingKind c)) = true ∧
      mode.language.prefixRole? (openingKind '(') = some .grouping ∧
      mode.language.prefixRole? (openingKind '\x7b') = some .array ∧
      mode.language.infixRole? (openingKind '[') = some .call := by
    cases mode <;> decide +kernel
  simp only [List.all_eq_true, Bool.or_eq_true, Bool.not_eq_true', beq_iff_eq] at h₁ h₂ h₃
  refine ⟨h₁, fun k hk c hc hmem => ?_, h₃, h₄, h₅, h₆⟩
  rcases h₂ k hk c hc with hnot | hname
  · rw [List.contains_iff_mem.mpr hmem] at hnot
    cases hnot
  · exact hname

theorem compound_delimiter (mode : Mode) {c d : Char}
    (h : c ∈ delimiterChars ∨ d ∈ delimiterChars) : mode.compound mode.language c d = none := by
  refine Rules.compound_eq_none fun k hk hname => ?_
  have hone := mode.standardDelimiters.names k hk
  rw [hname] at hone
  rcases h with h | h
  · cases hone c (by simp) h
  · cases hone d (by simp) h

variable (mode : Mode) (r : Radix)

theorem delimiters_apart : (mode.rules r).Apart (fun c => decide (c ∈ delimiterChars)) := by
  have hpunctuator : ∀ w, decide (w ∈ delimiterChars) = true →
      mode.language.isPunctuator w = true := by
    intro w hw
    exact mode.standardDelimiters.punctuators w (of_decide_eq_true hw)
  refine ⟨fun w hw => ?_, fun w hw => ?_, fun w hw => ?_, fun w hw => ?_, fun w hw c => ?_⟩
  · exact (mode.language_apart.punctuators w (hpunctuator w hw)).2.1
  · exact (mode.language_apart.punctuators w (hpunctuator w hw)).2.2
  · have hall : (delimiterChars.all fun c => !c.isDigit) = true := by decide
    exact (Bool.not_eq_true' _).mp (List.all_eq_true.mp hall w (of_decide_eq_true hw))
  · have hall : (delimiterChars.all fun c => decide (c ∉ numeralMarks)) = true := by decide
    exact of_decide_eq_true (List.all_eq_true.mp hall w (of_decide_eq_true hw))
  · exact mode.compound_delimiter (Or.inr (of_decide_eq_true hw))

variable {mode r} {rest : List Char} {keys : List (Kind × List Char)}

theorem run_delimiter {c : Char} {k : Kind} (hc : c ∈ delimiterChars)
    (hk : mode.language.kindOf c = some k) {cs : List Char} (h : (mode.rules r).Run cs keys rest) :
    (mode.rules r).Run (c :: cs) ((k, [c]) :: keys) rest := by
  have hpunctuator := mode.standardDelimiters.punctuators c hc
  refine .piece (mode.language_apart.punctuators c hpunctuator).1 ?_ h
  have hsingle : (mode.rules r).single c cs = ⟨.ok (k, [c]), cs⟩ := by
    unfold Rules.single
    rw [rules_grammar, hk]
  unfold Rules.scan
  rw [rules_grammar, if_pos hpunctuator, ← hsingle]
  cases cs with
  | nil => rfl
  | cons d cs =>
    have hnone : (mode.rules r).mode.compound (mode.rules r).grammar c d = none :=
      mode.compound_delimiter (Or.inl hc)
    simp only [Rules.symbol, hnone]

theorem run_opening {c : Char} (hc : c ∈ openingChars) {cs : List Char}
    (h : (mode.rules r).Run cs keys rest) :
    (mode.rules r).Run (c :: cs) ((openingToken c).key :: keys) rest :=
  run_delimiter (List.mem_append_left _ hc) (mode.standardDelimiters.kindOf c hc) h

theorem run_mark {c : Char} (hc : c ∈ markChars) {cs : List Char}
    (h : (mode.rules r).Run cs keys rest) :
    (mode.rules r).Run (c :: cs) (mode.language.keyMark (some c) ++ keys) rest := by
  have hstd := mode.language_standard
  rw [hstd.keyMark hc]
  exact run_delimiter (List.mem_append_right _ hc) (hstd.kindOf c hc) h

/-- a run over a text goes on behind it up to a delimiter -/
theorem run_before {text : List Char} (h : (mode.rules r).Run text keys []) {c : Char}
    (hc : c ∈ delimiterChars) (more : List Char) :
    (mode.rules r).Run (text ++ c :: more) keys (c :: more) :=
  h.parted (mode.delimiters_apart r) (decide_eq_true hc) more

theorem run_closing (use : Bracket) {c : Char}
    (hc : (mode.language.pair use).map Prod.snd = some c) (hmark : c ∈ markChars) :
    (mode.rules r).Run [c] (mode.language.keyMarks.closing use) [] := by
  have hkeys : mode.language.keyMarks.closing use = mode.language.keyMark (some c) ++ [] := by
    rw [List.append_nil]
    exact congrArg mode.language.keyMark hc
  rw [hkeys]
  exact run_mark hmark (.done [])

/-! ## names, groups and lists -/

variable {params : Nat}

theorem spells_name {f : List Char} (hne : f ≠ [])
    (hletters : ∀ c ∈ f, mode.language.isLetter c = true)
    (hfirst : ∀ c ∈ f.head?, mode.reserves c = false) :
    (mode.rules r).Spells params f (.name ⟨Kind.word, f, 0⟩) := by
  cases f with
  | nil => exact absurd rfl hne
  | cons c cs =>
    obtain ⟨hc, hcs⟩ := List.forall_mem_cons.mp hletters
    have hpunctuator : mode.language.isPunctuator c = false := by
      refine Bool.eq_false_iff.mpr fun hp => ?_
      rw [(mode.language_apart.punctuators c hp).2.1] at hc
      cases hc
    have hwhite : mode.language.isWhitespace c = false := by
      refine Bool.eq_false_iff.mpr fun hw => ?_
      rw [(mode.language_apart.whitespace c hw).1] at hc
      cases hc
    have hscan : (mode.rules r).scan c cs = ⟨.ok (Kind.word, c :: cs), []⟩ := by
      have hreserved : (mode.rules r).mode.reserves c = false := hfirst c rfl
      obtain ⟨htake, hdrop⟩ := takeWhile_append_stops hcs (stops_nil _)
      rw [List.append_nil] at htake hdrop
      unfold Rules.scan
      rw [rules_grammar, hpunctuator, hreserved, hc]
      simp only [Bool.false_eq_true, if_false, if_true, Rules.name, rules_grammar, htake, hdrop]
      rfl
    have hnumber : Setting.isNumber ⟨mode.language, params⟩ (c :: cs) = false := by
      show (mode.language.isDigit c && !mode.language.isLetter c) = false
      rw [hc, Bool.not_true, Bool.and_false]
    exact ⟨.piece hwhite hscan (.done []), ⟨mode.language_words.1, hnumber⟩, trivial⟩

theorem spells_group {s : List Char} {e : Expr} (h : (mode.rules r).Spells params s e) :
    (mode.rules r).Spells params ('(' :: s ++ [')']) (.group (openingToken '(') e) where
  run := by
    refine run_opening (by decide) ((run_before h.run (by decide) []).append
      (run_closing .grouping ?_ ?_))
    · rw [Grammar.pair, mode.language_standard.grouping]
      rfl
    · decide
  built := ⟨mode.standardDelimiters.grouping, mode.language_standard.closing_isSome .grouping,
    h.built⟩
  bound := h.bound

variable {texts : List (List Char)} {es : List Expr}
  (h : List.Forall₂ ((mode.rules r).Spells params) texts es)
include h

/-- a run over items with separators between them, up to a delimiter -/
theorem run_items {c : Char} (hc : c ∈ delimiterChars) (more : List Char) :
    (mode.rules r).Run (List.intercalate [','] texts ++ c :: more)
      (Expr.inOrderItems Token.key mode.language.keyMarks es) (c :: more) := by
  induction h with
  | nil => exact .done _
  | @cons s e texts es hs hitems ih =>
    cases hitems with
    | nil =>
      rw [List.intercalate_singleton, Expr.inOrderItems, Expr.inOrderMore, List.append_nil]
      exact run_before hs.run hc more
    | @cons s' e' texts es hs' hitems =>
      have hseparator : mode.language.keyMarks.separator = mode.language.keyMark (some ',') :=
        congrArg mode.language.keyMark mode.language_standard.separator
      rw [List.intercalate_cons_cons, List.append_assoc, List.append_assoc, Expr.inOrderItems,
        Expr.inOrderMore, hseparator]
      exact (run_before hs.run (by decide) _).append (run_mark (by decide) ih)

theorem built_items : Expr.BuiltItems ⟨mode.language, params⟩ es := by
  induction h with
  | nil => trivial
  | cons hs hitems ih =>
    refine ⟨?_, hs.built, ih⟩
    show mode.language.separator?.isSome = true
    rw [mode.language_standard.separator_eq]
    rfl

theorem bound_items : Expr.WellBoundAll mode.language es := by
  induction h with
  | nil => trivial
  | cons hs hitems ih => exact ⟨hs.bound, ih⟩

theorem spells_array : (mode.rules r).Spells params
    ('\x7b' :: List.intercalate [','] texts ++ ['\x7d']) (.array (openingToken '\x7b') es) where
  run := by
    refine run_opening (by decide) ((run_items h (by decide) []).append (run_closing .array ?_ ?_))
    · rw [Grammar.pair, mode.language_standard.array]
      rfl
    · decide
  built := ⟨mode.standardDelimiters.array, mode.language_standard.closing_isSome .array,
    built_items h⟩
  bound := bound_items h

theorem spells_call {f : List Char}
    (hf : (mode.rules r).Spells params f (.name ⟨Kind.word, f, 0⟩)) : (mode.rules r).Spells params
    (f ++ '[' :: List.intercalate [','] texts ++ [']'])
    (.call (.name ⟨Kind.word, f, 0⟩) (openingToken '[') es) where
  run := by
    rw [List.append_assoc]
    refine (run_before hf.run (by decide) _).append (run_opening (by decide)
      ((run_items h (by decide) []).append (run_closing .call ?_ ?_)))
    · rw [Grammar.pair, mode.language_standard.call]
      rfl
    · decide
  built := ⟨mode.standardDelimiters.call, mode.language_standard.closing_isSome .call, hf.built,
    built_items h⟩
  bound := ⟨by decide, trivial, List.forall_mem_nil _, bound_items h⟩

end Mode

/-! ## whole parses -/

/-- **Delimiters compose.**  In either built-in grammar, with any radix of the lexer and of the
parser, take any number of texts that parse to expressions, each by a fresh parser.  The texts with
commas between them parse between braces to the array of the expressions, and between brackets
behind any letters that are a name to the call of the name with the expressions; and a text between
parentheses parses to the group of its expression, all up to positions. -/
theorem delimiters_compose (mode : Mode) (g : Grammar) (radix params : Nat)
    (texts : List (List Char)) (es : List Expr) (hg : mode.grammar = .ok g) (h₂ : 2 ≤ radix)
    (h₃₆ : radix ≤ 36) (hitems : List.Forall₂ (Parses g mode radix params) texts es) :
    Parses g mode radix params ('\x7b' :: List.intercalate [','] texts ++ ['\x7d'])
        (.array (openingToken '\x7b') es) ∧
      (∀ f : List Char, f ≠ [] → (∀ c ∈ f, g.isLetter c = true) →
        (mode = .programmer → f.head? ≠ some 'e' ∧ f.head? ≠ some 'p') →
        Parses g mode radix params (f ++ '[' :: List.intercalate [','] texts ++ [']'])
          (.call (.name ⟨Kind.word, f, 0⟩) (openingToken '[') es)) ∧
      ∀ s e, Parses g mode radix params s e →
        Parses g mode radix params ('(' :: s ++ [')']) (.group (openingToken '(') e) := by
  obtain rfl : mode.language = g := Except.ok.inj (mode.grammar_eq.symm.trans hg)
  have hr : Radix.ofNat radix = .ok ⟨radix, h₂, h₃₆⟩ := Radix.ofNat_eq_ok_iff.mpr rfl
  have hspells := hitems.imp fun s e hs => (parses_iff hr).mp hs
  refine ⟨?_, fun f hne hletters hfirst => ?_, fun s e hs => ?_⟩
  · exact (parses_iff hr).mpr (Mode.spells_array hspells)
  · refine (parses_iff hr).mpr (Mode.spells_call hspells (Mode.spells_name hne hletters ?_))
    intro c hc
    rw [Option.mem_def] at hc
    cases mode with
    | scientific => rfl
    | programmer =>
      obtain ⟨he, hp⟩ := hfirst rfl
      rw [hc] at he hp
      have he' : c ≠ 'e' := fun e => he (congrArg some e)
      have hp' : c ≠ 'p' := fun e => hp (congrArg some e)
      simp [Mode.reserves, Mode.markers, he', hp']
  · exact (parses_iff hr).mpr (Mode.spells_group ((parses_iff hr).mp hs))

/-- texts that end in a digit like a marker, in a blank and in a point -/
def seamTexts : List (List Char) := ["1E", "a << 2 ", "7."].map String.toList

theorem seamTexts_compose :
    Mode.programmer.grammar = .ok Mode.programmer.language ∧
    ∃ e₁ e₂ e₃ : Expr, [e₁, e₂, e₃].map Expr.text = ["1E", "(<< a 2)", "7."].map String.toList ∧
      List.Forall₂ (Parses Mode.programmer.language .programmer 16 16) seamTexts [e₁, e₂, e₃] ∧
      Parses Mode.programmer.language .programmer 16 16 "\x7b1E,a << 2 ,7.\x7d".toList
        (.array (openingToken '\x7b') [e₁, e₂, e₃]) ∧
      Parses Mode.programmer.language .programmer 16 16 "sum[1E,a << 2 ,7.]".toList
        (.call (.name ⟨Kind.word, "sum".toList, 0⟩) (openingToken '[') [e₁, e₂, e₃]) ∧
      Parses Mode.programmer.language .programmer 16 16 "(7.)".toList
        (.group (openingToken '(') e₃) := by
  have hparse : seamTexts.map (fun text => (Setting.parse ⟨Mode.programmer.language, 16⟩
      (.ofLexer ⟨Mode.programmer.rules sixteen, text, 0⟩)).value?.map Expr.text)
      = ["1E", "(<< a 2)", "7."].map fun word => some word.toList := by decide +kernel
  obtain ⟨h₁, h₂, h₃, -⟩ := by simpa only [seamTexts, List.map_cons, List.cons.injEq] using hparse
  obtain ⟨e₁, after₁, hdone₁, htext₁⟩ := Outcome.exists_done h₁
  obtain ⟨e₂, after₂, hdone₂, htext₂⟩ := Outcome.exists_done h₂
  obtain ⟨e₃, after₃, hdone₃, htext₃⟩ := Outcome.exists_done h₃
  have hr : Radix.ofNat 16 = .ok sixteen := rfl
  have hlast := (parses_iff hr).mpr (spells_of_parse hdone₃)
  have hitems : List.Forall₂ (Parses Mode.programmer.language .programmer 16 16) seamTexts
      [e₁, e₂, e₃] :=
    .cons ((parses_iff hr).mpr (spells_of_parse hdone₁))
      (.cons ((parses_iff hr).mpr (spells_of_parse hdone₂)) (.cons hlast .nil))
  obtain ⟨harray, hcall, hgroup⟩ := delimiters_compose .programmer _ 16 16 _ _
    (Mode.grammar_eq .programmer) (by decide) (by decide) hitems
  have hletters : ("sum".toList.all Mode.programmer.language.isLetter) = true := by decide +kernel
  have hsum := hcall "sum".toList (by decide) (List.all_eq_true.mp hletters) (fun _ => by decide)
  obtain ⟨t₁, t₂, t₃⟩ :
      '\x7b' :: List.intercalate [','] seamTexts ++ ['\x7d'] = "\x7b1E,a << 2 ,7.\x7d".toList ∧
      "sum".toList ++ '[' :: List.intercalate [','] seamTexts ++ [']']
        = "sum[1E,a << 2 ,7.]".toList ∧
      '(' :: "7.".toList ++ [')'] = "(7.)".toList := by decide
  rw [← t₁, ← t₂, ← t₃]
  refine ⟨Mode.grammar_eq _, e₁, e₂, e₃, ?_, hitems, harray, hsum, hgroup _ _ hlast⟩
  simp only [List.map_cons, List.map_nil, htext₁, htext₂, htext₃]

end Calculator
