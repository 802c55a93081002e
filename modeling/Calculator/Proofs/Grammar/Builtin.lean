import Calculator.Grammar.Builtin
import Calculator.Proofs.Climb.Completeness
import Calculator.Proofs.Token.Sorted

/-!
# What the built-in grammars have in common

Both modes build without a refusal, and agree on their marks: the closing delimiters and the
separator have kinds of their own, named by the character alone, which have no role before or behind
an operand.  No kind of theirs ends a stream, and names and numerals have the kind of words.

* `markKind c`                  the kind of a mark;
* `Grammar.StandardMarks`       all of this, and `Grammar.hasStandardMarks` as a check;
* `Mode.grammar_standard`       both modes have it;
* `Mode.language`, `Mode.lexer` the grammar of a mode as such, and a lexer of it;
* `Mode.rules`                  what lexers of a mode go by;
* `Grammar.StandardMarks.plain` marks are marks and nothing else;
* `Grammar.StandardMarks.keyMarks_closing`, `Grammar.StandardMarks.keyMarks_separator`   a token of
                                a mark's kind is the mark;
* `Mode.programmer_upperDigits` the digits of programmer mode.
-/

namespace Calculator

/-- the kind of a closing delimiter or separator in the built-in grammars -/
def markKind (c : Char) : Kind := ⟨[c], .lowest⟩

/-- the marks of the built-in grammars -/
def markChars : List Char := [')', ']', '\x7d', ',']

namespace Grammar

structure StandardMarks (g : Grammar) : Prop where
  grouping : g.grouping = some ('(', ')')
  call : g.callDelimiters = some ('[', ']')
  array : g.arrayDelimiters = some ('\x7b', '\x7d')
  separator : g.separator = some ','
  words : g.nameKind = some Kind.word
  noEnding : Kind.ending ∉ g.kinds
  kindOf : ∀ c ∈ markChars, g.kindOf c = some (markKind c)
  noPrefix : ∀ c ∈ markChars, g.prefixRole? (markKind c) = none
  noInfix : ∀ c ∈ markChars, g.infixRole? (markKind c) = none

/-- the standard marks as a check -/
def hasStandardMarks (g : Grammar) : Bool :=
  g.grouping = some ('(', ')') && g.callDelimiters = some ('[', ']')
    && g.arrayDelimiters = some ('\x7b', '\x7d') && g.separator = some ','
    && g.nameKind = some Kind.word && !g.isKind Kind.ending
    && markChars.all fun c =>
      g.kindOf c = some (markKind c) && g.prefixRole? (markKind c) = none
        && g.infixRole? (markKind c) = none

theorem standardMarks_of_check {g : Grammar} (h : g.hasStandardMarks = true) : g.StandardMarks := by
  simp only [hasStandardMarks, Bool.and_eq_true, decide_eq_true_eq, Bool.not_eq_true', isKind,
    decide_eq_false_iff_not, List.all_eq_true] at h
  obtain ⟨⟨⟨⟨⟨⟨hgroup, hcall⟩, harray⟩, hsep⟩, hword⟩, hend⟩, hmarks⟩ := h
  exact ⟨hgroup, hcall, harray, hsep, hword, hend, fun c hc => (hmarks c hc).1.1,
    fun c hc => (hmarks c hc).1.2, fun c hc => (hmarks c hc).2⟩

end Grammar

/-! ## the grammar of a mode -/

theorem Mode.names_nodup (mode : Mode) : (mode.kinds.map Kind.name).Nodup := by
  cases mode <;> decide

/-- The grammar of a mode, which is always there.  The merge sort of the kinds does not reduce in
the kernel; the insertion sort gives the same row and does. -/
def Mode.language (mode : Mode) : Grammar :=
  (Draft.build mode.nonDecimal
    (mode.listing (mode.kinds.insertionSort Kind.NotAfter))).toOption.getD Grammar.empty

theorem Mode.sortByName_kinds (mode : Mode) :
    sortByName mode.kinds = mode.kinds.insertionSort Kind.NotAfter :=
  sortByName_eq_of_pairwise mode.names_nodup (List.perm_insertionSort Kind.NotAfter _)
    (List.pairwise_insertionSort Kind.NotAfter _)

theorem Mode.grammar_eq (mode : Mode) : mode.grammar = .ok mode.language := by
  have hbuilt : (Draft.build mode.nonDecimal
      (mode.listing (mode.kinds.insertionSort Kind.NotAfter))).toOption.isSome = true := by
    cases mode <;> decide +kernel
  unfold Mode.grammar Mode.registrations Mode.language
  rw [mode.sortByName_kinds]
  generalize Draft.build _ _ = built at *
  cases built with
  | ok g => rfl
  | error e => cases hbuilt

theorem Mode.language_standard (mode : Mode) : mode.language.StandardMarks := by
  apply Grammar.standardMarks_of_check
  cases mode <;> decide +kernel

theorem Mode.grammar_standard {mode : Mode} {g : Grammar} (h : mode.grammar = .ok g) :
    g.StandardMarks := by
  rw [mode.grammar_eq] at h
  cases h
  exact mode.language_standard

/-- radix sixteen -/
def sixteen : Radix := ⟨16, by decide, by decide⟩

/-- a decimal lexer of a mode over a text -/
def Mode.lexer (mode : Mode) (text : List Char) : Lexer :=
  ⟨⟨mode.language, mode, Kind.word, Radix.ten⟩, text, 0⟩

theorem Config.select_whole (radix : Nat) (text : List Char) :
    Config.select ⟨0, none, radix⟩ text = .ok text := by
  unfold Config.select
  rw [if_pos ⟨Nat.zero_le _, Nat.le_refl _⟩]
  exact congrArg Except.ok List.take_length

/-- the rules of a mode -/
def Mode.rules (mode : Mode) (radix : Radix) : Rules := ⟨mode.language, mode, Kind.word, radix⟩

theorem Mode.rules_grammar (mode : Mode) (radix : Radix) :
    (mode.rules radix).grammar = mode.language := rfl

theorem Mode.rules_nameKind (mode : Mode) (radix : Radix) :
    (mode.rules radix).nameKind ≠ Kind.ending := by
  show Kind.word ≠ Kind.ending
  decide

theorem Mode.new_eq_ok_iff (mode : Mode) (config : Config) (text : List Char) (l : Lexer) :
    Lexer.new mode.language mode config text = .ok l ↔
      ∃ radix source, Radix.ofNat config.radix = .ok radix ∧ config.select text = .ok source ∧
        l = ⟨mode.rules radix, source, 0⟩ := by
  unfold Lexer.new
  rw [mode.language_standard.words]
  cases Radix.ofNat config.radix with
  | error e => simp
  | ok radix =>
    cases config.select text with
    | error e => simp
    | ok source =>
      simp only [Except.ok.injEq, exists_and_left, exists_eq_left']
      exact eq_comm

theorem Mode.lexer_eq (mode : Mode) (text : List Char) :
    Lexer.new mode.language mode Config.whole text = .ok (mode.lexer text) := by
  unfold Lexer.new
  rw [mode.language_standard.words, Config.whole, Config.select_whole]
  rfl

namespace Grammar

variable {g : Grammar}

theorem StandardMarks.pair (hg : g.StandardMarks) (use : Bracket) :
    ∃ c ∈ markChars, c ≠ ',' ∧ (g.pair use).map Prod.snd = some c := by
  cases use with
  | grouping => exact ⟨')', by decide, by decide, by rw [Grammar.pair, hg.grouping]; rfl⟩
  | call => exact ⟨']', by decide, by decide, by rw [Grammar.pair, hg.call]; rfl⟩
  | array => exact ⟨'\x7d', by decide, by decide, by rw [Grammar.pair, hg.array]; rfl⟩

theorem StandardMarks.closing_eq (hg : g.StandardMarks) {use : Bracket} {k : Kind}
    (h : g.closing? use = some k) :
    ∃ c ∈ markChars, c ≠ ',' ∧ (g.pair use).map Prod.snd = some c ∧ k = markKind c := by
  obtain ⟨c, hc, hne, hp⟩ := hg.pair use
  refine ⟨c, hc, hne, hp, ?_⟩
  rw [Expr.closing?_eq_bind, hp] at h
  exact Option.some.inj (h.symm.trans (hg.kindOf c hc))

theorem StandardMarks.closing_isSome (hg : g.StandardMarks) (use : Bracket) :
    (g.closing? use).isSome = true := by
  obtain ⟨c, hc, -, hpair⟩ := hg.pair use
  rw [Expr.closing?_eq_bind, hpair]
  show (g.kindOf c).isSome = true
  rw [hg.kindOf c hc]
  rfl

theorem StandardMarks.separator_eq (hg : g.StandardMarks) : g.separator? = some (markKind ',') := by
  unfold Grammar.separator?
  rw [hg.separator]
  exact hg.kindOf ',' (by decide)

theorem StandardMarks.plain (hg : g.StandardMarks) : g.PlainMarks where
  closing_prefix use k h := by
    obtain ⟨c, hc, -, -, rfl⟩ := hg.closing_eq h
    exact hg.noPrefix c hc
  closing_infix use k h := by
    obtain ⟨c, hc, -, -, rfl⟩ := hg.closing_eq h
    exact hg.noInfix c hc
  separator_infix k h := by
    rw [hg.separator_eq] at h
    cases h
    exact hg.noInfix ',' (by decide)
  separator_closing use k h := by
    intro hclosing
    rw [hg.separator_eq] at h
    cases h
    obtain ⟨c, -, hne, -, hk⟩ := hg.closing_eq hclosing
    cases hk
    exact hne rfl

theorem StandardMarks.keyMark (hg : g.StandardMarks) {c : Char} (hc : c ∈ markChars) :
    g.keyMark (some c) = [(markKind c, [c])] := by
  show ((g.kindOf c).map _).toList = _
  rw [hg.kindOf c hc]
  rfl

/-- a token of a closing kind is the closing delimiter, if a name of one character is the lexeme of
its tokens -/
theorem StandardMarks.keyMarks_closing (hg : g.StandardMarks) {use : Bracket} {t : Token}
    (ht : t.kind ≠ Kind.word → ∀ c, t.kind.name = [c] → t.lexeme = [c])
    (h : g.closing? use = some t.kind) : g.keyMarks.closing use = [t.key] := by
  obtain ⟨c, hc, -, hp, hk⟩ := hg.closing_eq h
  have hl : t.lexeme = [c] := by
    rw [hk] at ht
    exact ht (fun e => by cases e) c rfl
  show g.keyMark ((g.pair use).map Prod.snd) = _
  rw [hp, hg.keyMark hc, Token.key, hk, hl]

theorem StandardMarks.keyMarks_separator (hg : g.StandardMarks) {t : Token}
    (ht : t.kind ≠ Kind.word → ∀ c, t.kind.name = [c] → t.lexeme = [c])
    (h : g.separator? = some t.kind) : g.keyMarks.separator = [t.key] := by
  rw [hg.separator_eq] at h
  have hk : t.kind = markKind ',' := (Option.some.inj h).symm
  have hl : t.lexeme = [','] := by
    rw [hk] at ht
    exact ht (fun e => by cases e) ',' rfl
  show g.keyMark g.separator = _
  rw [hg.separator, hg.keyMark (by decide), Token.key, hk, hl]

end Grammar

/-! ## the digits of programmer mode -/

/-- the digits of programmer mode, the ten decimal ones first -/
def upperDigits : List Char := charRange '0' '9' ++ charRange 'A' 'Z'

theorem mem_charRange {lo hi c : Char} (h₁ : lo ≤ c) (h₂ : c ≤ hi) : c ∈ charRange lo hi := by
  have hlo : lo.toNat ≤ c.toNat := h₁
  have hhi : c.toNat ≤ hi.toNat := h₂
  refine List.mem_map.mpr ⟨c.toNat - lo.toNat, List.mem_range.mpr (by omega), ?_⟩
  rw [Nat.add_sub_cancel' hlo]
  exact Char.ofNat_toNat c

theorem mem_upperDigits {c : Char} (h : isUpperDigit c = true) : c ∈ upperDigits := by
  have h' : ('0' ≤ c ∧ c ≤ '9') ∨ ('A' ≤ c ∧ c ≤ 'Z') := by simpa [isUpperDigit] using h
  rcases h' with ⟨h₁, h₂⟩ | ⟨h₁, h₂⟩
  · exact List.mem_append_left _ (mem_charRange h₁ h₂)
  · exact List.mem_append_right _ (mem_charRange h₁ h₂)

theorem of_all_upperDigits {p : Char → Bool} (h : upperDigits.all p = true) {c : Char}
    (hc : isUpperDigit c = true) : p c = true :=
  List.all_eq_true.mp h c (mem_upperDigits hc)

/-- the digits of the grammar are the upper-case ones, and nothing but digits -/
structure Grammar.UpperDigits (g : Grammar) : Prop where
  digits : g.alphabet.digits.toList = upperDigits
  plain : upperDigits.all (fun c => !g.isWhitespace c && !g.isPunctuator c && !g.isLetter c) = true

namespace Grammar.UpperDigits

variable {g : Grammar} (h : g.UpperDigits)
include h

theorem isDigit_eq (c : Char) : g.isDigit c = isUpperDigit c := by
  unfold Grammar.isDigit OrdSet.contains
  rw [h.digits, Bool.eq_iff_iff, decide_eq_true_iff]
  constructor
  · intro hc
    exact List.all_eq_true.mp (show upperDigits.all isUpperDigit = true by decide) c hc
  · exact mem_upperDigits

theorem not_other {c : Char} (hc : isUpperDigit c = true) :
    g.isWhitespace c = false ∧ g.isPunctuator c = false ∧ g.isLetter c = false := by
  have hplain := of_all_upperDigits h.plain hc
  simp only [Bool.and_eq_true, Bool.not_eq_true'] at hplain
  exact ⟨hplain.1.1, hplain.1.2, hplain.2⟩

end Grammar.UpperDigits

theorem Mode.programmer_upperDigits : Mode.programmer.language.UpperDigits :=
  ⟨by decide +kernel, by decide +kernel⟩

end Calculator
