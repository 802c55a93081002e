import Calculator.Proofs.Climb.Delimited
import Calculator.Proofs.Expr.Display
import Calculator.Proofs.Numeral.Readable

/-!
# The text of a parsed expression identifies it

In the built-in grammars every node of a parsed expression is legible.  Names and numerals are
words: letters, or what the lexer writes for a numeral in whatever radix.  The lexeme of a symbol is
the start of the name of its kind, and operators have names without letters, so they are words too,
and none of those that name the other nodes.  The kind of a symbol is found by its lexeme, and
opening delimiters are the only symbols of their roles.  Numbers are read in the same radix on both
sides, so their values are told by their lexemes as well.

* `Grammar.symbolKind?`       the kind of a symbol by its lexeme;
* `Rules.scan_legible`        a scan gives a word, or a symbol that is told by its lexeme;
* `Grammar.LegibleRoles`      which kinds may have which roles;
* `Grammar.tokenOf`           the token of a node by its label and heading;
* `Grammar.LegibleRoles.legible`   every node that was made by its role is legible;
* `Mode.legibleRoles`         the built-in grammars have such roles;
* `text_identifies`           the whole statement for two parses.
-/

namespace Calculator

/-! ## names and numerals are words -/

theorem isWordChar_of_isUpperDigit {c : Char} (h : isUpperDigit c = true) : isWordChar c = true :=
  of_all_upperDigits (by decide) h

theorem Literal.Plain.isWord {lit : Literal} (h : lit.Plain) : IsWord lit.write := by
  have hfraction : ∀ c ∈ writeFraction lit.fraction, isWordChar c = true := by
    have hfits := h.fits.fraction
    cases hf : lit.fraction with
    | none => exact List.forall_mem_nil _
    | some ds =>
      rw [hf] at hfits
      refine List.forall_mem_cons.mpr ⟨by decide, ?_⟩
      intro c hc
      exact isWordChar_of_isUpperDigit (hfits ds rfl c hc)
  have hexponent : ∀ c ∈ writeExponent lit.exponent, isWordChar c = true := by
    have hfits := h.fits.exponent
    have hplain := h.exponent
    cases hx : lit.exponent with
    | none => exact List.forall_mem_nil _
    | some x =>
      rw [hx] at hfits hplain
      have hmarker : isWordChar x.marker.char = true := by cases x.marker <;> decide
      have hsign : ∀ s ∈ [[], ['+'], ['-']], s.all isWordChar = true := by decide
      have hdigits : ∀ c ∈ x.digits, isWordChar c = true := by
        intro c hc
        rw [← takeSign_append x.digits] at hc
        rcases List.mem_append.mp hc with hc | hc
        · exact List.all_eq_true.mp (hsign _ (Rules.takeSign_mem x.digits)) c hc
        · exact isWordChar_of_isUpperDigit ((hfits x rfl).digits c hc)
      show ∀ c ∈ x.marker.char :: (x.digits ++ writeSuffix x.radix), isWordChar c = true
      rw [(hplain x rfl).2, writeSuffix, List.append_nil]
      exact List.forall_mem_cons.mpr ⟨hmarker, hdigits⟩
  constructor
  · intro hnil
    rw [write, List.append_assoc, List.append_assoc] at hnil
    exact h.integer (List.append_eq_nil_iff.mp hnil).1
  · intro c hc
    rw [write, h.radix, writeSuffix, List.append_nil] at hc
    rcases List.mem_append.mp hc with hc | hc
    · rcases List.mem_append.mp hc with hc | hc
      · exact isWordChar_of_isUpperDigit (h.fits.integer c hc)
      · exact hfraction c hc
    · exact hexponent c hc

/-! ## symbols are told by their lexemes -/

/-- the kind of a symbol by its lexeme -/
def Grammar.symbolKind? (g : Grammar) : List Char → Option Kind
  | [c] => g.kindOf c
  | [c, d] => g.kindNamed [c, d]
  | _ => none

theorem Grammar.name_of_symbolKind {g : Grammar} {lexeme : List Char} {k : Kind}
    (h : g.symbolKind? lexeme = some k) : lexeme ≠ [] ∧ lexeme <+: k.name := by
  unfold symbolKind? at h
  split at h
  · rename_i c
    refine ⟨List.cons_ne_nil c [], ?_⟩
    rcases name_of_kindOf h with hname | ⟨d, ds, hname⟩
    · exact ⟨[], hname.symm⟩
    · exact ⟨d :: ds, hname.symm⟩
  · rename_i c d
    rw [name_of_kindNamed h]
    exact ⟨List.cons_ne_nil c [d], List.prefix_refl _⟩
  · cases h

/-- what a scan gives in a grammar whose digits are upper-case ones and whose letters stand in
words: a word, or a symbol that is told by its lexeme -/
theorem Rules.scan_legible {ρ : Rules}
    (hdigit : ∀ c, ρ.grammar.isDigit c = true → isUpperDigit c = true)
    (hletter : ∀ c, ρ.grammar.isLetter c = true → isWordChar c = true) {c : Char}
    {cs lexeme : List Char} {k : Kind} (h : (ρ.scan c cs).result = .ok (k, lexeme)) :
    (k = ρ.nameKind ∧ IsWord lexeme) ∨ ρ.grammar.symbolKind? lexeme = some k := by
  have hclass := ρ.class_of_reading c
  cases hr : ρ.reading c with
  | symbol =>
    right
    rw [scan_eq_reading, hr] at h
    rcases symbol_ok h with ⟨rfl, hk⟩ | ⟨d, rfl, hk⟩
    · exact hk
    · exact hk
  | name =>
    left
    rw [hr] at hclass
    rw [scan_eq_reading, hr] at h
    cases h
    refine ⟨rfl, List.cons_ne_nil _ _, ?_⟩
    refine List.forall_mem_cons.mpr ⟨hletter c hclass, ?_⟩
    intro d hd
    exact hletter d (all_takeWhile d hd)
  | numeral =>
    left
    rw [hr] at hclass
    obtain ⟨hk, rest, hnumeral⟩ := numeral_of_reading hr h
    obtain ⟨-, -, lit, -, -, rfl, hplain, -⟩ := numeral_renders hdigit hclass.1 hnumeral
    exact ⟨hk, hplain.isWord⟩
  | unknown =>
    rw [scan_eq_reading, hr] at h
    cases h

/-! ## legible roles -/

theorem Label.ofMark_symbol {w : List Char} (hne : w ≠ []) (h : ∀ c ∈ w, c.isAlpha = false) :
    ofMark w = .operator := by
  have hnone : named.find? (fun label => label.mark [] = w) = none := by
    refine List.find?_eq_none.mpr ?_
    intro label hlabel hmark
    obtain rfl := of_decide_eq_true hmark
    have halpha : ∀ label ∈ named, (label.mark []).any Char.isAlpha = true := by decide
    obtain ⟨c, hc, hletter⟩ := List.any_eq_true.mp (halpha label hlabel)
    rw [h c hc] at hletter
    cases hletter
  rw [ofMark, hnone]
  rfl

namespace Grammar

/-- has the kind a role of operators, in front of operands, between or behind them -/
def Operates (g : Grammar) (k : Kind) : Prop :=
  g.prefixRole? k = some .operator ∨ g.infixRole? k = some .left ∨ g.infixRole? k = some .right ∨
    g.infixRole? k = some .suffix

/-- only words are leaves, each kind of brackets has one opening delimiter, and the names of
operators have neither letters nor blanks nor brackets in them -/
structure LegibleRoles (g : Grammar) : Prop where
  leaf : ∀ k, g.prefixRole? k = some .leaf → k = Kind.word
  grouping : ∀ k, g.prefixRole? k = some .grouping → k = openingKind '('
  array : ∀ k, g.prefixRole? k = some .array → k = openingKind '\x7b'
  call : ∀ k, g.infixRole? k = some .call → k = openingKind '['
  operator : ∀ k, g.Operates k →
    k ≠ Kind.word ∧ k.name.all (fun c => isWordChar c && !c.isAlpha) = true

/-- the token of a node by its label and heading -/
def tokenOf (g : Grammar) : Label → List Char → Option Token
  | .leaf, w => some ⟨Kind.word, w, 0⟩
  | .operator, w => (g.symbolKind? w).map (⟨·, w, 0⟩)
  | .suffix, w =>
    let lexeme := w.drop "postfix ".length
    (g.symbolKind? lexeme).map (⟨·, lexeme, 0⟩)
  | .group, _ => some (openingToken '(')
  | .call, _ => some (openingToken '[')
  | .array, _ => some (openingToken '\x7b')

/-- a token as a scan gives it: a word, or a symbol that is told by its lexeme -/
def Tells (g : Grammar) (t : Token) : Prop :=
  (t.kind = Kind.word ∧ IsWord t.lexeme) ∨ g.symbolKind? t.lexeme = some t.kind

section
variable {g : Grammar} {t : Token} (ht : g.Tells t)
include ht

theorem Tells.isWord (hk : t.kind = Kind.word) : IsWord t.lexeme := by
  rcases ht with ⟨-, hword⟩ | hsymbol
  · exact hword
  · obtain ⟨hne, hname⟩ := name_of_symbolKind hsymbol
    rw [hk] at hname
    exact absurd (List.prefix_nil.mp hname) hne

theorem Tells.operator (hg : g.LegibleRoles) (hrole : g.Operates t.kind) :
    IsWord t.lexeme ∧ Label.ofMark t.lexeme = .operator ∧
      g.symbolKind? t.lexeme = some t.kind := by
  obtain ⟨hkind, hchars⟩ := hg.operator t.kind hrole
  have hsymbol : g.symbolKind? t.lexeme = some t.kind := by
    rcases ht with ⟨hk, -⟩ | hsymbol
    · exact absurd hk hkind
    · exact hsymbol
  obtain ⟨hne, hname⟩ := name_of_symbolKind hsymbol
  simp only [List.all_eq_true, Bool.and_eq_true, Bool.not_eq_true'] at hchars
  refine ⟨⟨hne, ?_⟩, Label.ofMark_symbol hne ?_, hsymbol⟩
  · intro c hc
    exact (hchars c (hname.subset hc)).1
  · intro c hc
    exact (hchars c (hname.subset hc)).2

theorem Tells.opening {c : Char} (hk : t.kind = openingKind c) : t.unplaced = openingToken c := by
  have hlexeme : t.lexeme = [c] := by
    rcases ht with ⟨hword, -⟩ | hsymbol
    · rw [hk] at hword
      cases hword
    · obtain ⟨hne, hname⟩ := name_of_symbolKind hsymbol
      rw [hk] at hname
      rcases List.prefix_cons_iff.mp hname with hnil | ⟨cs, hcs, hrest⟩
      · exact absurd hnil hne
      · rw [hcs, List.prefix_nil.mp hrest]
  show (⟨t.kind, t.lexeme, 0⟩ : Token) = _
  rw [hk, hlexeme]
  rfl

end

/-! labels one by one -/

section
variable {g : Grammar} {x : Expr} (ht : g.Tells x.token)
include ht

theorem legible_leaf (hlabel : x.label = .leaf) (hk : x.token.kind = Kind.word) :
    x.Legible g.tokenOf := by
  refine ⟨?_, ?_, ?_⟩
  · intro _
    exact ht.isWord hk
  · intro h
    rw [hlabel] at h
    cases h
  · show g.tokenOf x.label (x.label.heading _) = some ⟨x.token.kind, x.token.lexeme, 0⟩
    rw [hlabel, hk, Label.heading_leaf]
    rfl

theorem legible_operator (hg : g.LegibleRoles) (hlabel : x.label = .operator)
    (hrole : g.Operates x.token.kind) : x.Legible g.tokenOf := by
  obtain ⟨hword, hmark, hsymbol⟩ := ht.operator hg hrole
  refine ⟨?_, ?_, ?_⟩
  · intro _
    exact hword
  · intro _
    exact hmark
  · show g.tokenOf x.label (x.label.heading _) = some ⟨x.token.kind, x.token.lexeme, 0⟩
    rw [hlabel, Label.heading_operator, tokenOf, hsymbol]
    rfl

theorem legible_suffix (hg : g.LegibleRoles) (hlabel : x.label = .suffix)
    (hrole : g.Operates x.token.kind) : x.Legible g.tokenOf := by
  obtain ⟨hword, -, hsymbol⟩ := ht.operator hg hrole
  refine ⟨?_, ?_, ?_⟩
  · intro _
    exact hword
  · intro h
    rw [hlabel] at h
    cases h
  · show g.tokenOf x.label (x.label.heading _) = some ⟨x.token.kind, x.token.lexeme, 0⟩
    have hlexeme : (Label.heading x.token.lexeme .suffix).drop "postfix ".length = x.token.lexeme :=
      rfl
    rw [hlabel, tokenOf, hlexeme, hsymbol]
    rfl

theorem legible_opening {c : Char} (hlabel : x.label.showsToken = false)
    (hread : ∀ w, g.tokenOf x.label w = some (openingToken c))
    (hk : x.token.kind = openingKind c) : x.Legible g.tokenOf := by
  refine ⟨?_, ?_, ?_⟩
  · intro h
    rw [hlabel] at h
    cases h
  · intro h
    rw [h] at hlabel
    cases hlabel
  · rw [hread, ht.opening hk]

end

/-- every node that was made by its role, of a token as a scan gives it, is legible -/
theorem LegibleRoles.legible {σ : Setting} (hg : σ.grammar.LegibleRoles) {x : Expr}
    (hb : x.Built σ) (ht : σ.grammar.Tells x.token) : x.Legible σ.grammar.tokenOf := by
  cases x with
  | name t => exact legible_leaf ht rfl (hg.leaf _ hb.1)
  | number t v => exact legible_leaf ht rfl (hg.leaf _ hb.1)
  | prefixed t y => exact legible_operator ht hg rfl (.inl hb.1)
  | binary t l r => exact legible_operator ht hg rfl (.inr (hb.1.imp_right .inl))
  | suffixed t y => exact legible_suffix ht hg rfl (.inr (.inr (.inr hb.1)))
  | group t y => exact legible_opening ht rfl (fun _ => rfl) (hg.grouping _ hb.1)
  | call f t ys => exact legible_opening ht rfl (fun _ => rfl) (hg.call _ hb.1)
  | array t ys => exact legible_opening ht rfl (fun _ => rfl) (hg.array _ hb.1)

end Grammar

/-! ## the built-in grammars -/

namespace Mode

theorem legibleRoles (mode : Mode) : mode.language.LegibleRoles := by
  have htable : ∀ k ∈ mode.language.kinds,
      (mode.language.prefixRole? k = some .leaf → k = Kind.word) ∧
      (mode.language.prefixRole? k = some .grouping → k = openingKind '(') ∧
      (mode.language.prefixRole? k = some .array → k = openingKind '\x7b') ∧
      (mode.language.infixRole? k = some .call → k = openingKind '[') ∧
      (mode.language.Operates k →
        k ≠ Kind.word ∧ k.name.all (fun c => isWordChar c && !c.isAlpha) = true) := by
    unfold Grammar.Operates
    cases mode <;> decide +kernel
  have hfront {k : Kind} {r : PrefixRole} (h : mode.language.prefixRole? k = some r) :=
    htable k (mode.language.mem_kinds_of_prefixRole? h)
  have hbehind {k : Kind} {r : InfixRole} (h : mode.language.infixRole? k = some r) :=
    htable k (mode.language.mem_kinds_of_infixRole? h)
  refine ⟨?_, ?_, ?_, ?_, ?_⟩
  · intro k h
    exact (hfront h).1 h
  · intro k h
    exact (hfront h).2.1 h
  · intro k h
    exact (hfront h).2.2.1 h
  · intro k h
    exact (hbehind h).2.2.2.1 h
  · intro k hrole
    have hkind : k ∈ mode.language.kinds := by
      rcases hrole with h | h | h | h
      · exact mode.language.mem_kinds_of_prefixRole? h
      · exact mode.language.mem_kinds_of_infixRole? h
      · exact mode.language.mem_kinds_of_infixRole? h
      · exact mode.language.mem_kinds_of_infixRole? h
    exact (htable k hkind).2.2.2.2 hrole

theorem isWordChar_of_isLetter (mode : Mode) {c : Char} (h : mode.language.isLetter c = true) :
    isWordChar c = true := by
  have hapart := mode.language_apart
  have hblank : mode.language.isWhitespace ' ' = true := by cases mode <;> decide +kernel
  have hpunctuator := mode.standardDelimiters.punctuators
  simp only [isWordChar, Bool.and_eq_true, bne_iff_ne, ne_eq]
  refine ⟨⟨?_, ?_⟩, ?_⟩
  · rintro rfl
    rw [(hapart.whitespace ' ' hblank).1] at h
    cases h
  · rintro rfl
    rw [(hapart.punctuators '(' (hpunctuator '(' (by decide))).2.1] at h
    cases h
  · rintro rfl
    rw [(hapart.punctuators ')' (hpunctuator ')' (by decide))).2.1] at h
    cases h

end Mode

/-- every node of a parsed expression is legible -/
theorem shown_of_parse {mode : Mode} {g : Grammar} {config : Config} {text : List Char} {l : Lexer}
    {radix : Nat} {e : Expr} {after : Stream} (hg : mode.grammar = .ok g)
    (hl : Lexer.new g mode config text = .ok l)
    (h : Setting.parse ⟨g, radix⟩ (Stream.ofLexer l) = .done e after) :
    e.Shown ⟨g, radix⟩ g.tokenOf := by
  have hlanguage : g = mode.language := Except.ok.inj (hg.symm.trans mode.grammar_eq)
  have hroles : g.LegibleRoles := by
    rw [hlanguage]
    exact mode.legibleRoles
  obtain ⟨h₀, hgrammar, -, hname, -⟩ := Lexer.new_eq_ok hl
  have hdigit : ∀ c, l.rules.grammar.isDigit c = true → isUpperDigit c = true := by
    rw [hgrammar, hlanguage]
    exact fun c => mode.isUpperDigit_of_isDigit
  have hletter : ∀ c, l.rules.grammar.isLetter c = true → isWordChar c = true := by
    rw [hgrammar, hlanguage]
    exact fun c => mode.isWordChar_of_isLetter
  have hstandard := Mode.grammar_standard hg
  rw [hstandard.words] at hname
  have hcur : l.cursor ≤ l.source.length := by omega
  obtain ⟨ts, stop, -, -, hspelled, hb, hresults⟩ := Setting.parse_results hstandard.noEnding h
  intro x hx
  have hbx := Expr.built_of_mem_preorder e hb x hx
  refine ⟨hbx, hroles.legible hbx ?_⟩
  -- the token of the node is one of the tokens of the parse, so a scan has given it
  have hmem : x.token ∈ ts :=
    (e.tokens_sublist hspelled).subset ((e.tokens_infix x hx).subset x.token_mem_tokens)
  obtain ⟨k, hk⟩ := List.getElem?_of_mem hmem
  obtain ⟨hresult, hending⟩ := hresults k x.token hk
  obtain ⟨c, cs, -, hscan⟩ := Lexer.result_scan hcur hresult hending
  have hlegible := Rules.scan_legible hdigit hletter hscan
  rw [hgrammar, ← Option.some.inj hname] at hlegible
  exact hlegible

/-- **The text of a parsed expression identifies it.**  In either built-in grammar, take any two
sources, cut and read with any two configurations of the lexer, that parse with numbers read in the
same radix: their expressions have the same bracketed text if and only if they are the same up to
positions. -/
theorem text_identifies (mode : Mode) (g : Grammar) (config₁ config₂ : Config)
    (text₁ text₂ : List Char) (l₁ l₂ : Lexer) (radix : Nat) (e₁ e₂ : Expr) (after₁ after₂ : Stream)
    (hg : mode.grammar = .ok g) (hl₁ : Lexer.new g mode config₁ text₁ = .ok l₁)
    (hl₂ : Lexer.new g mode config₂ text₂ = .ok l₂)
    (h₁ : Setting.parse ⟨g, radix⟩ (Stream.ofLexer l₁) = .done e₁ after₁)
    (h₂ : Setting.parse ⟨g, radix⟩ (Stream.ofLexer l₂) = .done e₂ after₂) :
    e₁.text = e₂.text ↔ e₁.same e₂ = true :=
  Expr.text_eq_iff (shown_of_parse hg hl₁ h₁) (shown_of_parse hg hl₂ h₂)

/-- a lexer of programmer mode in a radix -/
def programmerLexer (radix : Radix) (text : List Char) : Lexer :=
  ⟨Mode.programmer.rules radix, text, 0⟩

theorem programmerLexer_eq (radix : Radix) (text : List Char) :
    Lexer.new Mode.programmer.language .programmer ⟨0, none, radix.val⟩ text
      = .ok (programmerLexer radix text) :=
  (Mode.programmer.new_eq_ok_iff _ _ _).mpr
    ⟨radix, text, Radix.ofNat_val radix, Config.select_whole _ _, rfl⟩

/-- a list in a decimal lexer and in a hexadecimal one, where a suffix makes the same number of
other digits -/
theorem rebased_list_identified :
    ∃ e₁ after₁ e₂ after₂,
      Setting.parse ⟨Mode.programmer.language, 16⟩ (Stream.ofLexer
        (programmerLexer Radix.ten "\x7b1F, -a[], (b')\x7d".toList)) = .done e₁ after₁ ∧
      Setting.parse ⟨Mode.programmer.language, 16⟩ (Stream.ofLexer
        (programmerLexer sixteen " \x7b 31_10 , - a [ ],(b')\x7d".toList)) = .done e₂ after₂ ∧
      e₁.text = "(array 1F (- (call a)) (group (postfix ' b)))".toList ∧ e₁.same e₂ = true := by
  have hrun₁ : (Setting.parse ⟨Mode.programmer.language, 16⟩ (Stream.ofLexer
      (programmerLexer Radix.ten "\x7b1F, -a[], (b')\x7d".toList))).value?.map Expr.text
      = some "(array 1F (- (call a)) (group (postfix ' b)))".toList := by decide +kernel
  have hrun₂ : (Setting.parse ⟨Mode.programmer.language, 16⟩ (Stream.ofLexer
      (programmerLexer sixteen " \x7b 31_10 , - a [ ],(b')\x7d".toList))).value?.map Expr.text
      = some "(array 1F (- (call a)) (group (postfix ' b)))".toList := by decide +kernel
  obtain ⟨e₁, after₁, he₁, htext₁⟩ := Outcome.exists_done hrun₁
  obtain ⟨e₂, after₂, he₂, htext₂⟩ := Outcome.exists_done hrun₂
  refine ⟨e₁, after₁, e₂, after₂, he₁, he₂, htext₁, ?_⟩
  have hiff := text_identifies .programmer _ _ _ _ _ _ _ 16 e₁ e₂ after₁ after₂
    (Mode.grammar_eq .programmer) (programmerLexer_eq _ _) (programmerLexer_eq _ _) he₁ he₂
  exact hiff.mp (htext₁.trans htext₂.symm)

end Calculator
