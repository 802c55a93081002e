import Calculator.Proofs.Climb.Bounded
import Calculator.Proofs.Climb.Comparison
import Calculator.Proofs.Numeral.Readable
import Calculator.Proofs.Token.Shared
import Calculator.Proofs.Token.View

/-!
# The modes agree on what they share

On a text of shared characters the lexers of the two modes give the same results.  The kinds of
their tokens have the same roles in both grammars: of the kinds of scientific mode only the bang has
another role in programmer mode.  In radices up to ten a numeral starts with a decimal digit, which
both modes take for a number.  So parses of the two modes meet the same tokens and do the same with
them.

* `Grammar.Alike`          two grammars have the same roles for a token;
* `Stream.Twin`            streams that give the same results, of tokens treated alike;
* `Comparison.ofTwins`     the comparison by equality of parses of such streams;
* `Mode.alike_of_result`   the tokens of a shared text are alike to both modes;
* `Outcome.result?`        the value or error of a parse;
* `modes_agree`            lexing and parsing in the two modes.
-/

namespace Calculator

/-! ## streams with the same results -/

/-- the token has the same roles in both grammars, and is a number in both or in none -/
structure Grammar.Alike (g g' : Grammar) (t : Token) : Prop where
  prefixRole : g.prefixRole? t.kind = g'.prefixRole? t.kind
  infixRole : g.infixRole? t.kind = g'.infixRole? t.kind
  isNumber : ∀ r, Setting.isNumber ⟨g, r⟩ t.lexeme = Setting.isNumber ⟨g', r⟩ t.lexeme

theorem Setting.agreeOn_alike {g g' : Grammar} (hclosing : ∀ use, g.closing? use = g'.closing? use)
    (hseparator : g.separator? = g'.separator?) (r : Nat) :
    Setting.AgreeOn ⟨g, r⟩ ⟨g', r⟩ (g.Alike g') where
  radix := rfl
  prefixRole _ ht := ht.prefixRole
  infixRole _ ht := ht.infixRole
  isNumber _ ht := ht.isNumber r
  closing := hclosing
  separator := hseparator

/-- the streams have the same results ahead, and all tokens are some of these -/
structure Stream.Twin (these : Token → Prop) (s s' : Stream) : Prop where
  view : s.view = s'.view
  tokens : ∀ i t, s.view i = .ok t → these t

namespace Stream.Twin

theorem ofLexer {these : Token → Prop} {l l' : Lexer} (hresult : ∀ n, l.result n = l'.result n)
    (hthese : ∀ n t, l.result n = .ok t → these t) : Twin these (.ofLexer l) (.ofLexer l') :=
  ⟨funext hresult, hthese⟩

variable {these : Token → Prop} {s s' : Stream} (h : s.Twin these s')
include h

theorem peek : (Pairing.exact (Twin these) fun _ _ => True).Related (fun t t' => t = t' ∧ these t)
    s.peek s'.peek := by
  cases hfirst : s.view 0 with
  | ok t =>
    obtain ⟨after, hpeek, hview, -⟩ := peek_ok hfirst
    obtain ⟨after', hpeek', hview', -⟩ := peek_ok ((congrFun h.view 0).symm.trans hfirst)
    rw [hpeek, hpeek']
    refine .done ⟨rfl, h.tokens 0 t hfirst⟩ ⟨?_, ?_⟩
    · rw [hview, hview', h.view]
    · rw [hview]
      exact h.tokens
  | error e =>
    obtain ⟨after, hpeek, -⟩ := peek_error hfirst
    obtain ⟨after', hpeek', -⟩ := peek_error ((congrFun h.view 0).symm.trans hfirst)
    rw [hpeek, hpeek']
    exact .failed rfl trivial

theorem pop : (Pairing.exact (Twin these) fun _ _ => True).Related (fun t t' => t = t' ∧ these t)
    s.pop s'.pop := by
  cases hfirst : s.view 0 with
  | ok t =>
    obtain ⟨after, hpop, hview, -⟩ := pop_ok hfirst
    obtain ⟨after', hpop', hview', -⟩ := pop_ok ((congrFun h.view 0).symm.trans hfirst)
    rw [hpop, hpop']
    refine .done ⟨rfl, h.tokens 0 t hfirst⟩ ⟨?_, ?_⟩
    · rw [hview, hview', h.view]
    · rw [hview]
      exact fun i => h.tokens (i + 1)
  | error e =>
    obtain ⟨after, hpop, -⟩ := pop_error hfirst
    obtain ⟨after', hpop', -⟩ := pop_error ((congrFun h.view 0).symm.trans hfirst)
    rw [hpop, hpop']
    exact .failed rfl trivial

end Stream.Twin

/-- parses of streams with the same results, by settings that do the same with their tokens -/
def Comparison.ofTwins {σ σ' : Setting} {these : Token → Prop} (h : σ.AgreeOn σ' these) :
    Comparison σ σ' :=
  Comparison.exact h (Stream.Twin these) (fun _ _ => True) Stream.Twin.peek Stream.Twin.pop
    fun _ => trivial

/-! ## pieces -/

namespace Rules

variable {ρ : Rules} {c : Char} {cs : List Char} {k : Kind} {lexeme : List Char}
  (h : (ρ.scan c cs).result = .ok (k, lexeme))
include h

theorem kind_of_scan : k = ρ.nameKind ∨ (k ∈ ρ.grammar.kinds ∧ k.name.head? = some c) := by
  rcases scan_ok h with ⟨hk, -⟩ | ⟨-, hk⟩ | ⟨d, -, hk⟩
  · exact .inl hk
  · refine .inr ⟨ρ.grammar.mem_kinds_of_kindOf hk, ?_⟩
    rcases Grammar.name_of_kindOf hk with hname | ⟨d, ds, hname⟩
    · rw [hname, List.head?_cons]
    · rw [hname, List.head?_cons]
  · refine .inr ⟨Grammar.mem_kinds_of_kindNamed hk, ?_⟩
    rw [Grammar.name_of_kindNamed hk, List.head?_cons]

/-- a lexeme starts as its piece does, or with a digit in the radix -/
theorem head_of_scan (hupper : ρ.grammar.isDigit c = true → isUpperDigit c = true) :
    lexeme.head? = some c ∨ ∃ v < ρ.radix.val, lexeme.head? = some (digitChar v) := by
  cases hr : ρ.reading c with
  | symbol =>
    rw [scan_eq_reading, hr] at h
    rcases symbol_ok h with ⟨rfl, -⟩ | ⟨d, rfl, -⟩
    · exact .inl rfl
    · exact .inl rfl
  | name =>
    obtain ⟨-, tail, rfl⟩ := name_of_reading hr h
    exact .inl rfl
  | numeral =>
    obtain ⟨-, rest, hnum⟩ := numeral_of_reading hr h
    obtain ⟨first, tail, rfl, hfirst⟩ := numeral_head hnum
    have hclass := ρ.class_of_reading c
    rw [hr] at hclass
    rcases hfirst with rfl | ⟨v, hv, rfl⟩
    · rw [toUpper_of_upperDigit (hupper hclass.1)]
      exact .inl rfl
    · exact .inr ⟨v, hv, rfl⟩
  | unknown =>
    rw [scan_eq_reading, hr] at h
    cases h

end Rules

/-! ## tokens of shared texts -/

theorem Setting.isNumber_nil (σ : Setting) : σ.isNumber [] = false := rfl

theorem Setting.isNumber_cons (g : Grammar) (r : Nat) (c : Char) (cs : List Char) :
    Setting.isNumber ⟨g, r⟩ (c :: cs) = (g.isDigit c && !g.isLetter c) := rfl

namespace Mode

/-- has the kind the same roles in both modes -/
def sameRoles (k : Kind) : Bool :=
  scientific.language.prefixRole? k = programmer.language.prefixRole? k
    && scientific.language.infixRole? k = programmer.language.infixRole? k

theorem sameRoles_table :
    sameRoles Kind.ending = true ∧ sameRoles Kind.word = true ∧
    scientific.language.kinds.all (fun k => k.name.head? = some '!' || sameRoles k) = true := by
  decide +kernel

theorem sameDelimiters :
    (∀ use, scientific.language.closing? use = programmer.language.closing? use) ∧
      scientific.language.separator? = programmer.language.separator? := by
  refine ⟨fun use => ?_, by decide +kernel⟩
  cases use <;> decide +kernel

theorem sameRoles_of_head {k : Kind} {c : Char} (hk : k ∈ scientific.language.kinds)
    (hname : k.name.head? = some c) (hc : c ∈ sharedChars) : sameRoles k = true := by
  have hbang : c ≠ '!' := by
    rintro rfl
    exact absurd hc (by decide +kernel)
  have h := List.all_eq_true.mp sameRoles_table.2.2 k hk
  simpa [hname, hbang] using h

theorem isNumber_shared (r : Nat) {lexeme : List Char}
    (h : ∀ c ∈ lexeme.head?, c ∈ sharedChars) :
    Setting.isNumber ⟨scientific.language, r⟩ lexeme
      = Setting.isNumber ⟨programmer.language, r⟩ lexeme := by
  cases lexeme with
  | nil => rw [Setting.isNumber_nil, Setting.isNumber_nil]
  | cons c cs =>
    have hagree := rules_agree Radix.ten
    have hc : c ∈ sharedChars := h c rfl
    rw [Setting.isNumber_cons, Setting.isNumber_cons, ← scientific.rules_grammar Radix.ten,
      ← programmer.rules_grammar Radix.ten, hagree.letter c hc, hagree.digit c hc]

theorem digitChar_shared {v : Nat} (h : v < 10) : digitChar v ∈ sharedChars := by
  have all : ∀ u ∈ List.range 10, digitChar u ∈ sharedChars := by decide +kernel
  exact all v (List.mem_range.mpr h)

theorem sameRoles_of_scan {radix : Radix} (hradix : radix.val ≤ 10) {c : Char} {cs : List Char}
    (hc : c ∈ sharedChars) {k : Kind} {lexeme : List Char}
    (h : ((scientific.rules radix).scan c cs).result = .ok (k, lexeme)) :
    sameRoles k = true ∧ ∀ c ∈ lexeme.head?, c ∈ sharedChars := by
  constructor
  · rcases Rules.kind_of_scan h with rfl | ⟨hk, hname⟩
    · exact sameRoles_table.2.1
    · rw [rules_grammar] at hk
      exact sameRoles_of_head hk hname hc
  · have hupper : (scientific.rules radix).grammar.isDigit c = true → isUpperDigit c = true := by
      rw [rules_grammar]
      exact scientific.isUpperDigit_of_isDigit
    intro d hd
    rcases Rules.head_of_scan h hupper with hhead | ⟨v, hv, hhead⟩
    · cases hhead.symm.trans hd
      exact hc
    · cases hhead.symm.trans hd
      exact digitChar_shared (Nat.lt_of_lt_of_le hv hradix)

/-- both modes do the same with the tokens of a shared text -/
theorem alike_of_result {l : Lexer} {radix : Radix} (hrules : l.rules = scientific.rules radix)
    (hradix : radix.val ≤ 10) (h₀ : l.cursor ≤ l.source.length)
    (hchars : ∀ c ∈ l.source, c ∈ sharedChars) (n : Nat) (t : Token) (ht : l.result n = .ok t) :
    scientific.language.Alike programmer.language t := by
  have htoken : sameRoles t.kind = true ∧ ∀ c ∈ t.lexeme.head?, c ∈ sharedChars := by
    cases hc : l.source[l.start n]? with
    | none =>
      have hend : l.start n = l.source.length :=
        Nat.le_antisymm (Lexer.start_le_length h₀ n) (List.getElem?_eq_none_iff.mp hc)
      cases (Lexer.ended_step h₀ hend).1.symm.trans ht
      exact ⟨sameRoles_table.1, fun d hd => nomatch hd⟩
    | some c =>
      obtain ⟨cs, -, hres⟩ := Lexer.slice_scan hc
      have hcontent := congrArg Lexer.content (hres.symm.trans ht)
      rw [Lexer.content_placed, hrules] at hcontent
      exact sameRoles_of_scan hradix (hchars c (List.mem_of_getElem? hc)) hcontent
  obtain ⟨hroles, hhead⟩ := htoken
  simp only [sameRoles, Bool.and_eq_true, decide_eq_true_eq] at hroles
  exact ⟨hroles.1, hroles.2, fun r => isNumber_shared r hhead⟩

end Mode

/-! ## lexing and parsing -/

/-- the value or the error -/
def Outcome.result? {α : Type} : Outcome α → Option (Except Error α)
  | done a _ => some (.ok a)
  | failed e _ => some (.error e)
  | unfinished => none

theorem Pairing.Related.result {stream behind : Stream → Stream → Prop} {α : Type}
    {o o' : Outcome α} (h : (Pairing.exact stream behind).Related Eq o o')
    (hended : o ≠ .unfinished) : ∃ r, o.result? = some r ∧ o'.result? = some r := by
  cases h with
  | done hvalue _ => exact ⟨_, rfl, by rw [hvalue]; rfl⟩
  | failed herror _ =>
    cases herror
    exact ⟨_, rfl, rfl⟩
  | unfinished => exact absurd rfl hended

theorem Lexer.Twin.budget {l l' : Lexer} (h : l.Twin l') :
    (Stream.ofLexer l).budget = (Stream.ofLexer l').budget := by
  show 0 + l.rest.length + 3 = 0 + l'.rest.length + 3
  rw [h.rest]

/-- parses of twins by grammars with the same delimiters -/
theorem Stream.Twin.parse_result {g g' : Grammar} {s s' : Stream} (h : s.Twin (g.Alike g') s')
    (hbudget : s.budget = s'.budget) (hclosing : ∀ use, g.closing? use = g'.closing? use)
    (hseparator : g.separator? = g'.separator?) (hend : Kind.ending ∉ g.kinds) (radix : Nat) :
    (∃ r, (Setting.parse ⟨g, radix⟩ s).result? = some r ∧
      (Setting.parse ⟨g', radix⟩ s').result? = some r) ∧
    ∀ m, ∃ r, (Setting.parseFrom ⟨g, radix⟩ m s).result? = some r ∧
      (Setting.parseFrom ⟨g', radix⟩ m s').result? = some r := by
  have hagree := Setting.agreeOn_alike hclosing hseparator radix
  obtain ⟨hfrom, hparse⟩ := Setting.finished ⟨g, radix⟩ hend s
  exact ⟨((Comparison.ofTwins hagree).parse_related h hbudget).result hparse,
    fun m => ((Comparison.ofTwins hagree).parseFrom_related h hbudget m).result (hfrom m)⟩

/-- **The modes agree on what they share.**  Over a text of shared characters, with `>` directly
behind `-` alone, lexers of the two modes with one radix give the same results.  In radices up to
ten, parses of the two modes with one radix for their numbers give the same expression or the same
error. -/
theorem modes_agree (g g' : Grammar) (config : Config) (text : List Char) (l : Lexer)
    (hg : Mode.scientific.grammar = .ok g) (hg' : Mode.programmer.grammar = .ok g')
    (hl : Lexer.new g .scientific config text = .ok l) (hs : SharedText l.source) :
    ∃ l', Lexer.new g' .programmer config text = .ok l' ∧
      (∀ n, (l.pull n).1 = (l'.pull n).1) ∧
      (config.radix ≤ 10 → ∀ radix,
        (∃ r, (Setting.parse ⟨g, radix⟩ (.ofLexer l)).result? = some r ∧
          (Setting.parse ⟨g', radix⟩ (.ofLexer l')).result? = some r) ∧
        ∀ threshold, ∃ r,
          (Setting.parseFrom ⟨g, radix⟩ threshold (.ofLexer l)).result? = some r ∧
          (Setting.parseFrom ⟨g', radix⟩ threshold (.ofLexer l')).result? = some r) := by
  obtain rfl : Mode.scientific.language = g := Except.ok.inj ((Mode.grammar_eq _).symm.trans hg)
  obtain rfl : Mode.programmer.language = g' := Except.ok.inj ((Mode.grammar_eq _).symm.trans hg')
  obtain ⟨radix, source, hradix, hsource, rfl⟩ := (Mode.new_eq_ok_iff _ _ _ _).mp hl
  have htwin : Lexer.Twin ⟨Mode.scientific.rules radix, source, 0⟩
      ⟨Mode.programmer.rules radix, source, 0⟩ := ⟨Mode.rules_agree radix, rfl, rfl, hs⟩
  refine ⟨⟨Mode.programmer.rules radix, source, 0⟩,
    (Mode.new_eq_ok_iff _ _ _ _).mpr ⟨radix, source, hradix, hsource, rfl⟩, fun n => ?_,
    fun hten r => ?_⟩
  · rw [Lexer.pull_eq_map, Lexer.pull_eq_map, funext htwin.result]
  · rw [← Radix.ofNat_eq_ok_iff.mp hradix] at hten
    have hstreams := Stream.Twin.ofLexer htwin.result
      (Mode.alike_of_result rfl hten (Nat.zero_le _) hs.chars)
    obtain ⟨hclosing, hseparator⟩ := Mode.sameDelimiters
    exact hstreams.parse_result htwin.budget hclosing hseparator
      (Mode.grammar_standard hg).noEnding r

/-- a call with an arrow, a fraction, a power, a mark and an array -/
def sharedSource : List Char := "f[a->-1.5,\t2^(3*k)' / \x7b7_8\x7d]".toList

theorem sharedSource_agree :
    Lexer.new Mode.scientific.language .scientific Config.whole sharedSource
      = .ok (Mode.scientific.lexer sharedSource) ∧
    SharedText sharedSource ∧
    ∃ l', Lexer.new Mode.programmer.language .programmer Config.whole sharedSource = .ok l' ∧
      ((Mode.scientific.lexer sharedSource).pull 24).1 = (l'.pull 24).1 ∧
      ∃ e,
        (Setting.parse ⟨Mode.scientific.language, 10⟩
          (.ofLexer (Mode.scientific.lexer sharedSource))).result? = some (.ok e) ∧
        (Setting.parse ⟨Mode.programmer.language, 10⟩ (.ofLexer l')).result? = some (.ok e) := by
  have hl := Mode.scientific.lexer_eq sharedSource
  have hchars : sharedSource.all sharedChars.contains = true := by decide +kernel
  have hs : SharedText sharedSource :=
    ⟨fun c hc => List.contains_iff_mem.mp (List.all_eq_true.mp hchars c hc), by decide +kernel,
      by decide +kernel⟩
  obtain ⟨l', hl', hpull, hparse⟩ :=
    modes_agree _ _ _ _ _ (Mode.grammar_eq .scientific) (Mode.grammar_eq .programmer) hl hs
  obtain ⟨⟨r, hr, hr'⟩, -⟩ := hparse (by decide) 10
  have hok : (Setting.parse ⟨Mode.scientific.language, 10⟩
      (.ofLexer (Mode.scientific.lexer sharedSource))).result?.any Except.isOk = true := by
    decide +kernel
  rw [hr] at hok
  cases r with
  | error e => cases hok
  | ok e => exact ⟨hl, hs, l', hl', hpull 24, e, hr, hr'⟩

end Calculator
