import Calculator.Proofs.Climb.Soundness
import Calculator.Proofs.Grammar.Builtin
import Calculator.Proofs.Token.Pieces

/-!
# What a whole parse leaves unread

A parse succeeds in front of an ending token, and a token ends the stream by its kind alone.  The
lexer gives such a token once its source is used up; but a grammar may also give its names the
ending kind, and then a name or numeral behind the expression ends the parse as well, and all that
follows it is not read.

* `Lexer.NothingLeft l n stop`   after `n` tokens there is nothing but blanks, and `stop` is the
                                 token of the used-up source;
* `Lexer.nothingLeft_iff`        this is so unless `stop` has a lexeme, as only a word can end a
                                 stream with one;
* `parse_leaves_nothing_iff`     a successful parse leaves nothing, except in front of a word of the
                                 ending kind.
-/

namespace Calculator

namespace Lexer

/-- what was lexed first is all there is: the token behind it is the one of a source that is used
up, and every character is blank or in one of the first `n` pieces -/
structure NothingLeft (l : Lexer) (n : Nat) (stop : Token) : Prop where
  atEnd : (l.after (n + 1)).cursor = l.source.length
  stop_eq : stop = endingAt l.source.length
  covers : ∀ i c, l.source[i]? = some c → l.rules.grammar.isWhitespace c = false → l.Covers n i

variable {l : Lexer}

theorem covers_of_startOfNext (h₀ : l.cursor = 0) {n : Nat}
    (h : (l.after n).startOfNext = l.source.length) {i : Nat} {c : Char}
    (hc : l.source[i]? = some c) (hw : l.rules.grammar.isWhitespace c = false) : l.Covers n i := by
  have hi : i < l.source.length := (List.getElem?_eq_some_iff.mp hc).1
  by_cases hcur : i < (l.after n).cursor
  · rcases l.covered h₀ n hc hcur with hw' | hcov
    · rw [hw] at hw'
      cases hw'
    · exact hcov
  · exfalso
    have hblank := isWhitespace_of_blank (l.after n) (i := i) (c := c)
      (by rw [after_source]; exact hc) (by omega) (by omega)
    rw [after_rules, hw] at hblank
    cases hblank

/-- nothing is left behind a token that ends the stream, unless it is a word -/
theorem nothingLeft_iff (h₀ : l.cursor = 0) {n : Nat} {stop : Token}
    (h : (l.after n).next.1 = .ok stop) (hstop : stop.isEnding = true) :
    l.NothingLeft n stop ↔ ¬ (l.rules.nameKind = Kind.ending ∧ stop.lexeme ≠ []) := by
  have hcur : (l.after n).cursor ≤ (l.after n).source.length := by
    rw [after_source]
    exact l.after_cursor_le (by omega) n
  have hkind : stop.kind = Kind.ending := of_decide_eq_true hstop
  constructor
  · rintro ⟨-, rfl, -⟩ ⟨-, hne⟩
    exact hne rfl
  · intro hnot
    rcases next_ok hcur (show (l.after n).next = (.ok stop, (l.after n).next.2) by rw [← h]) with
      ⟨hstart, hend, hafter⟩ | ⟨hword, hne⟩ | ⟨hname, -, -⟩
    · rw [after_source] at hstart hend hafter
      refine ⟨?_, hend, fun i c hc hw => covers_of_startOfNext h₀ hstart hc hw⟩
      rw [after_succ, hafter]
    · rw [after_rules, hkind] at hword
      exact absurd ⟨hword.symm, hne⟩ hnot
    · rw [hkind] at hname
      exact absurd rfl hname

end Lexer

/-- **A successful parse leaves nothing unread, except in front of a word of the ending kind.**  In
any grammar, with either lexer over any part of any text, a fresh parse that succeeds took tokens
`ts` with the kinds of its expression and waits in front of a token `stop`.  The source is used up
and `stop` is its end, so that all characters but blanks are in pieces of `ts`, if and only if it is
not so that names have the ending kind and `stop` has a lexeme. -/
theorem parse_leaves_nothing_iff (g : Grammar) (mode : Mode) (config : Config) (text : List Char)
    (l : Lexer) (radix : Nat) (e : Expr) (after : Stream)
    (hl : Lexer.new g mode config text = .ok l)
    (h : Setting.parse ⟨g, radix⟩ (Stream.ofLexer l) = .done e after) :
    ∃ (ts : List Token) (stop : Token),
      (l.pull (ts.length + 1)).1 = ts.map Except.ok ++ [Except.ok stop] ∧
      ts.map Token.kind = e.inOrder Token.kind g.kindMarks ∧
      after = ⟨[stop], l.after (ts.length + 1)⟩ ∧
      (l.NothingLeft ts.length stop ↔
        ¬ (g.nameKind = some Kind.ending ∧ stop.lexeme ≠ [])) := by
  obtain ⟨hcursor, -, -, hname, -⟩ := Lexer.new_eq_ok hl
  obtain ⟨ts, behind, stop, hpop, hpeek, hstop, hr⟩ := Setting.parse_reads h
  obtain ⟨hpull, rfl⟩ := (Stream.popMany_ofLexer l ts.length ts behind).mp hpop
  obtain ⟨hnext, rfl⟩ := Stream.peek_ofLexer hpeek
  refine ⟨ts, stop, ?_, Expr.kinds_of_spelled hr.spelled, ?_, ?_⟩
  · rw [Lexer.pull_succ, hpull, hnext]
  · rw [Lexer.after_succ]
  · rw [Lexer.nothingLeft_iff hcursor hnext hstop, hname, Option.some_inj]

/-- blanks between and behind the parts of a call are passed over -/
theorem spaced_call_leaves_nothing :
    ∃ (e : Expr) (ts : List Token) (stop : Token),
      Lexer.new Mode.scientific.language .scientific Config.whole "f[a, b] ".toList
        = .ok (Mode.scientific.lexer "f[a, b] ".toList) ∧
      Setting.parse ⟨Mode.scientific.language, 10⟩
          (Stream.ofLexer (Mode.scientific.lexer "f[a, b] ".toList))
        = .done e ⟨[stop], (Mode.scientific.lexer "f[a, b] ".toList).after (ts.length + 1)⟩ ∧
      e.text = "(call f a b)".toList ∧
      ts.map Token.kind = e.inOrder Token.kind Mode.scientific.language.kindMarks ∧
      (Mode.scientific.lexer "f[a, b] ".toList).NothingLeft ts.length stop := by
  have hl := Mode.scientific.lexer_eq "f[a, b] ".toList
  have htext : (Setting.parse ⟨Mode.scientific.language, 10⟩
      (Stream.ofLexer (Mode.scientific.lexer "f[a, b] ".toList))).value?.map Expr.text
      = some "(call f a b)".toList := by decide +kernel
  obtain ⟨e, after, he, htext⟩ := Outcome.exists_done htext
  obtain ⟨ts, stop, -, hkinds, rfl, hiff⟩ := parse_leaves_nothing_iff _ _ _ _ _ 10 e after hl he
  refine ⟨e, ts, stop, hl, he, htext, hkinds, hiff.mpr ?_⟩
  rintro ⟨hending, -⟩
  rw [(Mode.grammar_standard (Mode.grammar_eq .scientific)).words] at hending
  cases hending

/-! ## names of the ending kind -/

/-- a language of two names, which have the ending kind -/
def endingNames : List Registration :=
  [.whitespace ' ', .letter 'a', .letter 'b', .kind Kind.ending, .nameKind Kind.ending,
    .prefixRole Kind.ending .leaf]

def twoNames : Lexer :=
  ⟨⟨Draft.grammarOf false endingNames, .scientific, Kind.ending, Radix.ten⟩, "a b".toList, 0⟩

/-- the first name is parsed, and the second one is lost -/
theorem second_name_lost :
    Draft.build false endingNames = .ok (Draft.grammarOf false endingNames) ∧
    Lexer.new (Draft.grammarOf false endingNames) .scientific Config.whole "a b".toList
      = .ok twoNames ∧
    ∃ (e : Expr) (stop : Token),
      Setting.parse ⟨Draft.grammarOf false endingNames, 10⟩ (Stream.ofLexer twoNames)
        = .done e ⟨[stop], twoNames.after 2⟩ ∧
      e.text = ['a'] ∧ stop.lexeme = ['b'] ∧ twoNames.source[2]? = some 'b' ∧
      twoNames.rules.grammar.isWhitespace 'b' = false ∧ ¬ twoNames.Covers 1 2 ∧
      stop ≠ Lexer.endingAt twoNames.source.length := by
  refine ⟨rfl, rfl, .name ⟨Kind.ending, ['a'], 0⟩, ⟨Kind.ending, ['b'], 2⟩, rfl, rfl, rfl,
    rfl, rfl, ?_, ?_⟩
  · rintro ⟨k, hk, -, hlt⟩
    obtain rfl : k = 0 := by omega
    exact absurd hlt (by decide)
  · intro h
    cases congrArg Token.lexeme h

end Calculator
