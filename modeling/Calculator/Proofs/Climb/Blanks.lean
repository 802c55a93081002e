import Calculator.Proofs.Climb.Enough
import Calculator.Proofs.Climb.Lockstep
import Calculator.Proofs.Grammar.Registry
import Calculator.Proofs.Token.Respaced

/-!
# Blanks between tokens do not change an expression

Blanks at the cursors between the pulls of a lexer leave all its results as they were, up to
positions, so the streams of the two lexers have the same row ahead and parses of them go in step.
The longer text has the larger budget of steps, but neither budget ever cuts a parse short: what one
parse finishes the other one finishes too.

* `Rules.blanksApart_of_assembled`   blanks are no part of a piece in an assembled grammar whose
                            kinds have no blanks in their names;
* `Lexer.new_setSource`     the lexer over another text is the one that would be made for it;
* `Setting.parse_alike`     lexers with the same results at their start are parsed in the same way;
* `blanks_between_pulls`    the whole statement.
-/

namespace Calculator

theorem Rules.blanksApart_of_assembled {ρ : Rules} (hg : ρ.grammar.Assembled)
    (hnames : ∀ k ∈ ρ.grammar.kinds, ∀ c ∈ k.name, ρ.grammar.isWhitespace c = false) :
    ρ.BlanksApart where
  letters := fun c hw => (hg.apart.whitespace c hw).1
  digits := fun c hw => (hg.apart.whitespace c hw).2
  blank := fun _ hw => hg.isBlank_of_isWhitespace hw
  names := hnames

theorem Lexer.new_setSource {g : Grammar} {mode : Mode} {config : Config} {text : List Char}
    {l : Lexer} (h : Lexer.new g mode config text = .ok l) (text' : List Char) :
    Lexer.new g mode ⟨0, none, config.radix⟩ text' = .ok (l.setSource text') :=
  Lexer.new_of_select h rfl (Config.select_whole _ text')

namespace Setting

open Outcome (Alike)

variable (σ : Setting) {l l' : Lexer} (h₀ : l.cursor = 0) (h₀' : l'.cursor = 0)
  (h : ∀ n, Lexer.content (l.result n) = Lexer.content (l'.result n))
include h₀ h₀' h

/-- each parse has its own budget, and finishes with the budget of the other one if that one does -/
theorem parseFrom_alike {m : Int} (hm : 0 ≤ m) :
    Alike Expr.same (σ.parseFrom m (.ofLexer l)) (σ.parseFrom m (.ofLexer l')) := by
  have hrun (n : Nat) := (σ.run_alike n).1 m (.ofLexer l) (.ofLexer l') (funext h)
  by_cases hfirst : σ.parseFrom m (.ofLexer l) = .unfinished
  · have hsecond : σ.parseAt (Stream.ofLexer l').budget m (.ofLexer l) = .unfinished := by
      refine Classical.byContradiction fun hn => hn ?_
      rw [← σ.parseFrom_eq h₀ hm hn, hfirst]
    have halike := hrun (Stream.ofLexer l').budget
    rw [hsecond] at halike
    rw [hfirst]
    exact halike
  · have halike := hrun (Stream.ofLexer l).budget
    rw [σ.parseFrom_eq h₀' hm fun hn => hfirst (halike.unfinished_iff.mpr hn)]
    exact halike

theorem parse_alike :
    Alike Expr.same (σ.parse (.ofLexer l)) (σ.parse (.ofLexer l')) := by
  refine (σ.parseFrom_alike h₀ h₀' h (Int.le_refl 0)).bind fun e e' s s' he hs => ?_
  refine (Stream.peek_alike hs).bind fun t t' s₁ s₁' ht hs₁ => ?_
  unfold Token.isEnding
  rw [Token.kind_of_same ht]
  split
  · exact .done he hs₁
  · exact .failed (congrArg Cause.unparseableToken (Token.lexeme_of_same ht))

end Setting

/-- **Blanks between pulls do not matter.**  Take any assembled grammar with a kind of names in
which no kind has a whitespace character in its name, either mode, any radix and any part of any
text, and put whitespace at the cursors between pulls.  A lexer over the new text gives the same
results, up to positions.  A parse is unfinished only if no number of steps finishes it; and parses
of both texts are both unfinished, or give the same expression, or fail for the same cause. -/
theorem blanks_between_pulls (g : Grammar) (mode : Mode) (config : Config) (text : List Char)
    (l : Lexer) (gaps : List (List Char)) (hg : g.Assembled)
    (hl : Lexer.new g mode config text = .ok l)
    (hnames : ∀ k ∈ g.kinds, ∀ c ∈ k.name, g.isWhitespace c = false)
    (hgaps : ∀ gap ∈ gaps, ∀ c ∈ gap, g.isWhitespace c = true) :
    ∃ l', Lexer.new g mode ⟨0, none, config.radix⟩ (l.respaced gaps) = .ok l' ∧
      (∀ n, (l'.pull n).1.map Lexer.content = (l.pull n).1.map Lexer.content) ∧
      ∀ radix, (∀ s ∈ [Stream.ofLexer l, Stream.ofLexer l'],
          Setting.parse ⟨g, radix⟩ s = .unfinished ↔
            ∀ n, Setting.parseAt ⟨g, radix⟩ n 0 s = .unfinished) ∧
        Outcome.Alike Expr.same (Setting.parse ⟨g, radix⟩ (.ofLexer l))
          (Setting.parse ⟨g, radix⟩ (.ofLexer l')) := by
  obtain ⟨h₀, rfl, -⟩ := Lexer.new_eq_ok hl
  have hresult := Lexer.result_respaced (Rules.blanksApart_of_assembled hg hnames) gaps hgaps
  refine ⟨_, Lexer.new_setSource hl _, fun n => ?_, fun radix => ⟨?_, ?_⟩⟩
  · rw [Lexer.pull_eq_map, Lexer.pull_eq_map, List.map_map, List.map_map]
    exact List.map_congr_left fun k _ => hresult k
  · refine List.forall_mem_cons.mpr ⟨Setting.parse_eq_unfinished_iff _ h₀, ?_⟩
    exact List.forall_mem_singleton.mpr (Setting.parse_eq_unfinished_iff _ rfl)
  · exact Setting.parse_alike _ h₀ rfl fun n => (hresult n).symm

/-- a sum and a call around an arrow, without a blank -/
def arrowLexer : Lexer := Mode.scientific.lexer "a+1.5E+2->f[b]".toList

/-- blanks before the first pull, behind the last one and at some cursors between -/
def arrowGaps : List (List Char) :=
  ["  ", "\t", "", "\n", "", "", "", " ", "\r\n"].map String.toList

theorem arrow_respaced :
    Mode.scientific.language.Assembled ∧
    (∀ k ∈ Mode.scientific.language.kinds, ∀ c ∈ k.name,
      Mode.scientific.language.isWhitespace c = false) ∧
    (∀ gap ∈ arrowGaps, ∀ c ∈ gap, Mode.scientific.language.isWhitespace c = true) ∧
    arrowLexer.respaced arrowGaps = "  a\t+1.5E+2\n->f[b ]\r\n".toList ∧
    ∃ l' e after e' after', Lexer.new Mode.scientific.language .scientific Config.whole
        (arrowLexer.respaced arrowGaps) = .ok l' ∧
      Setting.parse ⟨Mode.scientific.language, 10⟩ (.ofLexer arrowLexer) = .done e after ∧
      Setting.parse ⟨Mode.scientific.language, 10⟩ (.ofLexer l') = .done e' after' ∧
      e.text = "(-> (+ a 1.5e+2) (call f b))".toList ∧ e.same e' = true := by
  have hg := Grammar.assembled_of_build (Mode.grammar_eq .scientific)
  obtain ⟨hnames, hgaps, hrespaced, htext⟩ :
      (Mode.scientific.language.kinds.all fun k =>
        k.name.all fun c => !Mode.scientific.language.isWhitespace c) = true ∧
      (arrowGaps.all fun gap => gap.all Mode.scientific.language.isWhitespace) = true ∧
      arrowLexer.respaced arrowGaps = "  a\t+1.5E+2\n->f[b ]\r\n".toList ∧
      (Setting.parse ⟨Mode.scientific.language, 10⟩ (.ofLexer arrowLexer)).value?.map Expr.text
        = some "(-> (+ a 1.5e+2) (call f b))".toList := by decide +kernel
  simp only [List.all_eq_true, Bool.not_eq_true'] at hnames hgaps
  obtain ⟨e, after, he, htext⟩ := Outcome.exists_done htext
  have hl : Lexer.new Mode.scientific.language .scientific Config.whole "a+1.5E+2->f[b]".toList
      = .ok arrowLexer := Mode.scientific.lexer_eq _
  obtain ⟨l', hl', -, hparse⟩ := blanks_between_pulls _ _ _ _ _ arrowGaps hg hl hnames hgaps
  have halike := (hparse 10).2
  rw [he] at halike
  generalize hsecond : Setting.parse ⟨Mode.scientific.language, 10⟩ (.ofLexer l') = o at halike
  cases halike with
  | done hsame _ =>
    exact ⟨hg, hnames, hgaps, hrespaced, l', e, after, _, _, hl', he, hsecond, htext, hsame⟩

end Calculator
