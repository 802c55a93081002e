import Calculator.Proofs.Token.Positions

/-!
# Lexing does not look behind the cursor

A lexer that has come to the `k`-th character of its source, through tokens and errors, is followed
by a fresh lexer over the text from there on.  Both see the same text ahead, so pull after pull they
give the same results, and the positions of the first one are `k` characters later.

* `Lexer.moved k r`         a result that stands `k` characters later;
* `Lexer.Resumes k l l'`    `l'` has the text of `l` from its `k`-th character on, and both are at
                            the same place of it;
* `Lexer.Resumes.next`      one pull from both;
* `Lexer.Resumes.pull`      all pulls;
* `Lexer.select_eq_ok_iff`  the ranges that can be selected;
* `pulls_from_cursor`       **pulls behind a cursor are those of a fresh lexer from there on.**
-/

namespace Calculator

namespace Lexer

/-! ## moved results -/

/-- the same result so many characters later -/
def moved (k : Nat) : Except Error Token → Except Error Token
  | .ok t => .ok { t with position := UInt32.ofNat k + t.position }
  | .error e => .error { e with position := UInt32.ofNat k + e.position }

theorem content_moved (k : Nat) (r : Except Error Token) : content (moved k r) = content r := by
  cases r with
  | ok t => rfl
  | error e => rfl

theorem position_moved (k : Nat) (r : Except Error Token) :
    position (moved k r) = UInt32.ofNat k + position r := by
  cases r with
  | ok t => rfl
  | error e => rfl

theorem placed_add (k start : Nat) (r : Except Cause (Kind × List Char)) :
    placed (k + start) r = moved k (placed start r) := by
  cases r with
  | ok p =>
    show Except.ok _ = Except.ok _
    rw [UInt32.ofNat_add]
  | error cause =>
    show Except.error _ = Except.error _
    rw [UInt32.ofNat_add]

/-! ## two lexers at one place -/

/-- the second lexer has the text of the first one from the `k`-th character on, and both stand at
the same place of it -/
structure Resumes (k : Nat) (l l' : Lexer) : Prop where
  rules : l.rules = l'.rules
  source : l'.source = l.source.drop k
  cursor : l.cursor = k + l'.cursor

namespace Resumes

variable {k : Nat} {l l' : Lexer} (h : Resumes k l l')
include h

theorem rest : l.rest = l'.rest := by
  unfold Lexer.rest
  rw [h.source, h.cursor, List.drop_drop]

theorem startOfNext : l.startOfNext = k + l'.startOfNext := by
  unfold Lexer.startOfNext Lexer.blanks
  rw [h.rest, h.rules, h.cursor, Nat.add_assoc]

/-- one pull: what it gives and how far it goes is decided by the text ahead -/
theorem next : l.next.1 = moved k l'.next.1 ∧ Resumes k l.next.2 l'.next.2 := by
  have hpull : l.next.1 = moved k l'.next.1 ∧ l.next.2.cursor = k + l'.next.2.cursor := by
    unfold Lexer.next
    rw [h.rest, h.rules, h.startOfNext]
    cases l'.rest.dropWhile l'.rules.grammar.isWhitespace with
    | nil =>
      refine ⟨?_, rfl⟩
      exact placed_add k l'.startOfNext (.ok (Kind.ending, []))
    | cons c cs => exact ⟨placed_add k _ _, Nat.add_assoc _ _ _⟩
  refine ⟨hpull.1, ?_, ?_, hpull.2⟩
  · rw [next_rules, next_rules, h.rules]
  · rw [next_source, next_source, h.source]

theorem pull (m : Nat) : (l.pull m).1 = (l'.pull m).1.map (moved k) := by
  induction m generalizing l l' with
  | zero => rfl
  | succ m ih =>
    obtain ⟨hfirst, hnext⟩ := h.next
    show l.next.1 :: (l.next.2.pull m).1 = moved k l'.next.1 :: (l'.next.2.pull m).1.map (moved k)
    rw [hfirst, ih hnext]

end Resumes

/-! ## ranges of a text -/

theorem select_eq_ok_iff {config : Config} {text source : List Char} :
    config.select text = .ok source ↔
      config.start ≤ config.stop.getD text.length ∧ config.stop.getD text.length ≤ text.length ∧
        (text.take (config.stop.getD text.length)).drop config.start = source := by
  unfold Config.select
  by_cases hrange : config.start ≤ config.stop.getD text.length ∧
      config.stop.getD text.length ≤ text.length
  · rw [if_pos hrange, Except.ok.injEq, and_iff_right hrange.1, and_iff_right hrange.2]
  · rw [if_neg hrange]
    constructor
    · intro h
      cases h
    · rintro ⟨hstart, hstop, -⟩
      exact absurd ⟨hstart, hstop⟩ hrange

theorem toNat_position_moved {l : Lexer} (h₀ : l.cursor ≤ l.source.length) {k : Nat}
    (hlen : k + l.source.length < 2 ^ 32) (j : Nat) :
    (position (moved k (l.result j))).toNat = k + (position (l.result j)).toNat := by
  have hpos := position_result h₀ (by omega) j
  have hle := start_le_length h₀ j
  have hword : k < 2 ^ 32 := by omega
  have hk : (UInt32.ofNat k).toNat = k := UInt32.toNat_ofNat_of_lt' hword
  rw [position_moved, UInt32.toNat_add, hk, hpos]
  exact Nat.mod_eq_of_lt (by omega)

end Lexer

/-- **Pulls behind a cursor are those of a fresh lexer from there on.**  Take any lexer over a part
of a text, after any number of pulls that gave tokens or errors, its cursor at `k`.  A fresh lexer
with the same settings can be made over the range from `k` to the end of the source; it is the one
over the part of the text that starts `k` later.  All further pulls give what the fresh lexer gives,
moved by `k`, and no position passes the largest word. -/
theorem pulls_from_cursor (g : Grammar) (mode : Mode) (config : Config) (text : List Char)
    (l : Lexer) (hl : Lexer.new g mode config text = .ok l) (hlen : l.source.length < 2 ^ 32)
    (n : Nat) :
    let k := (l.pull n).2.cursor
    ∃ fresh : Lexer,
      Lexer.new g mode ⟨k, some l.source.length, config.radix⟩ l.source = .ok fresh ∧
      Lexer.new g mode ⟨config.start + k, some (config.stop.getD text.length), config.radix⟩ text
        = .ok fresh ∧
      (∀ m, ((l.pull n).2.pull m).1 = (fresh.pull m).1.map (Lexer.moved k)) ∧
      ∀ m, ∀ r ∈ (fresh.pull m).1,
        Lexer.content (Lexer.moved k r) = Lexer.content r ∧
        (Lexer.position (Lexer.moved k r)).toNat = k + (Lexer.position r).toNat := by
  intro k
  obtain ⟨h₀, -⟩ := Lexer.new_eq_ok hl
  obtain ⟨hstart, hstop, hsource⟩ := Lexer.select_eq_ok_iff.mp (Lexer.source_of_new hl)
  have hk : k ≤ l.source.length := l.after_cursor_le (by omega) n
  have hsize : l.source.length = config.stop.getD text.length - config.start := by
    rw [← hsource, List.length_drop, List.length_take, Nat.min_eq_left hstop]
  refine ⟨⟨l.rules, l.source.drop k, 0⟩, ?_, ?_, ?_, ?_⟩
  · refine Lexer.new_of_select hl rfl (Lexer.select_eq_ok_iff.mpr ⟨hk, Nat.le_refl _, ?_⟩)
    show (l.source.take l.source.length).drop k = l.source.drop k
    rw [List.take_length]
  · refine Lexer.new_of_select hl rfl (Lexer.select_eq_ok_iff.mpr ⟨?_, hstop, ?_⟩)
    · show config.start + k ≤ config.stop.getD text.length
      omega
    · show (text.take (config.stop.getD text.length)).drop (config.start + k) = l.source.drop k
      rw [← List.drop_drop, hsource]
  · have hresumes : Lexer.Resumes k (l.after n) ⟨l.rules, l.source.drop k, 0⟩ :=
      ⟨l.after_rules n, by rw [l.after_source n], rfl⟩
    exact hresumes.pull
  · intro m r hr
    obtain ⟨j, -, rfl⟩ := Lexer.mem_pull_iff.mp hr
    refine ⟨Lexer.content_moved k _, Lexer.toNat_position_moved (Nat.zero_le _) ?_ j⟩
    show k + (l.source.drop k).length < 2 ^ 32
    rw [List.length_drop]
    omega

/-- a numeral whose suffix is no radix, and more behind it -/
def faultyLexer : Lexer := Mode.scientific.lexer " 12_99 + a1.5E-2".toList

theorem faultyLexer_resumed :
    Lexer.new Mode.scientific.language .scientific Config.whole " 12_99 + a1.5E-2".toList
      = .ok faultyLexer ∧
    faultyLexer.source.length < 2 ^ 32 ∧ (faultyLexer.pull 1).2.cursor = 6 ∧
    (faultyLexer.pull 1).1.map (fun r => (Lexer.content r).toOption) = [none] ∧
    ∃ fresh : Lexer,
      Lexer.new Mode.scientific.language .scientific ⟨6, some 16, 10⟩ " 12_99 + a1.5E-2".toList
        = .ok fresh ∧
      ((faultyLexer.pull 1).2.pull 4).1 = (fresh.pull 4).1.map (Lexer.moved 6) := by
  have hl : Lexer.new Mode.scientific.language .scientific Config.whole " 12_99 + a1.5E-2".toList
      = .ok faultyLexer := Mode.scientific.lexer_eq _
  have hlen : faultyLexer.source.length < 2 ^ 32 := by decide
  have hcursor : (faultyLexer.pull 1).2.cursor = 6 := by decide +kernel
  obtain ⟨fresh, hnew, -, hpull, -⟩ := pulls_from_cursor _ _ _ _ _ hl hlen 1
  rw [hcursor] at hnew hpull
  exact ⟨hl, hlen, hcursor, by decide +kernel, fresh, hnew, hpull 4⟩

end Calculator
