import Calculator.Proofs.Token.Tiles

/-!
# What a stream is going to give

The waiting tokens of a stream and the pulls of the lexer behind them make one endless row of
results.  A parser sees of a stream only this row, and where its results stand.

* `Stream.ahead s i`      what the `i`-th next token or error says, wherever it stands;
* `Stream.peek_gives`     looking at a token gives the first one of the row and leaves the row;
* `Stream.pop_gives`      taking a token takes the first one off the row;
* `Stream.EndsBy s j`     from the `j`-th next result on there are only ending tokens;
* `Stream.endsBy_ofLexer` a lexer at its start comes to its end within one pull for each character.
-/

namespace Calculator

namespace Stream

/-- what waiting tokens and the pulls behind them say -/
def row : List Token → Lexer → Nat → Except Cause (Kind × List Char)
  | [], l, i => Lexer.content (l.result i)
  | t :: _, _, 0 => .ok t.key
  | _ :: ts, l, i + 1 => row ts l i

/-- what the `i`-th next token or error says -/
def ahead (s : Stream) : Nat → Except Cause (Kind × List Char) := row s.waiting s.lexer

theorem ahead_ofLexer (l : Lexer) (i : Nat) :
    (ofLexer l).ahead i = Lexer.content (l.result i) := rfl

theorem row_next {l l' : Lexer} {t : Token} (h : l.next = (.ok t, l')) : row [t] l' = row [] l := by
  funext i
  cases i with
  | zero =>
    show .ok t.key = Lexer.content l.next.1
    rw [h]
    rfl
  | succ i =>
    show Lexer.content (l'.result i) = Lexer.content (l.next.2.result i)
    rw [h]

end Stream

/-- what was read is this result, and behind a token this row is ahead -/
def Outcome.Gives (r : Except Cause (Kind × List Char))
    (row : Nat → Except Cause (Kind × List Char)) : Outcome Token → Prop
  | .done t s => r = .ok t.key ∧ s.ahead = row
  | .failed e _ => r = .error e.cause
  | .unfinished => False

theorem Outcome.Gives.exists_token {key : Kind × List Char}
    {row : Nat → Except Cause (Kind × List Char)} {o : Outcome Token} (h : o.Gives (.ok key) row) :
    ∃ t s, o = .done t s ∧ t.key = key := by
  cases o with
  | done t s => exact ⟨t, s, rfl, (Except.ok.inj h.1).symm⟩
  | failed e s => cases h
  | unfinished => cases h

namespace Stream

theorem peek_gives (s : Stream) : s.peek.Gives (s.ahead 0) s.ahead := by
  obtain ⟨waiting, l⟩ := s
  cases waiting with
  | cons t ts => exact ⟨rfl, rfl⟩
  | nil =>
    have hrow : ahead ⟨[], l⟩ 0 = Lexer.content l.next.1 := rfl
    unfold peek
    cases hn : l.next with
    | mk r l' =>
      rw [hn] at hrow
      cases r with
      | ok t => exact ⟨hrow, row_next hn⟩
      | error e => exact hrow

theorem pop_gives (s : Stream) : s.pop.Gives (s.ahead 0) (fun i => s.ahead (i + 1)) := by
  obtain ⟨waiting, l⟩ := s
  cases waiting with
  | cons t ts => exact ⟨rfl, rfl⟩
  | nil =>
    have hrow : ahead ⟨[], l⟩ 0 = Lexer.content l.next.1 := rfl
    unfold pop
    cases hn : l.next with
    | mk r l' =>
      rw [hn] at hrow
      cases r with
      | ok t => exact ⟨hrow, funext fun i => congrFun (row_next hn) (i + 1)⟩
      | error e => exact hrow

theorem ahead_of_peek {s s' : Stream} {t : Token} (h : s.peek = .done t s') :
    s.ahead 0 = .ok t.key ∧ s'.ahead = s.ahead := by
  have hgives := s.peek_gives
  rw [h] at hgives
  exact hgives

theorem ahead_of_pop {s s' : Stream} {t : Token} (h : s.pop = .done t s') :
    s.ahead 0 = .ok t.key ∧ s'.ahead = fun i => s.ahead (i + 1) := by
  have hgives := s.pop_gives
  rw [h] at hgives
  exact hgives

/-! ## streams that come to an end -/

/-- from the `j`-th next result on there are only ending tokens -/
def EndsBy (s : Stream) (j : Nat) : Prop := ∀ i, j ≤ i → s.ahead i = .ok (Kind.ending, [])

theorem EndsBy.mono {s : Stream} {i j : Nat} (h : s.EndsBy i) (hij : i ≤ j) : s.EndsBy j :=
  fun k hk => h k (Nat.le_trans hij hk)

theorem EndsBy.peek {s s' : Stream} {t : Token} {j : Nat} (h : s.EndsBy j)
    (hp : s.peek = .done t s') : s'.EndsBy j := by
  intro i hi
  rw [(ahead_of_peek hp).2]
  exact h i hi

theorem EndsBy.pop {s s' : Stream} {t : Token} {j : Nat} (h : s.EndsBy (j + 1))
    (hp : s.pop = .done t s') : s'.EndsBy j := by
  intro i hi
  rw [(ahead_of_pop hp).2]
  exact h (i + 1) (Nat.succ_le_succ hi)

theorem EndsBy.peek_spent {s : Stream} (h : s.EndsBy 0) :
    ∃ t s', s.peek = .done t s' ∧ t.kind = Kind.ending ∧ s'.EndsBy 0 := by
  have hgives := s.peek_gives
  rw [h 0 (Nat.le_refl 0)] at hgives
  obtain ⟨t, s', hp, hkey⟩ := hgives.exists_token
  exact ⟨t, s', hp, congrArg Prod.fst hkey, h.peek hp⟩

theorem EndsBy.pop_spent {s : Stream} (h : s.EndsBy 0) :
    ∃ t s', s.pop = .done t s' ∧ t.kind = Kind.ending ∧ s'.EndsBy 0 := by
  have hgives := s.pop_gives
  rw [h 0 (Nat.le_refl 0)] at hgives
  obtain ⟨t, s', hp, hkey⟩ := hgives.exists_token
  exact ⟨t, s', hp, congrArg Prod.fst hkey, (h.mono (Nat.zero_le 1)).pop hp⟩

/-- a lexer at its start comes to its end within one pull for each character -/
theorem endsBy_ofLexer {l : Lexer} (h₀ : l.cursor = 0) : (ofLexer l).EndsBy l.rest.length := by
  have hcur : l.cursor ≤ l.source.length := by omega
  have hrest : l.rest.length = l.source.length := by
    unfold Lexer.rest
    rw [h₀, List.drop_zero]
  obtain ⟨n, hn, hstart⟩ := Lexer.exists_ended hcur
  intro i hi
  rw [hrest] at hi
  have hended := Lexer.ended hcur hstart i (Nat.le_trans hn hi)
  rw [ahead_ofLexer, (Lexer.ended_step hcur hended).1]
  rfl

end Stream
end Calculator
