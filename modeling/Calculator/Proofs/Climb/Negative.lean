import Calculator.Proofs.Climb.Bounded
import Calculator.Proofs.Climb.Enough

/-!
# Negative thresholds never succeed

No token binds with a negative strength, so below zero every token binds tighter than the threshold
and the loop of `climb` has no end of its own: it goes on until something fails.  If every infix
role has a positive strength, this is the first token that stops the loop at threshold 0.  Up to
that token both loops do the same; there the one at a negative threshold takes it for an operator,
and it is none.

* `Outcome.FailsAt o s`        `o` is the failure of the next token of `s` to be an operator;
* `Setting.parseAt_negative`   there is no expression above a negative threshold;
* `Setting.climb_negative`     the loop fails at the token where it stops at threshold 0;
* `negative_threshold_fails`   both, for parses of any stream.
-/

namespace Calculator

/-- the next token of the stream was taken for an operator and is none, unless the steps were used
up before -/
def Outcome.FailsAt (o : Outcome Expr) (s : Stream) : Prop :=
  o = .unfinished ∨ ∃ next behind, s.pop = .done next behind ∧ o = .failed (.misplaced next) behind

namespace Setting

variable {σ : Setting} {m : Int} (hm : m < 0)

theorem strength_nonneg (σ : Setting) (k : Kind) : 0 ≤ σ.strength k := by
  unfold strength
  split
  · exact Int.le_refl 0
  · exact k.precedence.strength_nonneg

theorem infixRole?_of_strength (hidle : ∀ k, k.strength = 0 → σ.grammar.infixRole? k = none)
    {k : Kind} (h : ¬ 0 < σ.strength k) : σ.grammar.infixRole? k = none := by
  cases hr : σ.grammar.infixRole? k with
  | none => rfl
  | some role =>
    rw [strength_of_infixRole hr] at h
    have hk : k.strength = 0 := Int.le_antisymm (Int.not_lt.mp h) k.precedence.strength_nonneg
    rw [hidle k hk] at hr
    cases hr

theorem climb_done {n : Nat} {left e : Expr} {s after : Stream}
    (h : σ.climb n m left s = .done e after) :
    ∃ t s₁, s.peek = .done t s₁ ∧
      ((m < σ.strength t.kind ∧ σ.climbOn m left n s₁ = .done e after) ∨
        (¬ m < σ.strength t.kind ∧ left = e ∧ s₁ = after)) := by
  rw [climb_eq] at h
  obtain ⟨tighter, s₁, hb, h⟩ := Outcome.bind_eq_done.mp h
  obtain ⟨t, hp, ht⟩ := bindsTighter_peeks hb
  refine ⟨t, s₁, hp, ?_⟩
  cases tighter with
  | true => exact .inl ⟨of_decide_eq_true ht.symm, h⟩
  | false =>
    cases h
    exact .inr ⟨of_decide_eq_false ht.symm, rfl, rfl⟩

include hm

/-- the token behind an expression above a negative threshold would have a negative strength -/
theorem parseAt_negative (n : Nat) (s : Stream) (e : Expr) (after : Stream) :
    σ.parseAt n m s ≠ .done e after := by
  intro h
  obtain ⟨ts, next, -, -, -, hn⟩ := (run_read n).1 m s e after h
  exact absurd (Int.lt_of_le_of_lt hn hm) (Int.not_lt.mpr (σ.strength_nonneg next.kind))

theorem bindsTighter_negative {t : Token} {s s' : Stream} (h : s.peek = .done t s') :
    σ.bindsTighter m s = .done true s' := by
  unfold bindsTighter
  rw [h, Outcome.bind_done, decide_eq_true (Int.lt_of_lt_of_le hm (σ.strength_nonneg t.kind))]

theorem climb_goesOn {t : Token} {s s' : Stream} (h : s.peek = .done t s') (n : Nat) (left : Expr) :
    σ.climb n m left s = σ.climbOn m left n s' := by
  rw [climb_eq, bindsTighter_negative hm h, Outcome.bind_done, if_pos rfl]

section
variable (hidle : ∀ k, k.strength = 0 → σ.grammar.infixRole? k = none)
include hidle

theorem climb_stop {t : Token} {s s' : Stream} (hp : s.peek = .done t s')
    (ht : ¬ 0 < σ.strength t.kind) (n : Nat) (left : Expr) : (σ.climb n m left s).FailsAt s' := by
  rw [climb_goesOn hm hp]
  cases n with
  | zero => exact .inl rfl
  | succ n =>
    obtain ⟨hpop, behind, hbehind⟩ := Stream.pop_of_peek hp
    rw [← hpop] at hbehind
    refine .inr ⟨t, behind, hbehind, ?_⟩
    rw [climbOn, hbehind, Outcome.bind_done]
    unfold extend
    rw [infixRole?_of_strength hidle ht]
    rfl

/-- the loop at a negative threshold goes as far as the loop at threshold 0 -/
theorem climb_negative (n : Nat) {left e : Expr} {s after : Stream}
    (h : σ.climb n 0 left s = .done e after) : (σ.climb n m left s).FailsAt after := by
  induction n generalizing left s with
  | zero =>
    obtain ⟨t, s₁, hp, ⟨ht, h⟩ | ⟨ht, rfl, rfl⟩⟩ := climb_done h
    · cases h
    · exact climb_stop hm hidle hp ht 0 _
  | succ n ih =>
    obtain ⟨t, s₁, hp, ⟨ht, h⟩ | ⟨ht, rfl, rfl⟩⟩ := climb_done h
    · obtain ⟨u, s₂, hpop, h⟩ := Outcome.bind_eq_done.mp h
      obtain ⟨left', s₃, hextend, h⟩ := Outcome.bind_eq_done.mp h
      rw [climb_goesOn hm hp, climbOn, hpop, Outcome.bind_done, hextend, Outcome.bind_done]
      exact ih h
    · exact climb_stop hm hidle hp ht (n + 1) _

theorem parseAt_negative_of_zero (n : Nat) {e : Expr} {s after : Stream}
    (h : σ.parseAt n 0 s = .done e after) : (σ.parseAt n m s).FailsAt after := by
  cases n with
  | zero =>
    rw [parseAt] at h
    cases h
  | succ n =>
    rw [parseAt] at h ⊢
    obtain ⟨t, s₁, hpop, h⟩ := Outcome.bind_eq_done.mp h
    obtain ⟨left, s₂, hoperand, h⟩ := Outcome.bind_eq_done.mp h
    rw [hpop, Outcome.bind_done, hoperand, Outcome.bind_done]
    exact climb_negative hm hidle n h

end

end Setting

theorem Stream.Takes.popMany_next {s after behind : Stream} {ts : List Token} {next : Token}
    (h : s.Takes ts after) (hnext : after.pop = .done next behind) :
    s.popMany (ts ++ [next]).length = .done (ts ++ [next]) behind := by
  obtain ⟨s', hpop, hpeeked⟩ := h
  rw [hpeeked.pop_eq] at hnext
  exact popMany_append hpop (popMany_cons hnext (popMany_zero behind))

/-- **Negative thresholds never succeed.**  In a grammar without the ending kind, from any stream, a
parse above a negative threshold fails.  If moreover no kind of strength 0 has an infix role, and
above threshold 0 the stream gives an expression, then the parse takes the tokens of this expression
and the token behind them, which may be the ending token, and fails with that token's lexeme and
position. -/
theorem negative_threshold_fails (σ : Setting) (s : Stream) (m : Int)
    (hend : Kind.ending ∉ σ.grammar.kinds) (hm : m < 0) :
    (∃ error behind, σ.parseFrom m s = .failed error behind) ∧
    ((∀ k, k.strength = 0 → σ.grammar.infixRole? k = none) →
      ∀ e after, σ.parseFrom 0 s = .done e after →
        ∃ ts next behind, e.Spelled σ.grammar ts ∧
          s.popMany (ts ++ [next]).length = .done (ts ++ [next]) behind ∧
          after.pop = .done next behind ∧
          σ.parseFrom m s = .failed ⟨.unparseableToken next.lexeme, next.position⟩ behind) := by
  have hended : σ.parseFrom m s ≠ .unfinished := (σ.finished hend s).1 m
  constructor
  · cases h : σ.parseFrom m s with
    | done e after => exact absurd h (Setting.parseAt_negative hm _ s e after)
    | failed error behind => exact ⟨error, behind, rfl⟩
    | unfinished => exact absurd h hended
  · intro hidle e after h
    obtain ⟨ts, _, htakes, hread, -, -⟩ := (Setting.run_read _).1 0 s e after h
    obtain ⟨next, behind, hnext, hfailed⟩ :=
      (Setting.parseAt_negative_of_zero hm hidle _ h).resolve_left hended
    exact ⟨ts, next, behind, hread.spelled, htakes.popMany_next hnext, hnext, hfailed⟩

theorem Mode.scientific_no_idle (k : Kind) (hk : k.strength = 0) :
    scientific.language.infixRole? k = none := by
  have htable : scientific.language.kinds.all (fun k =>
      k.strength ≠ 0 || scientific.language.infixRole? k = none) = true := by decide +kernel
  cases hr : scientific.language.infixRole? k with
  | none => rfl
  | some role =>
    have h := List.all_eq_true.mp htable k (Grammar.mem_kinds_of_infixRole? _ hr)
    simp [hk, hr] at h

/-- a sum, and a name behind it -/
def sumThenName : Stream := .ofLexer (Mode.scientific.lexer "a+b c".toList)

/-- the name is the token that a parse above a negative threshold fails at -/
theorem sumThenName_fails :
    ∃ e after, Setting.parseFrom ⟨Mode.scientific.language, 10⟩ 0 sumThenName = .done e after ∧
      e.text = "(+ a b)".toList ∧
      ∃ next behind, next.lexeme = ['c'] ∧ next.position = 4 ∧ after.pop = .done next behind ∧
        Setting.parseFrom ⟨Mode.scientific.language, 10⟩ (-1) sumThenName
          = .failed ⟨.unparseableToken next.lexeme, next.position⟩ behind := by
  have hany (g : Grammar) (hg : Kind.ending ∉ g.kinds)
      (hidle : ∀ k, k.strength = 0 → g.infixRole? k = none) :=
    (negative_threshold_fails ⟨g, 10⟩ sumThenName (-1) hg (by decide)).2 hidle
  have htext : ((Setting.parseFrom ⟨Mode.scientific.language, 10⟩ 0 sumThenName).value?.map
      Expr.text) = some "(+ a b)".toList := by decide +kernel
  obtain ⟨e, after, he, htext⟩ := Outcome.exists_done htext
  obtain ⟨ts, next, behind, -, -, hnext, hfailed⟩ :=
    hany _ Mode.scientific.language_standard.noEnding Mode.scientific_no_idle e after he
  have hafter : (Setting.parseFrom ⟨Mode.scientific.language, 10⟩ 0 sumThenName).after?.bind
      (fun s => s.pop.value?.map fun t => (t.lexeme, t.position)) = some (['c'], 4) := by
    decide +kernel
  rw [he] at hafter
  replace hafter : after.pop.value?.map (fun t => (t.lexeme, t.position)) = some (['c'], 4) :=
    hafter
  rw [hnext] at hafter
  obtain ⟨hlexeme, hposition⟩ := Prod.mk.inj (Option.some.inj hafter)
  exact ⟨e, after, he, htext, next, behind, hlexeme, hposition, hnext, hfailed⟩

end Calculator
