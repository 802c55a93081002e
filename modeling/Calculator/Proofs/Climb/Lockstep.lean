import Calculator.Proofs.Climb.Comparison
import Calculator.Proofs.Token.Ahead

/-!
# Two parses in step

Two streams with the same row of results ahead can differ in the positions of their tokens and in
which tokens were looked at already.  Parses of both go the same way: with the same number of steps
they both finish with the same expression, or both fail for the same cause, or both run out of
steps.

* `Outcome.Alike same o o'`   the outcomes end in the same way, with the same value or for the same
                              cause, and behind values the same row is ahead;
* `Outcome.Alike.bind`        readings in step one after another are in step;
* `Setting.inStep`            the comparison of a setting with itself up to positions;
* `Setting.run_alike`         the three calls are in step.
-/

namespace Calculator

/-- the outcomes end in the same way, as far as an equality of values tells -/
inductive Outcome.Alike {α : Type} (same : α → α → Bool) : Outcome α → Outcome α → Prop where
  | done {a a' : α} {s s' : Stream} (value : same a a' = true) (ahead : s.ahead = s'.ahead) :
    Alike same (.done a s) (.done a' s')
  | failed {e e' : Error} {s s' : Stream} (cause : e.cause = e'.cause) :
    Alike same (.failed e s) (.failed e' s')
  | unfinished : Alike same .unfinished .unfinished

namespace Outcome

variable {α β : Type} {eqv : α → α → Bool} {eqv' : β → β → Bool}

theorem Alike.bind {o o' : Outcome α} {f f' : α → Stream → Outcome β} (h : Alike eqv o o')
    (hf : ∀ a a' s s', eqv a a' = true → s.ahead = s'.ahead → Alike eqv' (f a s) (f' a' s')) :
    Alike eqv' (o.bind f) (o'.bind f') := by
  cases h with
  | done hvalue hahead => exact hf _ _ _ _ hvalue hahead
  | failed hcause => exact .failed hcause
  | unfinished => exact .unfinished

theorem Alike.unfinished_iff {o o' : Outcome α} (h : Alike eqv o o') :
    o = .unfinished ↔ o' = .unfinished := by
  cases h with
  | done => exact ⟨nofun, nofun⟩
  | failed => exact ⟨nofun, nofun⟩
  | unfinished => exact Iff.rfl

theorem Gives.alike {r : Except Cause (Kind × List Char)}
    {row : Nat → Except Cause (Kind × List Char)} {o o' : Outcome Token} (h : o.Gives r row)
    (h' : o'.Gives r row) : Alike Token.same o o' := by
  cases o with
  | done t s =>
    cases o' with
    | done t' s' =>
      have hkey : t.key = t'.key := Except.ok.inj (h.1.symm.trans h'.1)
      exact .done (decide_eq_true hkey) (h.2.trans h'.2.symm)
    | failed e' s' => cases h.1.symm.trans h'
    | unfinished => cases h'
  | failed e s =>
    cases o' with
    | done t' s' => cases h.symm.trans h'.1
    | failed e' s' => exact .failed (Except.error.inj (h.symm.trans h'))
    | unfinished => cases h'
  | unfinished => cases h

end Outcome

theorem Token.kind_of_same {t t' : Token} (h : t.same t' = true) : t.kind = t'.kind :=
  congrArg Prod.fst (of_decide_eq_true h)

theorem Token.lexeme_of_same {t t' : Token} (h : t.same t' = true) : t.lexeme = t'.lexeme :=
  congrArg Prod.snd (of_decide_eq_true h)

/-! ## tokens -/

namespace Stream

open Outcome (Alike)

variable {s s' : Stream} (h : s.ahead = s'.ahead)
include h

theorem peek_alike : Alike Token.same s.peek s'.peek := by
  have hgives := s.peek_gives
  rw [h] at hgives
  exact hgives.alike s'.peek_gives

theorem pop_alike : Alike Token.same s.pop s'.pop := by
  have hgives := s.pop_gives
  rw [h] at hgives
  exact hgives.alike s'.pop_gives

end Stream

/-! ## every call -/

/-- streams with the same row ahead, and errors with the same cause -/
def Pairing.inStep : Pairing where
  stream s s' := s.ahead = s'.ahead
  behind _ _ := True
  error e e' := e.cause = e'.cause

theorem Outcome.alike_iff_related {α : Type} {eqv : α → α → Bool} {o o' : Outcome α} :
    Alike eqv o o' ↔ Pairing.inStep.Related (fun a a' => eqv a a' = true) o o' := by
  constructor
  · rintro (⟨hvalue, hahead⟩ | hcause | _)
    · exact .done hvalue hahead
    · exact .failed hcause trivial
    · exact .unfinished
  · rintro (⟨hvalue, hahead⟩ | ⟨hcause, -⟩ | _)
    · exact .done hvalue hahead
    · exact .failed hcause
    · exact .unfinished

namespace Setting

open Outcome (Alike alike_iff_related)

variable (σ : Setting)

theorem leaf_alike {t t' : Token} {s s' : Stream} (ht : t.same t' = true)
    (h : s.ahead = s'.ahead) : Alike Expr.same (σ.leaf t s) (σ.leaf t' s') := by
  unfold leaf
  rw [Token.lexeme_of_same ht]
  split
  · split
    · rename_i v _
      refine .done ?_ h
      rw [Expr.same, ht, decide_eq_true (rfl : v = v)]
      rfl
    · exact .failed rfl
  · refine .done ?_ h
    rw [Expr.same, ht]

/-- tokens and expressions up to positions -/
def inStep : Comparison σ σ where
  toPairing := .inStep
  token t t' := t.same t' = true
  expr x x' := x.same x' = true
  exprs xs xs' := Expr.sameList xs xs' = true
  peek h := alike_iff_related.mp (Stream.peek_alike h)
  pop h := alike_iff_related.mp (Stream.pop_alike h)
  stream_behind _ := trivial
  kind := Token.kind_of_same
  prefixRole ht := by rw [Token.kind_of_same ht]
  infixRole ht := by rw [Token.kind_of_same ht]
  closing _ := rfl
  separator := rfl
  misplaced ht := congrArg Cause.unparseableToken (Token.lexeme_of_same ht)
  missing _ _ := rfl
  unexpected name ht := congrArg (Cause.unexpectedToken name) (Token.lexeme_of_same ht)
  leaf ht h := alike_iff_related.mp (σ.leaf_alike ht h)
  prefixed ht hx := by simp [Expr.same, ht, hx]
  binary ht hx hy := by simp [Expr.same, ht, hx, hy]
  suffixed ht hx := by simp [Expr.same, ht, hx]
  group ht hx := by simp [Expr.same, ht, hx]
  call ht hx hxs := by simp [Expr.same, ht, hx, hxs]
  array ht hxs := by simp [Expr.same, ht, hxs]
  nil := rfl
  cons hx hxs := by simp [Expr.sameList, hx, hxs]

/-- the three calls keep step, whatever the number of steps -/
theorem run_alike (n : Nat) :
    (∀ m s s', s.ahead = s'.ahead → Alike Expr.same (σ.parseAt n m s) (σ.parseAt n m s')) ∧
    (∀ m left left' s s', left.same left' = true → s.ahead = s'.ahead →
      Alike Expr.same (σ.climb n m left s) (σ.climb n m left' s')) ∧
    (∀ k k' s s', s.ahead = s'.ahead →
      Alike Expr.sameList (σ.more n k k' s) (σ.more n k k' s')) := by
  obtain ⟨hparse, hclimb, hmore⟩ := σ.inStep.run_related n
  exact ⟨fun m s s' h => alike_iff_related.mpr (hparse m s s' h),
    fun m left left' s s' hl h => alike_iff_related.mpr (hclimb m left left' s s' hl h),
    fun k k' s s' h => alike_iff_related.mpr (hmore k k' s s' h)⟩

end Setting
end Calculator
