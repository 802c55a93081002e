import Calculator.Proofs.Token.Taking
import Calculator.Proofs.Token.Tiles
import Mathlib.Logic.Relation

/-!
# A stream as one row of results

The waiting tokens of a stream and the pulls of its lexer make one endless row of tokens and errors.
Looking at the next token leaves the row, and taking it takes it off.  An error is never put back:
whichever of the two met it, it is off the row.

* `Stream.view s i`          the `i`-th next token or error, with its position;
* `Stream.peek_ok`, `Stream.peek_error`, `Stream.pop_ok`, `Stream.pop_error`   looking and taking,
                             told by the first result;
* `Stream.fill`              asks the lexer if nothing waits;
* `Stream.peek_eq_frontOr`, `Stream.pop_eq_popFrontOr`   behind `fill` a token waits, so a fallback
                             for an empty buffer is never given;
* `Stream.Reads s s'`        looking and taking lead from `s` to `s'`;
* `Stream.Reads.keeps`       what one such step keeps, all of them keep.
-/

namespace Calculator

theorem Lexer.result_after (l : Lexer) (n i : Nat) : (l.after n).result i = l.result (n + i) := by
  induction n generalizing l with
  | zero => rw [Lexer.after_zero, Nat.zero_add]
  | succ n ih =>
    rw [Lexer.after_succ', ih, Nat.add_right_comm]
    rfl

namespace Stream

/-- the waiting tokens, then the results of the lexer -/
def view (s : Stream) (i : Nat) : Except Error Token :=
  match s.waiting[i]? with
  | some t => .ok t
  | none => s.lexer.result (i - s.waiting.length)

/-! ## parts of the row -/

theorem view_cons (t : Token) (ts : List Token) (l : Lexer) :
    view ⟨t :: ts, l⟩ 0 = .ok t ∧ (fun i => view ⟨t :: ts, l⟩ (i + 1)) = view ⟨ts, l⟩ := by
  refine ⟨rfl, funext fun i => ?_⟩
  unfold view
  simp only [List.getElem?_cons_succ, List.length_cons, Nat.add_sub_add_right]

theorem view_behind (s : Stream) (i : Nat) :
    s.view (s.waiting.length + i) = s.lexer.result i := by
  unfold view
  rw [List.getElem?_eq_none (Nat.le_add_right _ _), Nat.add_sub_cancel_left]

theorem view_waiting (ts : List Token) (l l' : Lexer) {i : Nat} (h : i < ts.length) :
    view ⟨ts, l⟩ i = view ⟨ts, l'⟩ i := by
  unfold view
  simp only [List.getElem?_eq_getElem h]

theorem view_pulled (s : Stream) (n : Nat) :
    view { s with lexer := s.lexer.after n } =
      fun i => if i < s.waiting.length then s.view i else s.view (i + n) := by
  funext i
  split
  · rename_i h
    exact view_waiting s.waiting _ _ h
  · rename_i h
    obtain ⟨j, rfl⟩ := Nat.exists_eq_add_of_le (Nat.le_of_not_lt h)
    have hbehind := view_behind { s with lexer := s.lexer.after n } j
    rw [hbehind, Lexer.result_after, Nat.add_assoc, view_behind, Nat.add_comm n j]

/-! ## looking and taking -/

section
variable {s : Stream} {t : Token} {e : Error}

theorem peek_ok (h : s.view 0 = .ok t) :
    ∃ after, s.peek = .done t after ∧ after.view = s.view ∧
      after.waiting = t :: s.waiting.tail := by
  obtain ⟨w, l⟩ := s
  cases w with
  | cons u us =>
    cases h
    exact ⟨_, rfl, rfl, rfl⟩
  | nil =>
    have hn : l.next = (.ok t, l.next.2) := Prod.ext h rfl
    refine ⟨⟨[t], l.next.2⟩, ?_, funext fun i => ?_, rfl⟩
    · unfold peek
      rw [hn]
    · cases i with
      | zero => exact h.symm
      | succ i => exact congrFun (view_cons t [] l.next.2).2 i

theorem peek_error (h : s.view 0 = .error e) :
    ∃ after, s.peek = .failed e after ∧ (after.view = fun i => s.view (i + 1)) ∧
      after.waiting = [] := by
  obtain ⟨w, l⟩ := s
  cases w with
  | cons u us => cases h
  | nil =>
    have hn : l.next = (.error e, l.next.2) := Prod.ext h rfl
    refine ⟨⟨[], l.next.2⟩, ?_, rfl, rfl⟩
    unfold peek
    rw [hn]

theorem pop_ok (h : s.view 0 = .ok t) :
    ∃ after, s.pop = .done t after ∧ (after.view = fun i => s.view (i + 1)) ∧
      after.waiting = s.waiting.tail := by
  obtain ⟨w, l⟩ := s
  cases w with
  | cons u us =>
    cases h
    exact ⟨⟨us, l⟩, rfl, (view_cons t us l).2.symm, rfl⟩
  | nil =>
    have hn : l.next = (.ok t, l.next.2) := Prod.ext h rfl
    refine ⟨⟨[], l.next.2⟩, ?_, rfl, rfl⟩
    unfold pop
    rw [hn]

theorem pop_error (h : s.view 0 = .error e) :
    ∃ after, s.pop = .failed e after ∧ (after.view = fun i => s.view (i + 1)) ∧
      after.waiting = [] := by
  obtain ⟨w, l⟩ := s
  cases w with
  | cons u us => cases h
  | nil =>
    have hn : l.next = (.error e, l.next.2) := Prod.ext h rfl
    refine ⟨⟨[], l.next.2⟩, ?_, rfl, rfl⟩
    unfold pop
    rw [hn]

end

/-! ## filling the buffer -/

/-- asks the lexer for a token to wait, if none does -/
def fill (s : Stream) : Outcome Unit :=
  if s.waiting.isEmpty then
    match s.lexer.next with
    | (.ok t, l) => .done () ⟨s.waiting ++ [t], l⟩
    | (.error e, l) => .failed e { s with lexer := l }
  else .done () s

/-- the front of the filled buffer, or the fallback -/
def frontOr (fallback : Error) (s : Stream) : Outcome Token :=
  s.fill.bind fun _ s =>
    match s.waiting with
    | t :: _ => .done t s
    | [] => .failed fallback s

/-- the front of the filled buffer, taken off, or the fallback -/
def popFrontOr (fallback : Error) (s : Stream) : Outcome Token :=
  s.fill.bind fun _ s =>
    match s.waiting with
    | t :: ts => .done t { s with waiting := ts }
    | [] => .failed fallback s

theorem peek_eq_frontOr (fallback : Error) (s : Stream) : s.peek = s.frontOr fallback := by
  obtain ⟨w, l⟩ := s
  cases w with
  | cons t ts => rfl
  | nil =>
    unfold peek frontOr fill
    cases hn : l.next with
    | mk r l' =>
      simp only [List.isEmpty_nil, if_true]
      cases r with
      | ok t => rfl
      | error e => rfl

theorem pop_eq_popFrontOr (fallback : Error) (s : Stream) : s.pop = s.popFrontOr fallback := by
  obtain ⟨w, l⟩ := s
  cases w with
  | cons t ts => rfl
  | nil =>
    unfold pop popFrontOr fill
    cases hn : l.next with
    | mk r l' =>
      simp only [List.isEmpty_nil, if_true]
      cases r with
      | ok t => rfl
      | error e => rfl

/-! ## steps of a reading -/

/-- looking at a token leads from `s` to `s'`, or taking one does -/
def Read (s s' : Stream) : Prop := s' ∈ s.peek.after? ∨ s' ∈ s.pop.after?

/-- so does any number of such steps -/
def Reads : Stream → Stream → Prop := Relation.ReflTransGen Read

/-- a step leaves the lexer or moves it on by one pull, and leaves what waits, or a token of that
pull, or less -/
theorem Read.cases {s s' : Stream} (h : s.Read s') :
    (s' = s) ∨ (s' = { s with waiting := s.waiting.tail }) ∨
      (s.waiting = [] ∧ s' = ⟨[], s.lexer.next.2⟩) ∨
      (s.waiting = [] ∧ ∃ t, s.lexer.next.1 = .ok t ∧ s' = ⟨[t], s.lexer.next.2⟩) := by
  obtain ⟨w, l⟩ := s
  cases w with
  | cons t ts =>
    rcases h with h | h
    · cases h
      exact .inl rfl
    · cases h
      exact .inr (.inl rfl)
  | nil =>
    refine .inr (.inr ?_)
    unfold Read peek pop at h
    cases hn : l.next with
    | mk r l' =>
      simp only [hn] at h
      cases r with
      | ok t =>
        rcases h with h | h
        · cases h
          exact .inr ⟨rfl, t, rfl, rfl⟩
        · cases h
          exact .inl ⟨rfl, rfl⟩
      | error e =>
        rcases h with h | h <;>
        · cases h
          exact .inl ⟨rfl, rfl⟩

/-- a step takes one result off the row, or none -/
theorem Read.view {s s' : Stream} (h : s.Read s') : ∃ n, s'.view = fun i => s.view (i + n) := by
  cases hfirst : s.view 0 with
  | ok t =>
    obtain ⟨after, hpeek, hview, -⟩ := peek_ok hfirst
    obtain ⟨after', hpop, hview', -⟩ := pop_ok hfirst
    unfold Read at h
    rw [hpeek, hpop] at h
    rcases h with h | h
    · cases h
      exact ⟨0, hview⟩
    · cases h
      exact ⟨1, hview'⟩
  | error e =>
    obtain ⟨after, hpeek, hview, -⟩ := peek_error hfirst
    obtain ⟨after', hpop, hview', -⟩ := pop_error hfirst
    unfold Read at h
    rw [hpeek, hpop] at h
    rcases h with h | h
    · cases h
      exact ⟨1, hview⟩
    · cases h
      exact ⟨1, hview'⟩

theorem Reads.keeps {I : Stream → Prop} (hI : ∀ s s', I s → s.Read s' → I s') {s s' : Stream}
    (h : s.Reads s') (hs : I s) : I s' := by
  induction h with
  | refl => exact hs
  | tail _ hread ih => exact hI _ _ ih hread

theorem Reads.view {s s' : Stream} (h : s.Reads s') : ∃ n, s'.view = fun i => s.view (i + n) := by
  refine h.keeps (I := fun s' => ∃ n, s'.view = fun i => s.view (i + n)) ?_ ⟨0, rfl⟩
  rintro s₁ s₂ ⟨n, hn⟩ hread
  obtain ⟨k, hk⟩ := hread.view
  refine ⟨k + n, ?_⟩
  rw [hk, hn]
  funext i
  rw [← Nat.add_assoc]

end Stream
end Calculator
