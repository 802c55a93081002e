import Calculator.Token.Lexer

/-!
# The token stream of a parser

A parser reads tokens from a lexer and looks ahead: tokens that were read and not yet taken wait,
oldest first.  The lexer is asked only when no token waits.

* `Stream`             waiting tokens, and the lexer behind them;
* `Outcome`            a value or an error, in both cases with the stream behind it, or neither
                       when the steps allowed were not enough;
* `Stream.peek`, `Stream.pop`         the next token, left or taken;
* `Stream.consume`, `Stream.accept`   takes a token of a kind, or fails, or tells;
* `Stream.reset`, `Stream.pull`       drops what waits; asks the lexer past it.
-/

namespace Calculator

structure Stream where
  waiting : List Token
  lexer : Lexer

/-- what came of reading a stream, and the stream behind it -/
inductive Outcome (α : Type) where
  | done (value : α) (after : Stream)
  | failed (error : Error) (after : Stream)
  | unfinished

namespace Outcome

/-- goes on with the value and the stream behind it -/
def bind {α β : Type} (o : Outcome α) (f : α → Stream → Outcome β) : Outcome β :=
  match o with
  | done a s => f a s
  | failed e s => failed e s
  | unfinished => unfinished

theorem bind_done {α β : Type} (a : α) (s : Stream) (f : α → Stream → Outcome β) :
    (done a s).bind f = f a s := rfl

theorem bind_failed {α β : Type} (e : Error) (s : Stream) (f : α → Stream → Outcome β) :
    (failed e s).bind f = failed e s := rfl

theorem bind_unfinished {α β : Type} (f : α → Stream → Outcome β) :
    (unfinished : Outcome α).bind f = unfinished := rfl

end Outcome

namespace Stream

/-- a stream with nothing waiting -/
def ofLexer (l : Lexer) : Stream := ⟨[], l⟩

/-- the next token, which goes on waiting -/
def peek (s : Stream) : Outcome Token :=
  match s.waiting with
  | t :: _ => .done t s
  | [] =>
    match s.lexer.next with
    | (.ok t, l) => .done t ⟨[t], l⟩
    | (.error e, l) => .failed e ⟨[], l⟩

/-- the next token, taken from the stream -/
def pop (s : Stream) : Outcome Token :=
  match s.waiting with
  | t :: ts => .done t { s with waiting := ts }
  | [] =>
    match s.lexer.next with
    | (.ok t, l) => .done t ⟨[], l⟩
    | (.error e, l) => .failed e ⟨[], l⟩

/-- takes the next token, which has to be of a kind -/
def consume (s : Stream) (expected : Kind) : Outcome Token :=
  s.peek.bind fun t s =>
    if t.kind = expected then s.pop
    else .failed ⟨.unexpectedToken expected.name t.lexeme, t.position⟩ s

/-- takes the next token if it is of a kind, and tells whether it did -/
def accept (s : Stream) (expected : Kind) : Outcome Bool :=
  s.peek.bind fun t s =>
    if t.kind = expected then s.pop.bind fun _ s => .done true s else .done false s

/-- drops what waits -/
def reset (s : Stream) : Stream := { s with waiting := [] }

/-- the next result of the lexer, past what waits -/
def pull (s : Stream) : Except Error Token × Stream :=
  let step := s.lexer.next
  (step.1, { s with lexer := step.2 })

/-- a token that was looked at is the token that is taken -/
theorem pop_of_peek {s s' : Stream} {t : Token} (h : s.peek = .done t s') :
    s'.pop = s.pop ∧ ∃ s'', s.pop = .done t s'' := by
  unfold peek at h
  unfold pop
  split at h
  · rename_i t' ts hw
    cases h
    rw [hw]
    exact ⟨rfl, _, rfl⟩
  · rename_i hw
    split at h
    · rename_i t' l hn
      cases h
      exact ⟨rfl, _, rfl⟩
    · cases h

end Stream
end Calculator
