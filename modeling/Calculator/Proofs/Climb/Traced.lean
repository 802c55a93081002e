import Calculator.Proofs.Token.Taking
import Calculator.Expr.Climb

/-!
# Parsing with a record of what it does

The outcome of a parse does not tell how often the lexer was asked: behind the end of its source a
lexer does not move any more.  So every reading is done once more with a record beside its outcome,
and forgetting the record gives the reading itself.

* `Traced`            an outcome, the results that were pulled from the lexer, the tokens that were
                      taken, and how deep calls of `parseAt` were nested;
* `Traced.bind`       one reading after another: records add up, and the deeper nesting counts;
* `Setting.traceAt`, `Setting.traceClimb`, `Setting.traceMore`   the three calls with a record;
* `Setting.trace_outcome`   they have the outcomes of `parseAt`, `climb` and `more`.
-/

namespace Calculator

/-- an outcome with a record of how it came about -/
structure Traced (α : Type) where
  outcome : Outcome α
  pulled : List (Except Error Token)
  taken : List Token
  depth : Nat

namespace Traced

variable {α β : Type}

/-- an outcome for which nothing was read -/
def still (o : Outcome α) : Traced α := ⟨o, [], [], 0⟩

/-- the second reading, with the record of the first one before its own -/
def andThen (r : Traced α) (q : Traced β) : Traced β :=
  ⟨q.outcome, r.pulled ++ q.pulled, r.taken ++ q.taken, max r.depth q.depth⟩

/-- goes on with the value and the stream behind it -/
def bind (r : Traced α) (f : α → Stream → Traced β) : Traced β :=
  match r.outcome with
  | .done a s => r.andThen (f a s)
  | .failed e s => r.andThen (still (.failed e s))
  | .unfinished => r.andThen (still .unfinished)

/-- a reading inside one more call -/
def nested (r : Traced α) : Traced α := { r with depth := r.depth + 1 }

theorem bind_done {r : Traced α} {a : α} {s : Stream} (h : r.outcome = .done a s)
    (f : α → Stream → Traced β) : r.bind f = r.andThen (f a s) := by
  unfold bind
  rw [h]

theorem bind_failed {r : Traced α} {e : Error} {s : Stream} (h : r.outcome = .failed e s)
    (f : α → Stream → Traced β) : r.bind f = r.andThen (still (.failed e s)) := by
  unfold bind
  rw [h]

theorem bind_unfinished {r : Traced α} (h : r.outcome = .unfinished)
    (f : α → Stream → Traced β) : r.bind f = r.andThen (still .unfinished) := by
  unfold bind
  rw [h]

theorem bind_outcome (r : Traced α) (f : α → Stream → Traced β) :
    (r.bind f).outcome = r.outcome.bind fun a s => (f a s).outcome := by
  cases h : r.outcome with
  | done a s => rw [bind_done h]; rfl
  | failed e s => rw [bind_failed h]; rfl
  | unfinished => rw [bind_unfinished h]; rfl

end Traced

/-! ## reading tokens -/

namespace Stream

/-- what looking at the next token asks the lexer for -/
def asked (s : Stream) : List (Except Error Token) :=
  match s.waiting with
  | [] => [s.lexer.next.1]
  | _ :: _ => []

def tracePeek (s : Stream) : Traced Token := ⟨s.peek, s.asked, [], 0⟩

def tracePop (s : Stream) : Traced Token := ⟨s.pop, s.asked, s.pop.value?.toList, 0⟩

def traceConsume (s : Stream) (expected : Kind) : Traced Token :=
  s.tracePeek.bind fun t s =>
    if t.kind = expected then s.tracePop
    else .still (.failed ⟨.unexpectedToken expected.name t.lexeme, t.position⟩ s)

def traceAccept (s : Stream) (expected : Kind) : Traced Bool :=
  s.tracePeek.bind fun t s =>
    if t.kind = expected then s.tracePop.bind fun _ s => .still (.done true s)
    else .still (.done false s)

theorem traceConsume_outcome (s : Stream) (k : Kind) :
    (s.traceConsume k).outcome = s.consume k := by
  unfold traceConsume consume
  rw [Traced.bind_outcome]
  congr 1
  funext t s'
  split <;> rfl

theorem traceAccept_outcome (s : Stream) (k : Kind) : (s.traceAccept k).outcome = s.accept k := by
  unfold traceAccept accept
  rw [Traced.bind_outcome]
  congr 1
  funext t s'
  split
  · rw [Traced.bind_outcome]
    rfl
  · rfl

end Stream

/-! ## roles -/

namespace Setting

variable (σ : Setting)

def traceItems (item : Stream → Traced Expr) (more : Kind → Kind → Stream → Traced (List Expr))
    (use : Bracket) (opening : Token) (s : Stream) : Traced (List Expr) :=
  match σ.grammar.closing? use with
  | none => .still (.failed (.missing use.label opening) s)
  | some closing =>
    (s.traceAccept closing).bind fun closed s =>
      if closed then .still (.done [] s)
      else
        match σ.grammar.separator? with
        | none => .still (.failed (.missing "argument separator" opening) s)
        | some separator =>
          (item s).bind fun x s =>
            (more separator closing s).bind fun xs s => .still (.done (x :: xs) s)

def traceOperand (parse : Int → Stream → Traced Expr)
    (more : Kind → Kind → Stream → Traced (List Expr)) (t : Token) (s : Stream) : Traced Expr :=
  match σ.grammar.prefixRole? t.kind with
  | none => .still (.failed (.misplaced t) s)
  | some .leaf => .still (σ.leaf t s)
  | some .operator =>
    (parse t.kind.strength s).bind fun x s => .still (.done (.prefixed t x) s)
  | some .grouping =>
    match σ.grammar.closing? .grouping with
    | none => .still (.failed (.missing Bracket.grouping.label t) s)
    | some closing =>
      (parse 0 s).bind fun x s =>
        (s.traceConsume closing).bind fun _ s => .still (.done (.group t x) s)
  | some .array =>
    (σ.traceItems (parse 0) more .array t s).bind fun xs s => .still (.done (.array t xs) s)

def traceExtend (parse : Int → Stream → Traced Expr)
    (more : Kind → Kind → Stream → Traced (List Expr)) (left : Expr) (t : Token) (s : Stream) :
    Traced Expr :=
  match σ.grammar.infixRole? t.kind with
  | none => .still (.failed (.misplaced t) s)
  | some .left =>
    (parse t.kind.strength s).bind fun right s => .still (.done (.binary t left right) s)
  | some .right =>
    (parse (t.kind.strength - 1) s).bind fun right s => .still (.done (.binary t left right) s)
  | some .suffix => .still (.done (.suffixed t left) s)
  | some .call =>
    (σ.traceItems (parse 0) more .call t s).bind fun xs s => .still (.done (.call left t xs) s)

def traceTighter (threshold : Int) (s : Stream) : Traced Bool :=
  s.tracePeek.bind fun t s => .still (.done (decide (threshold < σ.strength t.kind)) s)

theorem traceTighter_outcome (m : Int) (s : Stream) :
    (σ.traceTighter m s).outcome = σ.bindsTighter m s :=
  Traced.bind_outcome _ _

section
variable (item : Stream → Traced Expr) (parse : Int → Stream → Traced Expr)
  (more : Kind → Kind → Stream → Traced (List Expr))

theorem traceItems_outcome (use : Bracket) (t : Token) (s : Stream) :
    (σ.traceItems item more use t s).outcome =
      σ.items (fun s => (item s).outcome) (fun k k' s => (more k k' s).outcome) use t s := by
  unfold traceItems items
  cases σ.grammar.closing? use with
  | none => rfl
  | some closing =>
    show ((s.traceAccept closing).bind _).outcome = _
    rw [Traced.bind_outcome, Stream.traceAccept_outcome]
    congr 1
    funext closed s'
    cases closed with
    | true => rfl
    | false =>
      cases σ.grammar.separator? with
      | none => rfl
      | some separator =>
        show ((item s').bind _).outcome = _
        rw [Traced.bind_outcome]
        congr 1
        funext x s''
        exact Traced.bind_outcome _ _

theorem traceOperand_outcome (t : Token) (s : Stream) :
    (σ.traceOperand parse more t s).outcome =
      σ.operand (fun m s => (parse m s).outcome) (fun k k' s => (more k k' s).outcome) t s := by
  unfold traceOperand operand
  cases σ.grammar.prefixRole? t.kind with
  | none => rfl
  | some role =>
    cases role with
    | leaf => rfl
    | operator => exact Traced.bind_outcome _ _
    | grouping =>
      cases σ.grammar.closing? .grouping with
      | none => rfl
      | some closing =>
        show ((parse 0 s).bind _).outcome = _
        rw [Traced.bind_outcome]
        congr 1
        funext x s'
        rw [Traced.bind_outcome, Stream.traceConsume_outcome]
        rfl
    | array =>
      show ((σ.traceItems (parse 0) more .array t s).bind _).outcome = _
      rw [Traced.bind_outcome, traceItems_outcome]
      rfl

theorem traceExtend_outcome (left : Expr) (t : Token) (s : Stream) :
    (σ.traceExtend parse more left t s).outcome =
      σ.extend (fun m s => (parse m s).outcome) (fun k k' s => (more k k' s).outcome) left t s := by
  unfold traceExtend extend
  cases σ.grammar.infixRole? t.kind with
  | none => rfl
  | some role =>
    cases role with
    | left => exact Traced.bind_outcome _ _
    | right => exact Traced.bind_outcome _ _
    | suffix => rfl
    | call =>
      show ((σ.traceItems (parse 0) more .call t s).bind _).outcome = _
      rw [Traced.bind_outcome, traceItems_outcome]
      rfl

end

/-! ## the three calls -/

mutual

/-- `parseAt` with a record; the nesting grows by one -/
def traceAt : Nat → Int → Stream → Traced Expr
  | 0, _, _ => .still .unfinished
  | n + 1, threshold, s =>
    (s.tracePop.bind fun t s =>
      (σ.traceOperand (fun m s => traceAt n m s) (fun k k' s => traceMore n k k' s) t s).bind
        fun left s => traceClimb n threshold left s).nested

/-- `climb` with a record -/
def traceClimb : Nat → Int → Expr → Stream → Traced Expr
  | 0, threshold, left, s =>
    (σ.traceTighter threshold s).bind fun tighter s =>
      if tighter then .still .unfinished else .still (.done left s)
  | n + 1, threshold, left, s =>
    (σ.traceTighter threshold s).bind fun tighter s =>
      if tighter then
        s.tracePop.bind fun t s =>
          (σ.traceExtend (fun m s => traceAt n m s) (fun k k' s => traceMore n k k' s) left t
            s).bind fun left s => traceClimb n threshold left s
      else .still (.done left s)

/-- `more` with a record -/
def traceMore : Nat → Kind → Kind → Stream → Traced (List Expr)
  | 0, separator, closing, s =>
    (s.traceAccept separator).bind fun goesOn s =>
      if goesOn then .still .unfinished
      else (s.traceConsume closing).bind fun _ s => .still (.done [] s)
  | n + 1, separator, closing, s =>
    (s.traceAccept separator).bind fun goesOn s =>
      if goesOn then
        (traceAt n 0 s).bind fun x s =>
          (traceMore n separator closing s).bind fun xs s => .still (.done (x :: xs) s)
      else (s.traceConsume closing).bind fun _ s => .still (.done [] s)

end

/-- a whole parse with a record, so many steps allowed -/
def traceParse (n : Nat) (s : Stream) : Traced Expr :=
  (σ.traceAt n 0 s).bind fun e s =>
    s.tracePeek.bind fun t s =>
      if t.isEnding then .still (.done e s) else .still (.failed (.misplaced t) s)

theorem traceClose_outcome (closing : Kind) (s : Stream) :
    ((s.traceConsume closing).bind fun _ s => Traced.still (.done ([] : List Expr) s)).outcome =
      (s.consume closing).bind fun _ s => .done [] s := by
  rw [Traced.bind_outcome, Stream.traceConsume_outcome]
  rfl

/-- forgetting the record gives the calls themselves -/
theorem trace_outcome (n : Nat) :
    (∀ m s, (σ.traceAt n m s).outcome = σ.parseAt n m s) ∧
    (∀ m left s, (σ.traceClimb n m left s).outcome = σ.climb n m left s) ∧
    (∀ k k' s, (σ.traceMore n k k' s).outcome = σ.more n k k' s) := by
  induction n with
  | zero =>
    refine ⟨fun m s => ?_, fun m left s => ?_, fun k k' s => ?_⟩
    · rw [traceAt, parseAt]
      rfl
    · rw [traceClimb, climb, Traced.bind_outcome, traceTighter_outcome]
      congr 1
      funext tighter s'
      split <;> rfl
    · rw [traceMore, more, Traced.bind_outcome, Stream.traceAccept_outcome]
      congr 1
      funext goesOn s'
      split
      · rfl
      · exact traceClose_outcome k' s'
  | succ n ih =>
    obtain ⟨iha, ihc, ihm⟩ := ih
    refine ⟨fun m s => ?_, fun m left s => ?_, fun k k' s => ?_⟩
    · rw [traceAt, parseAt]
      show (s.tracePop.bind _).outcome = _
      rw [Traced.bind_outcome]
      show s.pop.bind _ = _
      congr 1
      funext t s'
      rw [Traced.bind_outcome, traceOperand_outcome]
      simp only [iha, ihc, ihm]
    · rw [traceClimb, climb, Traced.bind_outcome, traceTighter_outcome]
      congr 1
      funext tighter s'
      split
      · rw [Traced.bind_outcome]
        show s'.pop.bind _ = _
        congr 1
        funext t s''
        rw [Traced.bind_outcome, traceExtend_outcome]
        simp only [iha, ihc, ihm]
      · rfl
    · rw [traceMore, more, Traced.bind_outcome, Stream.traceAccept_outcome]
      congr 1
      funext goesOn s'
      split
      · rw [Traced.bind_outcome, iha]
        congr 1
        funext x s''
        rw [Traced.bind_outcome, ihm]
        rfl
      · exact traceClose_outcome k' s'

theorem traceAt_outcome (n : Nat) (m : Int) (s : Stream) :
    (σ.traceAt n m s).outcome = σ.parseAt n m s :=
  (σ.trace_outcome n).1 m s

theorem traceParse_outcome (s : Stream) : (σ.traceParse s.budget s).outcome = σ.parse s := by
  unfold traceParse parse parseFrom
  rw [Traced.bind_outcome, traceAt_outcome]
  congr 1
  funext e s'
  rw [Traced.bind_outcome]
  show s'.peek.bind _ = _
  congr 1
  funext t s''
  split <;> rfl

end Setting
end Calculator
