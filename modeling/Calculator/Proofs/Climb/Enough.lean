import Calculator.Proofs.Climb.Fair
import Calculator.Proofs.Climb.Soundness
import Calculator.Proofs.Token.Ahead

/-!
# The steps that a parse is given are enough

In any grammar, also in one that gives the ending kind a role, a parse of a lexer at its start that
finishes with some number of steps finishes in the same way with the steps of its budget.  Every
call takes a token before it makes another call, so as long as tokens other than the ending token
are ahead, a step is paid for by a token.  Once only ending tokens are ahead the stream looks the
same after every token: either the ending token is no operand that has operands of its own, and a
step is enough, or no number of steps is.

* `Settled j k run`           `k` steps are enough for the reading, and the stream behind it still
                              ends by `j`;
* `Settled.bind`, `Settled.step`    one reading after another; a reading that costs a step;
* `Setting.ending_operand`    an ending token among ending tokens is an operand at once or never;
* `Setting.run_settles`       the three calls above thresholds that are not negative, by induction
                              on where the stream ends;
* `Setting.parseFrom_eq`, `Setting.parse_eq_unfinished_iff`   the budget of a lexer at its start is
                              enough.
-/

namespace Calculator

variable {α β : Type}

/-- no number of steps gives another outcome than `k` steps do, and a stream that is left still ends
by `j` -/
structure Settled (j k : Nat) (run : Nat → Outcome α) : Prop where
  enough : ∀ n, run n ≠ .unfinished → run k = run n
  keeps : ∀ n a s, run n = .done a s → s.EndsBy j

theorem settled_const {j k : Nat} {o : Outcome α} (h : ∀ a s, o = .done a s → s.EndsBy j) :
    Settled j k (fun _ => o) :=
  ⟨fun _ _ => rfl, fun _ a s ho => h a s ho⟩

theorem settled_done {j k : Nat} {a : α} {s : Stream} (h : s.EndsBy j) :
    Settled j k (fun _ => .done a s) := by
  refine settled_const fun a' s' ho => ?_
  cases ho
  exact h

theorem settled_failed {j k : Nat} {e : Error} {s : Stream} :
    Settled j k (fun _ => (.failed e s : Outcome α)) :=
  settled_const fun _ _ ho => nomatch ho

theorem settled_never {j k : Nat} {run : Nat → Outcome α} (h : ∀ n, run n = .unfinished) :
    Settled j k run :=
  ⟨fun n hn => absurd (h n) hn, fun n a s ho => by rw [h n] at ho; cases ho⟩

theorem Settled.mono {i j k : Nat} {run : Nat → Outcome α} (h : Settled i k run) (hij : i ≤ j) :
    Settled j k run :=
  ⟨h.enough, fun n a s ho => (h.keeps n a s ho).mono hij⟩

theorem Settled.bind {j k : Nat} {run : Nat → Outcome α} {f : Nat → α → Stream → Outcome β}
    (h : Settled j k run)
    (hf : ∀ n a s, run n = .done a s → s.EndsBy j → Settled j k (fun n => f n a s)) :
    Settled j k (fun n => (run n).bind (f n)) := by
  refine ⟨fun n hn => ?_, fun n b s ho => ?_⟩
  · cases hrun : run n with
    | done a s =>
      rw [hrun, Outcome.bind_done] at hn
      have hk := h.enough n (by rw [hrun]; nofun)
      rw [hk, hrun, Outcome.bind_done, Outcome.bind_done]
      exact (hf n a s hrun (h.keeps n a s hrun)).enough n hn
    | failed e s =>
      have hk := h.enough n (by rw [hrun]; nofun)
      rw [hk, hrun, Outcome.bind_failed, Outcome.bind_failed]
    | unfinished =>
      rw [hrun, Outcome.bind_unfinished] at hn
      exact absurd rfl hn
  · obtain ⟨a, s₁, hrun, hb⟩ := Outcome.bind_eq_done.mp ho
    exact (hf n a s₁ hrun (h.keeps n a s₁ hrun)).keeps n b s hb

/-- a reading that can do nothing without a step needs one step more than what it does with it -/
theorem Settled.step {j k : Nat} {run : Nat → Outcome α} (h₀ : run 0 = .unfinished)
    (h : Settled j k (fun n => run (n + 1))) : Settled j (k + 1) run := by
  refine ⟨fun n hn => ?_, fun n a s ho => ?_⟩
  · cases n with
    | zero => exact absurd h₀ hn
    | succ n => exact h.enough n hn
  · cases n with
    | zero =>
      rw [h₀] at ho
      cases ho
    | succ n => exact h.keeps n a s ho

/-! ## tokens -/

namespace Stream

variable {s s' : Stream} {j : Nat}

theorem EndsBy.pop_le {t : Token} (h : s.EndsBy j) (hp : s.pop = .done t s') : s'.EndsBy j :=
  (h.mono (Nat.le_succ j)).pop hp

theorem EndsBy.consume {k : Kind} {t : Token} (h : s.EndsBy j) (hc : s.consume k = .done t s') :
    s'.EndsBy j := by
  obtain ⟨u, s₁, hp, hc⟩ := Outcome.bind_eq_done.mp hc
  split at hc
  · exact (h.peek hp).pop_le hc
  · cases hc

theorem EndsBy.accept {k : Kind} {b : Bool} (h : s.EndsBy j) (ha : s.accept k = .done b s') :
    s'.EndsBy j := by
  obtain ⟨u, s₁, hp, ha⟩ := Outcome.bind_eq_done.mp ha
  split at ha
  · obtain ⟨v, s₂, hv, ha⟩ := Outcome.bind_eq_done.mp ha
    cases ha
    exact (h.peek hp).pop_le hv
  · cases ha
    exact h.peek hp

theorem EndsBy.accepted {k : Kind} (h : s.EndsBy (j + 1)) (ha : s.accept k = .done true s') :
    s'.EndsBy j := by
  obtain ⟨u, s₁, hp, ha⟩ := Outcome.bind_eq_done.mp ha
  split at ha
  · obtain ⟨v, s₂, hv, ha⟩ := Outcome.bind_eq_done.mp ha
    cases ha
    exact (h.peek hp).pop hv
  · cases ha

theorem EndsBy.refuse {k : Kind} (h : s.EndsBy 0) (hk : k ≠ Kind.ending) :
    ∃ s', s.accept k = .done false s' ∧ s'.EndsBy 0 := by
  obtain ⟨t, s₁, hp, ht, hs₁⟩ := h.peek_spent
  refine ⟨s₁, ?_, hs₁⟩
  unfold Stream.accept
  rw [hp, Outcome.bind_done, if_neg]
  rw [ht]
  exact hk.symm

end Stream

/-! ## roles -/

namespace Setting

variable (σ : Setting)

theorem settled_close {j k : Nat} (closing : Kind) {s : Stream} (h : s.EndsBy j) :
    Settled j k (fun _ =>
      (s.consume closing).bind fun _ s => (.done [] s : Outcome (List Expr))) :=
  (settled_const fun _ _ => h.consume).bind fun _ _ _ _ hs => settled_done hs

section
variable {j k : Nat} {parse : Nat → Int → Stream → Outcome Expr}
  {more : Nat → Kind → Kind → Stream → Outcome (List Expr)}
  (hparse : ∀ m s, 0 ≤ m → s.EndsBy j → Settled j k (fun n => parse n m s))
  (hmore : ∀ separator closing s, separator ≠ Kind.ending → s.EndsBy j →
    Settled j k (fun n => more n separator closing s))
include hparse hmore

theorem settled_cons {separator : Kind} (closing : Kind) {s : Stream}
    (hsep : separator ≠ Kind.ending) (h : s.EndsBy j) :
    Settled j k (fun n => (parse n 0 s).bind fun x s =>
      (more n separator closing s).bind fun xs s => .done (x :: xs) s) := by
  refine (hparse 0 s (Int.le_refl 0) h).bind fun _ x s₁ _ hs₁ => ?_
  exact (hmore separator closing s₁ hsep hs₁).bind fun _ xs s₂ _ hs₂ => settled_done hs₂

theorem settled_items (use : Bracket) (t : Token) {s : Stream} (h : s.EndsBy j) :
    Settled j k (fun n => σ.items (parse n 0) (more n) use t s) := by
  unfold items
  cases σ.grammar.closing? use with
  | none => exact settled_failed
  | some closing =>
    refine (settled_const fun _ _ => h.accept).bind fun _ closed s₁ _ hs₁ => ?_
    cases closed with
    | true => exact settled_done hs₁
    | false =>
      cases hsep : σ.grammar.separator? with
      | none => exact settled_failed
      | some separator =>
        exact settled_cons hparse hmore closing (Grammar.separator?_ne_ending hsep) hs₁

theorem settled_operand (t : Token) {s : Stream} (h : s.EndsBy j) :
    Settled j k (fun n => σ.operand (parse n) (more n) t s) := by
  unfold operand
  cases σ.grammar.prefixRole? t.kind with
  | none => exact settled_failed
  | some role =>
    cases role with
    | leaf =>
      rcases σ.leaf_cases t s with ⟨e, he⟩ | ⟨e, he⟩
      · rw [he]
        exact settled_done h
      · rw [he]
        exact settled_failed
    | operator =>
      exact (hparse _ s t.kind.precedence.strength_nonneg h).bind
        fun _ x s₁ _ hs₁ => settled_done hs₁
    | grouping =>
      cases σ.grammar.closing? .grouping with
      | none => exact settled_failed
      | some closing =>
        refine (hparse 0 s (Int.le_refl 0) h).bind fun _ x s₁ _ hs₁ => ?_
        exact (settled_const fun _ _ => hs₁.consume).bind fun _ _ s₂ _ hs₂ => settled_done hs₂
    | array =>
      exact (σ.settled_items hparse hmore .array t h).bind fun _ xs s₁ _ hs₁ => settled_done hs₁

theorem settled_extend (left : Expr) {t : Token} (ht : 0 < σ.strength t.kind) {s : Stream}
    (h : s.EndsBy j) : Settled j k (fun n => σ.extend (parse n) (more n) left t s) := by
  unfold extend
  cases hr : σ.grammar.infixRole? t.kind with
  | none => exact settled_failed
  | some role =>
    rw [strength_of_infixRole hr] at ht
    cases role with
    | left =>
      exact (hparse _ s (Int.le_of_lt ht) h).bind fun _ x s₁ _ hs₁ => settled_done hs₁
    | right =>
      exact (hparse _ s (Int.le_sub_one_of_lt ht) h).bind fun _ x s₁ _ hs₁ => settled_done hs₁
    | suffix => exact settled_done h
    | call =>
      exact (σ.settled_items hparse hmore .call t h).bind fun _ xs s₁ _ hs₁ => settled_done hs₁

end

/-! ## at the end -/

theorem strength_ending : σ.strength Kind.ending = 0 := by
  unfold strength
  split <;> rfl

/-- the token is not read as an operand to its end when its own operands are not -/
def Endless (t : Token) (s : Stream) : Prop :=
  ∀ parse more, (∀ m s, s.EndsBy 0 → parse m s = .unfinished) →
    σ.operand parse more t s = .unfinished

/-- the token makes an operand or fails in one way, however its operands would be read -/
def Immediate (t : Token) (s : Stream) : Prop :=
  ∃ o, (∀ parse more, σ.operand parse more t s = o) ∧ ∀ x s', o = .done x s' → s'.EndsBy 0

variable {σ}

theorem immediate_of_failed {t : Token} {s : Stream} (e : Error) (s' : Stream)
    (h : ∀ parse more, σ.operand parse more t s = .failed e s') : σ.Immediate t s :=
  ⟨_, h, fun _ _ ho => nomatch ho⟩

theorem immediate_of_leaf {t : Token} {s : Stream}
    (hr : σ.grammar.prefixRole? t.kind = some .leaf) (hs : s.EndsBy 0) : σ.Immediate t s := by
  have hall (parse more) : σ.operand parse more t s = σ.leaf t s := by
    unfold operand
    rw [hr]
  rcases σ.leaf_cases t s with ⟨e, he⟩ | ⟨e, he⟩
  · refine ⟨_, hall, fun x s' ho => ?_⟩
    rw [he] at ho
    cases ho
    exact hs
  · refine immediate_of_failed e s fun parse more => ?_
    rw [hall, he]

theorem ending_array (hr : σ.grammar.prefixRole? Kind.ending = some .array) :
    (∀ t s, t.kind = Kind.ending → s.EndsBy 0 → σ.Endless t s) ∨
    (∀ t s, t.kind = Kind.ending → s.EndsBy 0 → σ.Immediate t s) := by
  have hall {t : Token} (ht : t.kind = Kind.ending) (s : Stream) (parse more) :
      σ.operand parse more t s
        = (σ.items (parse 0) more .array t s).bind fun xs s => .done (.array t xs) s := by
    unfold operand
    rw [ht, hr]
  cases hc : σ.grammar.closing? .array with
  | none =>
    refine Or.inr fun t s ht _ =>
      immediate_of_failed (.missing Bracket.array.label t) s fun parse more => ?_
    rw [hall ht]
    unfold items
    rw [hc]
    rfl
  | some closing =>
    have hclosing := Grammar.closing?_ne_ending hc
    cases hsep : σ.grammar.separator? with
    | none =>
      refine Or.inr fun t s ht hs => ?_
      obtain ⟨s₁, ha, -⟩ := hs.refuse hclosing
      refine immediate_of_failed (.missing "argument separator" t) s₁ fun parse more => ?_
      rw [hall ht]
      unfold items
      rw [hc, hsep]
      dsimp only
      rw [ha]
      rfl
    | some separator =>
      refine Or.inl fun t s ht hs parse more hnever => ?_
      obtain ⟨s₁, ha, hs₁⟩ := hs.refuse hclosing
      rw [hall ht]
      unfold items
      rw [hc, hsep]
      dsimp only
      rw [ha, Outcome.bind_done, if_neg Bool.false_ne_true, hnever 0 s₁ hs₁]
      rfl

variable (σ)

/-- among ending tokens an ending token starts an operand that is never read to its end, or it is
dealt with at once; which of them, the grammar decides -/
theorem ending_operand :
    (∀ t s, t.kind = Kind.ending → s.EndsBy 0 → σ.Endless t s) ∨
    (∀ t s, t.kind = Kind.ending → s.EndsBy 0 → σ.Immediate t s) := by
  cases hr : σ.grammar.prefixRole? Kind.ending with
  | none =>
    refine Or.inr fun t s ht _ => immediate_of_failed (.misplaced t) s fun parse more => ?_
    unfold operand
    rw [ht, hr]
  | some role =>
    cases role with
    | leaf =>
      refine Or.inr fun t s ht hs => immediate_of_leaf ?_ hs
      rw [ht]
      exact hr
    | operator =>
      refine Or.inl fun t s ht hs parse more hnever => ?_
      unfold operand
      rw [ht, hr]
      dsimp only
      rw [hnever _ s hs]
      rfl
    | grouping =>
      cases hc : σ.grammar.closing? .grouping with
      | none =>
        refine Or.inr fun t s ht _ =>
          immediate_of_failed (.missing Bracket.grouping.label t) s fun parse more => ?_
        unfold operand
        rw [ht, hr, hc]
      | some closing =>
        refine Or.inl fun t s ht hs parse more hnever => ?_
        unfold operand
        rw [ht, hr, hc]
        dsimp only
        rw [hnever 0 s hs]
        rfl
    | array => exact ending_array hr

/-! ## every call -/

/-- what `climb` does behind a token that binds tighter -/
def climbOn (m : Int) (left : Expr) : Nat → Stream → Outcome Expr
  | 0, _ => .unfinished
  | n + 1, s =>
    s.pop.bind fun t s =>
      (σ.extend (fun m s => σ.parseAt n m s) (fun k k' s => σ.more n k k' s) left t s).bind
        fun left s => σ.climb n m left s

theorem climb_eq (n : Nat) (m : Int) (left : Expr) (s : Stream) :
    σ.climb n m left s = (σ.bindsTighter m s).bind fun tighter s =>
      if tighter then σ.climbOn m left n s else .done left s := by
  cases n with
  | zero => rw [climb]; rfl
  | succ n => rw [climb]; rfl

/-- what `more` does behind a separator -/
def moreOn (separator closing : Kind) : Nat → Stream → Outcome (List Expr)
  | 0, _ => .unfinished
  | n + 1, s =>
    (σ.parseAt n 0 s).bind fun x s =>
      (σ.more n separator closing s).bind fun xs s => .done (x :: xs) s

theorem more_eq (n : Nat) (separator closing : Kind) (s : Stream) :
    σ.more n separator closing s = (s.accept separator).bind fun goesOn s =>
      if goesOn then σ.moreOn separator closing n s
      else (s.consume closing).bind fun _ s => .done [] s := by
  cases n with
  | zero => rw [more]; rfl
  | succ n => rw [more]; rfl

/-- `k` steps are enough for each of the three calls at a stream that ends by `j` -/
structure Settles (j k : Nat) : Prop where
  parse : ∀ m s, 0 ≤ m → s.EndsBy j → Settled j k (fun n => σ.parseAt n m s)
  climb : ∀ m left s, 0 ≤ m → s.EndsBy j → Settled j k (fun n => σ.climb n m left s)
  more : ∀ separator closing s, separator ≠ Kind.ending → s.EndsBy j →
    Settled j k (fun n => σ.more n separator closing s)

theorem climb_spent (k : Nat) {m : Int} (hm : 0 ≤ m) (left : Expr) {s : Stream} (h : s.EndsBy 0) :
    Settled 0 k (fun n => σ.climb n m left s) := by
  obtain ⟨t, s₁, hp, ht, hs₁⟩ := h.peek_spent
  have hall (n : Nat) : σ.climb n m left s = .done left s₁ := by
    rw [climb_eq]
    unfold bindsTighter
    rw [hp, Outcome.bind_done, Outcome.bind_done, ht, strength_ending,
      decide_eq_false (Int.not_lt.mpr hm)]
    rfl
  rw [funext hall]
  exact settled_done hs₁

theorem more_spent (k : Nat) {separator : Kind} (closing : Kind) {s : Stream}
    (hsep : separator ≠ Kind.ending) (h : s.EndsBy 0) :
    Settled 0 k (fun n => σ.more n separator closing s) := by
  obtain ⟨s₁, ha, hs₁⟩ := h.refuse hsep
  have hall (n : Nat) : σ.more n separator closing s
      = (s₁.consume closing).bind fun _ s => .done [] s := by
    rw [more_eq, ha]
    rfl
  rw [funext hall]
  exact settled_close closing hs₁

theorem parseAt_spent (k : Nat) {m : Int} (hm : 0 ≤ m) {s : Stream} (h : s.EndsBy 0) :
    Settled 0 (k + 1) (fun n => σ.parseAt n m s) := by
  rcases σ.ending_operand with hendless | himmediate
  · have hnever (n : Nat) : ∀ m s, s.EndsBy 0 → σ.parseAt n m s = .unfinished := by
      induction n with
      | zero =>
        intro m s _
        rw [parseAt]
      | succ n ih =>
        intro m s hs
        obtain ⟨t, s₁, hp, ht, hs₁⟩ := hs.pop_spent
        rw [parseAt, hp, Outcome.bind_done, hendless t s₁ ht hs₁ _ _ ih]
        rfl
    exact settled_never fun n => hnever n m s h
  · refine Settled.step (by rw [parseAt]) ?_
    obtain ⟨t, s₁, hp, ht, hs₁⟩ := h.pop_spent
    obtain ⟨o, ho, hkeeps⟩ := himmediate t s₁ ht hs₁
    have hall (n : Nat) : σ.parseAt (n + 1) m s = o.bind fun left s => σ.climb n m left s := by
      rw [parseAt, hp, Outcome.bind_done, ho]
    rw [funext hall]
    exact (settled_const hkeeps).bind fun _ left s₂ _ hs₂ => σ.climb_spent k hm left hs₂

/-- before the end a token pays for the step that its call takes -/
theorem Settles.succ {j k : Nat} (h : σ.Settles j k) : σ.Settles (j + 1) (k + 1) where
  parse := fun m s hm hs => by
    refine Settled.step (by rw [parseAt]) ?_
    simp only [parseAt]
    cases hp : s.pop with
    | done t s₁ =>
      have hs₁ := hs.pop hp
      refine Settled.mono ?_ (Nat.le_succ j)
      exact (σ.settled_operand h.parse h.more t hs₁).bind fun _ left s₂ _ hs₂ =>
        h.climb m left s₂ hm hs₂
    | failed e s₁ => exact settled_failed
    | unfinished => exact settled_never fun _ => rfl
  climb := fun m left s hm hs => by
    simp only [climb_eq]
    refine (settled_const fun _ s₁ hb => ?_).bind fun _ tighter s₁ hb hs₁ => ?_
    · obtain ⟨t, hp, -⟩ := bindsTighter_peeks hb
      exact hs.peek hp
    · obtain ⟨t, hp, ht⟩ := bindsTighter_peeks hb
      cases tighter with
      | false => exact settled_done hs₁
      | true =>
        -- the token that is taken is the one that binds tighter
        obtain ⟨hpop, s₂, hs₂⟩ := Stream.pop_of_peek hp
        have hpos : 0 < σ.strength t.kind := Int.lt_of_le_of_lt hm (of_decide_eq_true ht.symm)
        refine Settled.step rfl ?_
        simp only [if_true, climbOn, hpop, hs₂]
        have hends := hs.pop hs₂
        refine Settled.mono ?_ (Nat.le_succ j)
        exact (σ.settled_extend h.parse h.more left hpos hends).bind fun _ left' s₃ _ hs₃ =>
          h.climb m left' s₃ hm hs₃
  more := fun separator closing s hsep hs => by
    simp only [more_eq]
    refine (settled_const fun _ _ => hs.accept).bind fun _ goesOn s₁ ha hs₁ => ?_
    cases goesOn with
    | false => exact settled_close closing hs₁
    | true =>
      refine Settled.step rfl ?_
      refine Settled.mono ?_ (Nat.le_succ j)
      exact settled_cons h.parse h.more closing hsep (hs.accepted ha)

/-- more steps than tokens before the end are enough for every call -/
theorem run_settles {j k : Nat} (h : j < k) : σ.Settles j k := by
  induction j generalizing k with
  | zero =>
    obtain ⟨k, rfl⟩ := Nat.exists_eq_add_of_lt h
    refine ⟨fun m s hm hs => ?_, fun m left s hm hs => ?_, fun separator closing s hsep hs => ?_⟩
    · exact σ.parseAt_spent _ hm hs
    · exact σ.climb_spent _ hm left hs
    · exact σ.more_spent _ closing hsep hs
  | succ j ih =>
    obtain ⟨k, rfl⟩ := Nat.exists_eq_add_of_lt h
    exact (ih (by omega)).succ

/-- the budget of a lexer at its start is enough -/
theorem parseFrom_eq {l : Lexer} (h₀ : l.cursor = 0) {m : Int} (hm : 0 ≤ m) {n : Nat}
    (h : σ.parseAt n m (.ofLexer l) ≠ .unfinished) :
    σ.parseFrom m (.ofLexer l) = σ.parseAt n m (.ofLexer l) := by
  have hlt : l.rest.length < (Stream.ofLexer l).budget := by
    show l.rest.length < 0 + l.rest.length + 3
    omega
  exact ((σ.run_settles hlt).parse m _ hm (Stream.endsBy_ofLexer h₀)).enough n h

/-- a whole parse is left unfinished only when no number of steps would finish it -/
theorem parse_eq_unfinished_iff {l : Lexer} (h₀ : l.cursor = 0) :
    σ.parse (.ofLexer l) = .unfinished ↔ ∀ n, σ.parseAt n 0 (.ofLexer l) = .unfinished := by
  constructor
  · intro h n
    refine Classical.byContradiction fun hn => ?_
    have heq := σ.parseFrom_eq h₀ (Int.le_refl 0) hn
    unfold parse at h
    cases hrun : σ.parseAt n 0 (.ofLexer l) with
    | done e s =>
      rw [heq, hrun, Outcome.bind_done] at h
      cases hp : s.peek with
      | done t s' =>
        rw [hp, Outcome.bind_done] at h
        split at h <;> cases h
      | failed e' s' =>
        rw [hp] at h
        cases h
      | unfinished => exact s.peek_ne_unfinished hp
    | failed e s =>
      rw [heq, hrun] at h
      cases h
    | unfinished => exact hn hrun
  · intro h
    unfold parse parseFrom
    rw [h]
    rfl

end Setting
end Calculator
