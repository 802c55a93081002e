import Calculator.Proofs.Climb.Fair

/-!
# Parsing ends and looks no further than one token ahead

A fair parse ends when it is allowed more steps than there are tokens left.  Any number of steps
above that of the tokens which it took gives the same parse again, with the same record.

* `Traced.Agree n r r'`   `r'` is the reading `r`, if that one ended and took less than `n` tokens;
* `Setting.run_agree`     every call agrees with itself on fewer or more steps;
* `Traced.Bounded s r`    the bounds on a parse, in terms of the source;
* `parse_bounded`         they hold of every parse.
-/

namespace Calculator

namespace Traced

variable {α β : Type}

/-- `r'` is the reading `r`, if that one ended and took less than `n` tokens -/
def Agree (n : Nat) (r r' : Traced α) : Prop :=
  r.outcome ≠ .unfinished → r.taken.length < n → r' = r

theorem Agree.refl (n : Nat) (r : Traced α) : Agree n r r := fun _ _ => rfl

theorem agree_unfinished (n : Nat) (r' : Traced α) : Agree n (still .unfinished) r' :=
  fun h => absurd rfl h

theorem agree_zero (r r' : Traced α) : Agree 0 r r' := fun _ h => absurd h (Nat.not_lt_zero _)

theorem Agree.nested {n : Nat} {r r' : Traced α} (h : Agree n r r') : Agree n r.nested r'.nested :=
  fun hr hn => congrArg Traced.nested (h hr hn)

theorem Agree.mono {m n : Nat} {r r' : Traced α} (h : Agree n r r') (hm : m ≤ n) : Agree m r r' :=
  fun hr hlt => h hr (Nat.lt_of_lt_of_le hlt hm)

theorem Agree.bind {n : Nat} {r r' : Traced α} {f f' : α → Stream → Traced β} (hr : Agree n r r')
    (hf : ∀ a s, r.outcome = .done a s → Agree (n - r.taken.length) (f a s) (f' a s)) :
    Agree n (r.bind f) (r'.bind f') := by
  intro hend hlt
  cases ho : r.outcome with
  | done a s =>
    rw [bind_done ho] at hend hlt ⊢
    have hlen : (r.taken ++ (f a s).taken).length < n := hlt
    rw [List.length_append] at hlen
    have he : r' = r := hr (by rw [ho]; exact fun h => by cases h) (by omega)
    have hf' : f' a s = f a s := hf a s ho hend (by omega)
    rw [he, bind_done ho, hf']
  | failed e s =>
    rw [bind_failed ho] at hlt ⊢
    have hlen : (r.taken ++ []).length < n := hlt
    rw [List.append_nil] at hlen
    have he : r' = r := hr (by rw [ho]; exact fun h => by cases h) hlen
    rw [he, bind_failed ho]
  | unfinished =>
    rw [bind_unfinished ho] at hend
    exact absurd rfl hend

end Traced

/-! ## every call -/

namespace Setting

open Traced

variable (σ : Setting)

section
variable {item item' : Stream → Traced Expr} {parse parse' : Int → Stream → Traced Expr}
  {more more' : Kind → Kind → Stream → Traced (List Expr)} {n : Nat}
  (hmore : ∀ k k' s, Agree n (more k k' s) (more' k k' s))
include hmore

theorem agree_items (hitem : ∀ s, Agree n (item s) (item' s)) (use : Bracket) (t : Token)
    (s : Stream) : Agree n (σ.traceItems item more use t s) (σ.traceItems item' more' use t s) := by
  unfold traceItems
  cases σ.grammar.closing? use with
  | none => exact Agree.refl n _
  | some closing =>
    refine Agree.bind (Agree.refl n _) fun closed s' _ => ?_
    cases closed with
    | true => exact Agree.refl _ _
    | false =>
      rw [if_neg Bool.false_ne_true, if_neg Bool.false_ne_true]
      cases σ.grammar.separator? with
      | none => exact Agree.refl _ _
      | some separator =>
        refine Agree.bind ((hitem s').mono (Nat.sub_le _ _)) fun x s₁ _ => ?_
        exact Agree.bind ((hmore separator closing s₁).mono (by omega))
          fun xs s₂ _ => Agree.refl _ _

theorem agree_operand (hparse : ∀ m s, Agree n (parse m s) (parse' m s)) (t : Token) (s : Stream) :
    Agree n (σ.traceOperand parse more t s) (σ.traceOperand parse' more' t s) := by
  unfold traceOperand
  cases σ.grammar.prefixRole? t.kind with
  | none => exact Agree.refl n _
  | some role =>
    cases role with
    | leaf => exact Agree.refl n _
    | operator => exact Agree.bind (hparse _ s) fun x s' _ => Agree.refl _ _
    | grouping =>
      cases σ.grammar.closing? .grouping with
      | none => exact Agree.refl n _
      | some closing => exact Agree.bind (hparse 0 s) fun x s' _ => Agree.refl _ _
    | array =>
      exact Agree.bind (σ.agree_items hmore (hparse 0) .array t s) fun xs s' _ => Agree.refl _ _

theorem agree_extend (hparse : ∀ m s, Agree n (parse m s) (parse' m s)) (left : Expr) (t : Token)
    (s : Stream) :
    Agree n (σ.traceExtend parse more left t s) (σ.traceExtend parse' more' left t s) := by
  unfold traceExtend
  cases σ.grammar.infixRole? t.kind with
  | none => exact Agree.refl n _
  | some role =>
    cases role with
    | left => exact Agree.bind (hparse _ s) fun right s' _ => Agree.refl _ _
    | right => exact Agree.bind (hparse _ s) fun right s' _ => Agree.refl _ _
    | suffix => exact Agree.refl n _
    | call =>
      exact Agree.bind (σ.agree_items hmore (hparse 0) .call t s) fun xs s' _ => Agree.refl _ _

end

/-- a call that ended with `N` steps is the same with any number above that of its tokens -/
theorem run_agree (N : Nat) : ∀ n,
    (∀ m s, Agree n (σ.traceAt N m s) (σ.traceAt n m s)) ∧
    (∀ m left s, Agree n (σ.traceClimb N m left s) (σ.traceClimb n m left s)) ∧
    (∀ k k' s, Agree n (σ.traceMore N k k' s) (σ.traceMore n k k' s)) := by
  induction N with
  | zero =>
    intro n
    cases n with
    | zero => exact ⟨fun _ _ => agree_zero _ _, fun _ _ _ => agree_zero _ _,
        fun _ _ _ => agree_zero _ _⟩
    | succ n =>
      refine ⟨fun m s => ?_, fun m left s => ?_, fun k k' s => ?_⟩
      · rw [traceAt]
        exact agree_unfinished _ _
      · rw [traceClimb, traceClimb]
        refine Agree.bind (Agree.refl _ _) fun tighter s' _ => ?_
        cases tighter with
        | true => exact agree_unfinished _ _
        | false => exact Agree.refl _ _
      · rw [traceMore, traceMore]
        refine Agree.bind (Agree.refl _ _) fun goesOn s' _ => ?_
        cases goesOn with
        | true => exact agree_unfinished _ _
        | false => exact Agree.refl _ _
  | succ N ih =>
    intro n
    cases n with
    | zero => exact ⟨fun _ _ => agree_zero _ _, fun _ _ _ => agree_zero _ _,
        fun _ _ _ => agree_zero _ _⟩
    | succ n =>
      obtain ⟨iha, ihc, ihm⟩ := ih n
      refine ⟨fun m s => ?_, fun m left s => ?_, fun k k' s => ?_⟩
      · rw [traceAt, traceAt]
        refine Agree.nested (Agree.bind (Agree.refl _ _) fun t s' hpop => ?_)
        rw [taken_of_pop hpop, Nat.add_sub_cancel]
        exact Agree.bind (σ.agree_operand ihm iha t s')
          fun left s'' _ => (ihc m left s'').mono (Nat.sub_le _ _)
      · rw [traceClimb, traceClimb]
        refine Agree.bind (Agree.refl _ _) fun tighter s' _ => ?_
        refine Agree.mono ?_ (Nat.sub_le _ _)
        cases tighter with
        | true =>
          refine Agree.bind (Agree.refl _ _) fun t s'' hpop => ?_
          rw [taken_of_pop hpop, Nat.add_sub_cancel]
          exact Agree.bind (σ.agree_extend ihm iha left t s'')
            fun left' s₃ _ => (ihc m left' s₃).mono (Nat.sub_le _ _)
        | false => exact Agree.refl _ _
      · rw [traceMore, traceMore]
        refine Agree.bind (Agree.refl _ _) fun goesOn s' hacc => ?_
        cases goesOn with
        | true =>
          rw [taken_of_accept hacc, Nat.add_sub_cancel]
          refine Agree.bind (iha 0 s') fun x s₁ _ => ?_
          exact Agree.bind ((ihm k k' s₁).mono (Nat.sub_le _ _)) fun xs s₂ _ => Agree.refl _ _
        | false => exact Agree.refl _ _

/-! ## whole parses -/

theorem traceParse_fair (hend : Kind.ending ∉ σ.grammar.kinds) (n : Nat) (s : Stream) :
    Fair n s (σ.traceParse n s) := by
  refine Fair.bind ((σ.run_fair hend n).1 0 s) fun e s' _ => ?_
  refine Fair.bind (fair_peek _ s') fun t s'' _ => ?_
  split
  · exact fair_done _ e s''
  · exact fair_failed _ _ s''

theorem traceParse_agree (N n : Nat) (s : Stream) :
    Agree n (σ.traceParse N s) (σ.traceParse n s) :=
  Agree.bind ((σ.run_agree N n).1 0 s) fun _ _ _ => Agree.refl _ _

end Setting

namespace Traced

variable {α : Type}

/-- the reading ends, with at most one result of the lexer for each character left and one more, at
most one ending token among them, and calls nested no deeper than its tokens and one more -/
structure Bounded (s : Stream) (r : Traced α) : Prop where
  ended : r.outcome ≠ .unfinished
  record : r.Pulls s
  pulls : r.pulled.length ≤ s.lexer.source.length - s.lexer.cursor + 1
  endings : r.pulled.countP Lexer.isEnding ≤ 1
  tokens : r.taken.length ≤ s.waiting.length + (s.lexer.source.length - s.lexer.cursor) + 1
  nesting : r.depth ≤ r.taken.length + 1

theorem Fair.bounded {s : Stream} {r : Traced α} (h : Fair s.budget s r) : Bounded s r := by
  obtain ⟨hrec, hp, he, ht, hn, hs⟩ := h
  have hone : s.endingsLeft ≤ 1 := by
    unfold Stream.endingsLeft
    split <;> omega
  have hrest : s.lexer.rest.length = s.lexer.source.length - s.lexer.cursor := List.length_drop
  unfold Stream.tokensLeft Stream.pullsLeft at *
  unfold Stream.budget at hs
  refine ⟨fun ho => ?_, hrec, by omega, by omega, by omega, hn⟩
  have := hs ho
  omega

end Traced

theorem Setting.finished (σ : Setting) (hend : Kind.ending ∉ σ.grammar.kinds) (s : Stream) :
    (∀ m, σ.parseFrom m s ≠ .unfinished) ∧ σ.parse s ≠ .unfinished := by
  refine ⟨fun m => ?_, ?_⟩
  · have hb := ((σ.run_fair hend s.budget).1 m s).bounded
    rw [Setting.parseFrom, ← σ.traceAt_outcome]
    exact hb.ended
  · have hb := (σ.traceParse_fair hend s.budget s).bounded
    rw [← σ.traceParse_outcome]
    exact hb.ended

/-- **Parsing ends, and looks no further than one token ahead.**  In a grammar that does not
register the ending kind, at any stream and any threshold, `parseFrom` and `parse` have a bounded
reading behind them: it is their outcome, and every number of steps above that of its tokens gives
it. -/
theorem parse_bounded (σ : Setting) (s : Stream) (hend : Kind.ending ∉ σ.grammar.kinds) :
    (∀ m : Int, ∃ r : Traced Expr, r.Bounded s ∧ σ.parseFrom m s = r.outcome ∧
      ∀ n, r.taken.length < n → σ.traceAt n m s = r ∧ σ.parseAt n m s = r.outcome) ∧
    (∃ r : Traced Expr, r.Bounded s ∧ σ.parse s = r.outcome ∧
      ∀ n, r.taken.length < n → σ.traceParse n s = r) := by
  refine ⟨fun m => ?_, ?_⟩
  · have hb := ((σ.run_fair hend s.budget).1 m s).bounded
    refine ⟨_, hb, (σ.traceAt_outcome s.budget m s).symm, fun n hn => ?_⟩
    have heq := (σ.run_agree s.budget n).1 m s hb.ended hn
    exact ⟨heq, by rw [← σ.traceAt_outcome, heq]⟩
  · have hb := (σ.traceParse_fair hend s.budget s).bounded
    exact ⟨_, hb, (σ.traceParse_outcome s).symm, fun n hn =>
      σ.traceParse_agree s.budget n s hb.ended hn⟩

/-- a stream over a call with two arguments -/
def callStream : Stream := Stream.ofLexer (Mode.scientific.lexer "f[a, b] ".toList)

/-- six tokens are taken and seven results pulled: the last one is the ending token, which is only
looked at -/
theorem callStream_bounded :
    Kind.ending ∉ Mode.scientific.language.kinds ∧
    ∃ r : Traced Expr, r.Bounded callStream ∧
      Setting.parse ⟨Mode.scientific.language, 10⟩ callStream = r.outcome ∧
      r.outcome.value?.map Expr.text = some "(call f a b)".toList ∧
      r.pulled.map Lexer.isEnding = [false, false, false, false, false, false, true] ∧
      r.taken.length = 6 ∧ r.depth = 2 := by
  have hend := (Mode.grammar_standard (Mode.grammar_eq .scientific)).noEnding
  have hrun : (fun r : Traced Expr => (r.outcome.value?.map Expr.text,
        r.pulled.map Lexer.isEnding, r.taken.length, r.depth))
      (Setting.traceParse ⟨Mode.scientific.language, 10⟩ 10 callStream)
      = (some "(call f a b)".toList, [false, false, false, false, false, false, true], 6, 2) := by
    decide +kernel
  have hany (g : Grammar) (hg : Kind.ending ∉ g.kinds) := (parse_bounded ⟨g, 10⟩ callStream hg).2
  obtain ⟨r, hb, hout, hall⟩ := hany Mode.scientific.language hend
  have hlt : r.taken.length < 10 := Nat.lt_succ_of_le hb.tokens
  rw [hall 10 hlt] at hrun
  simp only [Prod.mk.injEq] at hrun
  exact ⟨hend, r, hb, hout, hrun.1, hrun.2.1, hrun.2.2.1, hrun.2.2.2⟩

end Calculator
