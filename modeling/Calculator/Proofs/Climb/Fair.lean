import Calculator.Proofs.Climb.Traced
import Calculator.Proofs.Grammar.Builtin
import Calculator.Proofs.Token.Pieces

/-!
# What a parse can still get

In a grammar in which the kind that ends a stream is not registered the ending token fits nowhere:
taking it ends the parse with an error, and looking at it leaves it waiting.  So the lexer is asked
for it once at most, and every other result uses up a character.  Every call takes a token before it
goes on, so the steps that a parse needs are counted by its tokens.

* `Stream.endingsLeft`, `Stream.pullsLeft`, `Stream.tokensLeft`   how many ending tokens, results
                          and tokens a parse can still get from a stream;
* `Traced.Pulls`          the results in the record are the ones that the lexer gives;
* `Traced.Fair n s r`     the reading `r` keeps within what the stream `s` had left, and runs out of
                          `n` steps only after `n` tokens;
* `Setting.run_fair`      every call is fair.
-/

namespace Calculator

/-! ## what is left in a stream -/

/-- a pull uses up a character unless it gives the ending token -/
theorem Lexer.rest_of_next {l l' : Lexer} {r : Except Error Token} (h : l.next = (r, l')) :
    l'.rest.length ≤ l.rest.length ∧
      (Lexer.isEnding r = false → l'.rest.length < l.rest.length) := by
  have hrest : l.rest.length = l.source.length - l.cursor := List.length_drop
  have hstart : l.startOfNext = l.cursor + l.blanks.length := rfl
  unfold Lexer.next at h
  split at h
  · cases h
    have hlen : ({ l with cursor := l.startOfNext } : Lexer).rest.length
        = l.source.length - l.startOfNext := List.length_drop
    refine ⟨by omega, fun he => ?_⟩
    cases he
  · rename_i c cs hd
    cases h
    have hscan := (l.rules.scan_rest c cs).length_le
    have hdrop := (List.dropWhile_suffix l.rules.grammar.isWhitespace (l := l.rest)).length_le
    have hlen : ({ l with cursor := l.startOfNext
          + ((c :: cs).length - (l.rules.scan c cs).rest.length) } : Lexer).rest.length
        = l.source.length - (l.startOfNext
          + ((c :: cs).length - (l.rules.scan c cs).rest.length)) := List.length_drop
    rw [hd] at hdrop
    rw [List.length_cons] at hdrop hlen ⊢
    exact ⟨by omega, fun _ => by omega⟩

theorem Lexer.pull_add {l l' l'' : Lexer} {rs rs' : List (Except Error Token)} {n : Nat}
    (h : l.pull rs.length = (rs, l')) (h' : l'.pull n = (rs', l'')) :
    l.pull (rs.length + n) = (rs ++ rs', l'') := by
  induction rs generalizing l with
  | nil =>
    cases h
    rw [List.length_nil, Nat.zero_add]
    exact h'
  | cons r rs ih =>
    obtain ⟨hrs, hl'⟩ := Prod.mk.inj h
    obtain ⟨hr, hrs⟩ := List.cons.inj hrs
    have htail : l.next.2.pull rs.length = (rs, l') := Prod.ext hrs hl'
    rw [List.length_cons, Nat.add_right_comm, pull, ih htail, hr]
    rfl

namespace Stream

/-- how many ending tokens can still be pulled: none while one waits -/
def endingsLeft (s : Stream) : Nat := if s.waiting.any Token.isEnding then 0 else 1

def pullsLeft (s : Stream) : Nat := s.lexer.rest.length + s.endingsLeft

def tokensLeft (s : Stream) : Nat := s.waiting.length + s.pullsLeft

theorem endingsLeft_nil (l : Lexer) : endingsLeft ⟨[], l⟩ = 1 := rfl

theorem endingsLeft_cons (t : Token) (ts : List Token) (l : Lexer) :
    endingsLeft ⟨t :: ts, l⟩ = if t.isEnding then 0 else endingsLeft ⟨ts, l⟩ := by
  unfold endingsLeft
  rw [List.any_cons]
  cases t.isEnding <;> rfl

theorem asked_le (s : Stream) :
    s.asked.length ≤ s.pullsLeft ∧ s.asked.countP Lexer.isEnding ≤ s.endingsLeft := by
  obtain ⟨w, l⟩ := s
  cases w with
  | cons t ts => exact ⟨Nat.zero_le _, Nat.zero_le _⟩
  | nil => exact ⟨Nat.le_add_left 1 _, List.countP_le_length⟩

theorem tokensLeft_pos (s : Stream) : 1 ≤ s.tokensLeft := by
  obtain ⟨w, l⟩ := s
  cases w with
  | cons t ts => exact Nat.le_trans (Nat.le_add_left 1 _) (Nat.le_add_right _ _)
  | nil => exact Nat.le_trans (Nat.le_add_left 1 _) (Nat.le_add_left _ _)

theorem left_of_peek {s s' : Stream} {t : Token} (h : s.peek = .done t s') :
    s.asked.length + s'.pullsLeft ≤ s.pullsLeft ∧
      s.asked.countP Lexer.isEnding + s'.endingsLeft ≤ s.endingsLeft ∧
      s'.tokensLeft ≤ s.tokensLeft := by
  obtain ⟨w, l⟩ := s
  cases w with
  | cons u us =>
    cases h
    exact ⟨Nat.le_of_eq (Nat.zero_add _), Nat.le_of_eq (Nat.zero_add _), Nat.le_refl _⟩
  | nil =>
    unfold peek asked at *
    cases hn : l.next with
    | mk r l' =>
      simp only [hn] at h ⊢
      cases r with
      | error e => cases h
      | ok u =>
        obtain ⟨hle, hlt⟩ := Lexer.rest_of_next hn
        change u.isEnding = false → _ at hlt
        cases h
        unfold tokensLeft pullsLeft
        simp only [endingsLeft_cons, endingsLeft_nil, List.countP_singleton, List.length_cons,
          List.length_nil]
        show _ ∧ (if t.isEnding = true then 1 else 0) + _ ≤ 1 ∧ _
        cases ht : t.isEnding with
        | true =>
          simp only [if_true]
          omega
        | false =>
          have := hlt ht
          simp only [Bool.false_eq_true, if_false]
          omega

theorem peek_ne_unfinished (s : Stream) : s.peek ≠ .unfinished := by
  unfold peek
  split
  · exact fun h => by cases h
  · split <;> exact fun h => by cases h

theorem pop_ne_unfinished (s : Stream) : s.pop ≠ .unfinished := by
  unfold pop
  split
  · exact fun h => by cases h
  · split <;> exact fun h => by cases h

theorem left_of_pop {s s' : Stream} {t : Token} (h : s.pop = .done t s')
    (ht : t.isEnding = false) :
    s.asked.length + s'.pullsLeft ≤ s.pullsLeft ∧
      s.asked.countP Lexer.isEnding + s'.endingsLeft ≤ s.endingsLeft ∧
      1 + s'.tokensLeft ≤ s.tokensLeft := by
  obtain ⟨w', l'⟩ := s'
  have hpeek : s.peek = .done t ⟨t :: w', l'⟩ := by
    obtain ⟨w, l⟩ := s
    unfold pop at h
    unfold peek
    cases w with
    | cons u us =>
      cases h
      rfl
    | nil =>
      cases hn : l.next with
      | mk r l'' =>
        simp only [hn] at h ⊢
        cases r with
        | error e => cases h
        | ok u =>
          cases h
          rfl
  obtain ⟨hp, he, hk⟩ := left_of_peek hpeek
  unfold tokensLeft pullsLeft at *
  rw [endingsLeft_cons, ht, if_neg Bool.false_ne_true] at hp he hk
  rw [List.length_cons] at hk
  exact ⟨hp, he, by dsimp only at *; omega⟩

end Stream

/-! ## fair readings -/

/-- what a measure of streams is behind the outcome, nothing where the reading has ended -/
def Outcome.left {α : Type} (measure : Stream → Nat) : Outcome α → Nat
  | done _ s => measure s
  | failed _ _ => 0
  | unfinished => 0

namespace Traced

variable {α β : Type}

/-- the results recorded are those that the lexer gives next, and the reading left it behind them -/
def Pulls (s : Stream) (r : Traced α) : Prop :=
  ∃ l, s.lexer.pull r.pulled.length = (r.pulled, l) ∧ ∀ s' ∈ r.outcome.after?, s'.lexer = l

theorem pulls_still {o : Outcome α} {s : Stream} (h : ∀ s' ∈ o.after?, s' = s) :
    (still o).Pulls s :=
  ⟨s.lexer, rfl, fun s' hs' => by rw [h s' hs']⟩

theorem Pulls.bind {s : Stream} {r : Traced α} {f : α → Stream → Traced β} (hr : r.Pulls s)
    (hf : ∀ a s', r.outcome = .done a s' → (f a s').Pulls s') : (r.bind f).Pulls s := by
  obtain ⟨l, hl, hafter⟩ := hr
  cases ho : r.outcome with
  | done a s' =>
    obtain ⟨l', hl', hafter'⟩ := hf a s' ho
    rw [ho] at hafter
    rw [hafter s' rfl] at hl'
    rw [bind_done ho]
    refine ⟨l', ?_, hafter'⟩
    show s.lexer.pull (r.pulled ++ (f a s').pulled).length = _
    rw [List.length_append]
    exact Lexer.pull_add hl hl'
  | failed e s' =>
    rw [ho] at hafter
    rw [bind_failed ho]
    exact ⟨l, by simpa only [andThen, still, List.append_nil] using hl, hafter⟩
  | unfinished =>
    rw [bind_unfinished ho]
    exact ⟨l, by simpa only [andThen, still, List.append_nil] using hl, fun s' hs' => by cases hs'⟩

theorem pulls_peek (s : Stream) : s.tracePeek.Pulls s := by
  obtain ⟨w, l⟩ := s
  unfold Stream.tracePeek Stream.asked Stream.peek
  cases w with
  | cons t ts => exact pulls_still fun s' hs' => (Option.some.inj hs').symm
  | nil =>
    refine ⟨l.next.2, rfl, fun s' hs' => ?_⟩
    cases hn : l.next with
    | mk r l' =>
      simp only [hn] at hs'
      cases r with
      | ok t =>
        cases hs'
        rfl
      | error e =>
        cases hs'
        rfl

theorem pulls_pop (s : Stream) : s.tracePop.Pulls s := by
  obtain ⟨w, l⟩ := s
  unfold Stream.tracePop Stream.asked Stream.pop
  cases w with
  | cons t ts => exact ⟨l, rfl, fun s' hs' => by cases hs'; rfl⟩
  | nil =>
    refine ⟨l.next.2, rfl, fun s' hs' => ?_⟩
    cases hn : l.next with
    | mk r l' =>
      simp only [hn] at hs'
      cases r with
      | ok t =>
        cases hs'
        rfl
      | error e =>
        cases hs'
        rfl

/-- the record is true, the reading keeps within what the stream had left, its calls are nested no
deeper than its tokens allow, and it runs out of `n` steps only after `n` tokens -/
structure Fair (n : Nat) (s : Stream) (r : Traced α) : Prop where
  record : r.Pulls s
  pulls : r.pulled.length + r.outcome.left Stream.pullsLeft ≤ s.pullsLeft
  endings : r.pulled.countP Lexer.isEnding + r.outcome.left Stream.endingsLeft ≤ s.endingsLeft
  tokens : r.taken.length + r.outcome.left Stream.tokensLeft ≤ s.tokensLeft
  nesting : r.depth ≤ r.taken.length + 1
  short : r.outcome = .unfinished → n ≤ r.taken.length

theorem fair_done (n : Nat) (a : α) (s : Stream) : Fair n s (still (.done a s)) where
  record := pulls_still fun _ hs' => (Option.some.inj hs').symm
  pulls := Nat.le_of_eq (Nat.zero_add _)
  endings := Nat.le_of_eq (Nat.zero_add _)
  tokens := Nat.le_of_eq (Nat.zero_add _)
  nesting := Nat.zero_le _
  short h := by cases h

theorem fair_failed (n : Nat) (e : Error) (s : Stream) :
    Fair n s (still (.failed e s) : Traced α) where
  record := pulls_still fun _ hs' => (Option.some.inj hs').symm
  pulls := Nat.zero_le _
  endings := Nat.zero_le _
  tokens := Nat.zero_le _
  nesting := Nat.zero_le _
  short h := by cases h

theorem fair_unfinished (s : Stream) : Fair 0 s (still .unfinished : Traced α) where
  record := pulls_still fun _ hs' => by cases hs'
  pulls := Nat.zero_le _
  endings := Nat.zero_le _
  tokens := Nat.zero_le _
  nesting := Nat.zero_le _
  short _ := Nat.zero_le _

theorem Fair.mono {m n : Nat} {s : Stream} {r : Traced α} (h : Fair n s r) (hm : m ≤ n) :
    Fair m s r :=
  ⟨h.record, h.pulls, h.endings, h.tokens, h.nesting, fun hs => Nat.le_trans hm (h.short hs)⟩

/-- one fair reading after another, the steps of the second one counted from its start -/
theorem Fair.bind {n : Nat} {s : Stream} {r : Traced α} {f : α → Stream → Traced β}
    (hr : Fair n s r)
    (hf : ∀ a s', r.outcome = .done a s' → Fair (n - r.taken.length) s' (f a s')) :
    Fair n s (r.bind f) := by
  have hrec : (r.bind f).Pulls s := hr.record.bind fun a s' ho => (hf a s' ho).record
  obtain ⟨-, hp, he, ht, hn, hs⟩ := hr
  cases ho : r.outcome with
  | done a s' =>
    obtain ⟨-, hp', he', ht', hn', hs'⟩ := hf a s' ho
    rw [ho] at hp he ht
    simp only [Outcome.left] at hp he ht
    rw [bind_done ho] at hrec ⊢
    refine ⟨hrec, ?_, ?_, ?_, ?_, fun h => ?_⟩
    · show (r.pulled ++ (f a s').pulled).length + _ ≤ _
      rw [List.length_append]
      exact Nat.le_trans (by simp only [andThen]; omega) hp
    · show (r.pulled ++ (f a s').pulled).countP _ + _ ≤ _
      rw [List.countP_append]
      exact Nat.le_trans (by simp only [andThen]; omega) he
    · show (r.taken ++ (f a s').taken).length + _ ≤ _
      rw [List.length_append]
      exact Nat.le_trans (by simp only [andThen]; omega) ht
    · show max r.depth (f a s').depth ≤ (r.taken ++ (f a s').taken).length + 1
      rw [List.length_append]
      omega
    · show n ≤ (r.taken ++ (f a s').taken).length
      have := hs' h
      rw [List.length_append]
      omega
  | failed e s' =>
    rw [ho] at hp he ht
    rw [bind_failed ho] at hrec ⊢
    simp only [andThen, still, List.append_nil, Nat.max_zero] at hrec ⊢
    exact ⟨hrec, hp, he, ht, hn, fun h => by cases h⟩
  | unfinished =>
    have hshort := hs ho
    rw [ho] at hp he ht
    rw [bind_unfinished ho] at hrec ⊢
    simp only [andThen, still, List.append_nil, Nat.max_zero] at hrec ⊢
    exact ⟨hrec, hp, he, ht, hn, fun _ => hshort⟩

theorem fair_peek (n : Nat) (s : Stream) : Fair n s s.tracePeek := by
  have hrec := pulls_peek s
  obtain ⟨hasked, hends⟩ := s.asked_le
  unfold Stream.tracePeek at *
  cases hp : s.peek with
  | done t s' =>
    obtain ⟨h₁, h₂, h₃⟩ := Stream.left_of_peek hp
    rw [hp] at hrec
    exact ⟨hrec, h₁, h₂, Nat.le_trans (Nat.le_of_eq (Nat.zero_add _)) h₃, Nat.zero_le _,
      fun h => by cases h⟩
  | failed e s' =>
    rw [hp] at hrec
    exact ⟨hrec, hasked, hends, Nat.zero_le _, Nat.zero_le _, fun h => by cases h⟩
  | unfinished => exact absurd hp s.peek_ne_unfinished

/-- taking the next token and going on is fair, if the ending token is an error: one token more was
taken than by what goes on -/
theorem fair_pop_bind {n : Nat} (s : Stream) {f : Token → Stream → Traced β}
    (hf : ∀ t s', t.isEnding = false → Fair n s' (f t s'))
    (hend : ∀ t s', t.isEnding = true → ∃ e, f t s' = still (.failed e s')) :
    Fair (n + 1) s (s.tracePop.bind f).nested := by
  have hrec : (s.tracePop.bind f).nested.Pulls s := by
    refine (pulls_pop s).bind fun t s' _ => ?_
    cases ht : t.isEnding with
    | true =>
      obtain ⟨e, he⟩ := hend t s' ht
      rw [he]
      exact (fair_failed n e s').record
    | false => exact (hf t s' ht).record
  obtain ⟨hasked, hends⟩ := s.asked_le
  cases hp : s.pop with
  | done t s' =>
    rw [bind_done (show s.tracePop.outcome = _ from hp)] at hrec ⊢
    unfold Stream.tracePop nested andThen at *
    rw [hp] at hrec ⊢
    simp only [Outcome.value?, Option.toList_some, List.singleton_append, Nat.zero_max] at hrec ⊢
    cases ht : t.isEnding with
    | true =>
      obtain ⟨e, he⟩ := hend t s' ht
      rw [he] at hrec ⊢
      simp only [still, List.append_nil] at hrec ⊢
      exact ⟨hrec, hasked, hends, s.tokensLeft_pos, Nat.le_add_left _ _, fun h => by cases h⟩
    | false =>
      obtain ⟨h₁, h₂, h₃⟩ := Stream.left_of_pop hp ht
      obtain ⟨-, g₁, g₂, g₃, g₄, g₅⟩ := hf t s' ht
      refine ⟨hrec, ?_, ?_, ?_, Nat.succ_le_succ g₄, fun h => Nat.succ_le_succ (g₅ h)⟩
      · dsimp only
        rw [List.length_append]
        omega
      · dsimp only
        rw [List.countP_append]
        omega
      · dsimp only
        rw [List.length_cons]
        omega
  | failed e s' =>
    rw [bind_failed (show s.tracePop.outcome = _ from hp)] at hrec ⊢
    unfold Stream.tracePop nested andThen at *
    rw [hp] at hrec ⊢
    simp only [still, List.append_nil] at hrec ⊢
    exact ⟨hrec, hasked, hends, Nat.zero_le _, Nat.le_add_left _ _, fun h => by cases h⟩
  | unfinished => exact absurd hp s.pop_ne_unfinished

theorem Fair.of_nested {n : Nat} {s : Stream} {r : Traced α} (h : Fair n s r.nested) :
    Fair n s r :=
  ⟨h.record, h.pulls, h.endings, h.tokens, Nat.le_of_succ_le h.nesting, h.short⟩

theorem fair_pop {n : Nat} {s s' : Stream} {t : Token} (h : s.pop = .done t s')
    (ht : t.isEnding = false) : Fair n s s.tracePop := by
  obtain ⟨h₁, h₂, h₃⟩ := Stream.left_of_pop h ht
  have hrec := pulls_pop s
  unfold Stream.tracePop at *
  rw [h] at hrec ⊢
  exact ⟨hrec, h₁, h₂, h₃, Nat.zero_le _, fun h => by cases h⟩

theorem fair_consume (n : Nat) (s : Stream) {k : Kind} (hk : k ≠ Kind.ending) :
    Fair n s (s.traceConsume k) := by
  refine Fair.bind (fair_peek n s) fun t s' hp => ?_
  split
  · rename_i ht
    obtain ⟨e, s'', hpop⟩ := Stream.pop_of_peek hp
    rw [← e] at hpop
    exact fair_pop hpop (decide_eq_false (by rw [ht]; exact hk))
  · exact fair_failed _ _ s'

theorem fair_accept (n : Nat) (s : Stream) {k : Kind} (hk : k ≠ Kind.ending) :
    Fair n s (s.traceAccept k) := by
  refine Fair.bind (fair_peek n s) fun t s' hp => ?_
  split
  · rename_i ht
    obtain ⟨e, s'', hpop⟩ := Stream.pop_of_peek hp
    rw [← e] at hpop
    exact Fair.bind (fair_pop hpop (decide_eq_false (by rw [ht]; exact hk)))
      fun u s'' _ => fair_done _ true s''
  · exact fair_done _ false s'

theorem taken_of_pop {s s' : Stream} {t : Token} (h : s.tracePop.outcome = .done t s') :
    s.tracePop.taken.length = 1 := by
  have hpop : s.pop = .done t s' := h
  unfold Stream.tracePop
  rw [hpop]
  rfl

theorem taken_of_accept {s s' : Stream} {k : Kind}
    (h : (s.traceAccept k).outcome = .done true s') : (s.traceAccept k).taken.length = 1 := by
  unfold Stream.traceAccept at *
  cases hp : s.peek with
  | failed e s₁ =>
    rw [bind_failed (show s.tracePeek.outcome = _ from hp)] at h
    cases h
  | unfinished => exact absurd hp s.peek_ne_unfinished
  | done t s₁ =>
    rw [bind_done (show s.tracePeek.outcome = _ from hp)] at h ⊢
    obtain ⟨e, s₂, hpop⟩ := Stream.pop_of_peek hp
    rw [← e] at hpop
    split at h
    · rename_i hk
      have hpop' : s₁.tracePop.outcome = _ := hpop
      rw [if_pos hk, bind_done hpop']
      show ([] ++ (s₁.tracePop.taken ++ [])).length = 1
      rw [List.nil_append, List.append_nil]
      exact taken_of_pop hpop'
    · cases h

end Traced

/-! ## every call -/

namespace Setting

open Traced

variable (σ : Setting)

theorem leaf_cases (t : Token) (s : Stream) :
    (∃ e, σ.leaf t s = .done e s) ∨ ∃ e, σ.leaf t s = .failed e s := by
  unfold leaf
  split
  · split
    · exact Or.inl ⟨_, rfl⟩
    · exact Or.inr ⟨_, rfl⟩
  · exact Or.inl ⟨_, rfl⟩

section
variable {item : Stream → Traced Expr} {parse : Int → Stream → Traced Expr}
  {more : Kind → Kind → Stream → Traced (List Expr)} {n : Nat}

section
variable (hmore : ∀ k k' s, k ≠ Kind.ending → k' ≠ Kind.ending → Fair n s (more k k' s))
include hmore

theorem fair_items (hitem : ∀ s, Fair n s (item s)) (use : Bracket) (t : Token) (s : Stream) :
    Fair n s (σ.traceItems item more use t s) := by
  unfold traceItems
  cases hc : σ.grammar.closing? use with
  | none => exact fair_failed n _ s
  | some closing =>
    have hclosing := Grammar.closing?_ne_ending hc
    refine Fair.bind (fair_accept n s hclosing) fun closed s' _ => ?_
    cases closed with
    | true => exact fair_done _ [] s'
    | false =>
      rw [if_neg Bool.false_ne_true]
      cases hs : σ.grammar.separator? with
      | none => exact fair_failed _ _ s'
      | some separator =>
        have hsep := Grammar.separator?_ne_ending hs
        refine Fair.bind ((hitem s').mono (Nat.sub_le _ _)) fun x s₁ _ => ?_
        refine Fair.bind ((hmore separator closing s₁ hsep hclosing).mono (by omega))
          fun xs s₂ _ => ?_
        exact fair_done _ _ s₂

theorem fair_operand (hparse : ∀ m s, Fair n s (parse m s)) (t : Token) (s : Stream) :
    Fair n s (σ.traceOperand parse more t s) := by
  unfold traceOperand
  cases σ.grammar.prefixRole? t.kind with
  | none => exact fair_failed n _ s
  | some role =>
    cases role with
    | leaf =>
      show Fair n s (still (σ.leaf t s))
      rcases σ.leaf_cases t s with ⟨e, he⟩ | ⟨e, he⟩
      · rw [he]
        exact fair_done n e s
      · rw [he]
        exact fair_failed n e s
    | operator =>
      exact Fair.bind (hparse _ s) fun x s' _ => fair_done _ _ s'
    | grouping =>
      cases hc : σ.grammar.closing? .grouping with
      | none => exact fair_failed n _ s
      | some closing =>
        refine Fair.bind (hparse 0 s) fun x s' _ => ?_
        exact Fair.bind (fair_consume _ s' (Grammar.closing?_ne_ending hc))
          fun _ s'' _ => fair_done _ _ s''
    | array =>
      exact Fair.bind (σ.fair_items hmore (hparse 0) .array t s)
        fun xs s' _ => fair_done _ _ s'

theorem fair_extend (hparse : ∀ m s, Fair n s (parse m s)) (left : Expr) (t : Token) (s : Stream) :
    Fair n s (σ.traceExtend parse more left t s) := by
  unfold traceExtend
  cases σ.grammar.infixRole? t.kind with
  | none => exact fair_failed n _ s
  | some role =>
    cases role with
    | left => exact Fair.bind (hparse _ s) fun right s' _ => fair_done _ _ s'
    | right => exact Fair.bind (hparse _ s) fun right s' _ => fair_done _ _ s'
    | suffix => exact fair_done n _ s
    | call =>
      exact Fair.bind (σ.fair_items hmore (hparse 0) .call t s)
        fun xs s' _ => fair_done _ _ s'

end

theorem ending_misplaced (hend : Kind.ending ∉ σ.grammar.kinds) {t : Token}
    (ht : t.isEnding = true) (left : Expr) (s : Stream) :
    σ.traceOperand parse more t s = still (.failed (.misplaced t) s) ∧
      σ.traceExtend parse more left t s = still (.failed (.misplaced t) s) := by
  have hk : t.kind = Kind.ending := of_decide_eq_true ht
  have hp : σ.grammar.prefixRole? Kind.ending = none :=
    Option.eq_none_iff_forall_not_mem.mpr fun r hr =>
      hend (σ.grammar.mem_kinds_of_prefixRole? hr)
  have hi : σ.grammar.infixRole? Kind.ending = none :=
    Option.eq_none_iff_forall_not_mem.mpr fun r hr =>
      hend (σ.grammar.mem_kinds_of_infixRole? hr)
  unfold traceOperand traceExtend
  rw [hk, hp, hi]
  exact ⟨rfl, rfl⟩

end

theorem fair_tighter (n : Nat) (m : Int) (s : Stream) : Fair n s (σ.traceTighter m s) :=
  Fair.bind (fair_peek n s) fun _ s' _ => fair_done _ _ s'

/-- every call is fair, by induction on the steps -/
theorem run_fair (hend : Kind.ending ∉ σ.grammar.kinds) (n : Nat) :
    (∀ m s, Fair n s (σ.traceAt n m s)) ∧
    (∀ m left s, Fair n s (σ.traceClimb n m left s)) ∧
    (∀ k k' s, k ≠ Kind.ending → k' ≠ Kind.ending → Fair n s (σ.traceMore n k k' s)) := by
  induction n with
  | zero =>
    refine ⟨fun m s => ?_, fun m left s => ?_, fun k k' s hk hk' => ?_⟩
    · rw [traceAt]
      exact fair_unfinished s
    · rw [traceClimb]
      refine Fair.bind (σ.fair_tighter 0 m s) fun tighter s' _ => ?_
      rw [Nat.zero_sub]
      split
      · exact fair_unfinished s'
      · exact fair_done 0 left s'
    · rw [traceMore]
      refine Fair.bind (fair_accept 0 s hk) fun goesOn s' _ => ?_
      rw [Nat.zero_sub]
      split
      · exact fair_unfinished s'
      · exact Fair.bind (fair_consume 0 s' hk') fun _ s'' _ => fair_done _ [] s''
  | succ n ih =>
    obtain ⟨iha, ihc, ihm⟩ := ih
    refine ⟨fun m s => ?_, fun m left s => ?_, fun k k' s hk hk' => ?_⟩
    · rw [traceAt]
      refine fair_pop_bind s (fun t s' _ => ?_) (fun t s' ht => ⟨.misplaced t, ?_⟩)
      · exact Fair.bind (σ.fair_operand ihm iha t s')
          fun left s'' _ => (ihc m left s'').mono (Nat.sub_le _ _)
      · rw [(σ.ending_misplaced hend ht (.name t) s').1]
        rfl
    · rw [traceClimb]
      refine Fair.bind (σ.fair_tighter (n + 1) m s) fun tighter s' _ => ?_
      refine Fair.mono ?_ (Nat.sub_le _ _)
      split
      · refine Fair.of_nested (fair_pop_bind s' (fun t s'' _ => ?_)
          (fun t s'' ht => ⟨.misplaced t, ?_⟩))
        · exact Fair.bind (σ.fair_extend ihm iha left t s'')
            fun left' s₃ _ => (ihc m left' s₃).mono (Nat.sub_le _ _)
        · rw [(σ.ending_misplaced hend ht left s'').2]
          rfl
      · exact fair_done _ left s'
    · rw [traceMore]
      refine Fair.bind (fair_accept (n + 1) s hk) fun goesOn s' hacc => ?_
      cases goesOn with
      | true =>
        -- the separator that was taken pays for the step
        rw [taken_of_accept hacc, Nat.add_sub_cancel, if_pos rfl]
        refine Fair.bind (iha 0 s') fun x s₁ _ => ?_
        refine Fair.bind ((ihm k k' s₁ hk hk').mono (Nat.sub_le _ _)) fun xs s₂ _ => ?_
        exact fair_done _ _ s₂
      | false =>
        rw [if_neg Bool.false_ne_true]
        exact Fair.bind (fair_consume _ s' hk') fun _ s'' _ => fair_done _ [] s''

end Setting
end Calculator
