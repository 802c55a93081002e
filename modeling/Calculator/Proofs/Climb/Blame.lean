import Calculator.Proofs.Climb.Fair
import Calculator.Proofs.Token.Positions

/-!
# Every error points at a token

A parse that fails blames something that the lexer gave: the error that the lexer itself raised,
which is passed on as it is, or a token that the parser cannot use, looked at or taken before.
Errors are never placed by computing a position, so along any reading it is enough to know what was
seen: the tokens that wait, and those that were taken, are among the results pulled so far.

* `Grammar.Finds`           what a parser can find wrong with a token;
* `Stream.Seen seen s`      the waiting tokens are among the results seen so far;
* `Traced.Honest seen s r`  the reading `r` passes errors of the lexer on, and any other error is
                            found at a result that was seen;
* `Setting.run_honest`      every call is honest;
* `Lexer.cause_of_result`   what a lexer can find wrong with a piece;
* `parse_error_points`      the whole statement for a parse.
-/

namespace Calculator

/-- what a parser finds wrong with a token: no role for it at its place, another kind than the one
required, a number that cannot be read, or a role whose delimiters or separator the grammar lacks -/
inductive Grammar.Finds (g : Grammar) : Cause → Prop where
  | unparseable (lexeme : List Char) : Finds g (.unparseableToken lexeme)
  | unexpected (expected found : List Char) : Finds g (.unexpectedToken expected found)
  | unreadable (lexeme : List Char) (radix : Nat) : Finds g (.unreadableNumber lexeme radix)
  | noDelimiters (use : Bracket) : g.closing? use = none → Finds g (.missingRole use.label)
  | noSeparator : g.separator? = none → Finds g (.missingRole "argument separator")

/-! ## what was seen -/

namespace Stream

/-- the waiting tokens are among the results seen so far -/
def Seen (seen : List (Except Error Token)) (s : Stream) : Prop := ∀ t ∈ s.waiting, .ok t ∈ seen

theorem Seen.mono {seen more : List (Except Error Token)} {s : Stream} (h : s.Seen seen) :
    s.Seen (seen ++ more) := by
  intro t ht
  exact List.mem_append_left more (h t ht)

theorem seen_peek {seen : List (Except Error Token)} {s s' : Stream} {t : Token} (hs : s.Seen seen)
    (h : s.peek = .done t s') : .ok t ∈ seen ++ s.asked ∧ s'.Seen (seen ++ s.asked) := by
  obtain ⟨w, l⟩ := s
  cases w with
  | cons u us =>
    cases h
    exact ⟨List.mem_append_left _ (hs t List.mem_cons_self), hs.mono⟩
  | nil =>
    obtain ⟨hnext, rfl⟩ := peek_ofLexer h
    have ht : .ok t ∈ seen ++ [l.next.1] := by simp [hnext]
    refine ⟨ht, ?_⟩
    intro u hu
    rw [List.mem_singleton.mp hu]
    exact ht

theorem seen_pop {seen : List (Except Error Token)} {s s' : Stream} {t : Token} (hs : s.Seen seen)
    (h : s.pop = .done t s') : .ok t ∈ seen ++ s.asked ∧ s'.Seen (seen ++ s.asked) := by
  obtain ⟨w, l⟩ := s
  cases w with
  | cons u us =>
    cases h
    refine ⟨List.mem_append_left _ (hs t List.mem_cons_self), Seen.mono ?_⟩
    intro v hv
    exact hs v (List.mem_cons_of_mem t hv)
  | nil =>
    unfold pop at h
    unfold asked
    cases hn : l.next with
    | mk r l' =>
      simp only [hn] at h ⊢
      cases r with
      | error e => cases h
      | ok u =>
        cases h
        refine ⟨by simp, ?_⟩
        intro v hv
        cases hv

/-- what looking for a token asks for is in the record, and an error there is the outcome -/
theorem peek_asked {s : Stream} {e : Error} :
    (.error e ∈ s.asked ↔ ∃ s', s.peek = .failed e s') ∧
      (.error e ∈ s.asked ↔ ∃ s', s.pop = .failed e s') := by
  obtain ⟨w, l⟩ := s
  unfold asked peek pop
  cases w with
  | cons u us => simp
  | nil =>
    cases hn : l.next with
    | mk r l' =>
      cases r with
      | ok t => simp
      | error e' => simp [eq_comm]

end Stream

/-! ## honest readings -/

namespace Traced

variable {α β : Type}

theorem Pulls.ofLexer {l : Lexer} {r : Traced α} (h : r.Pulls (Stream.ofLexer l)) :
    ∃ n, r.pulled = (l.pull n).1 ∧ ∀ s ∈ r.outcome.after?, s.lexer = l.after n := by
  obtain ⟨l', hpull, hafter⟩ := h
  change l.pull r.pulled.length = (r.pulled, l') at hpull
  refine ⟨r.pulled.length, by rw [hpull], ?_⟩
  intro s hs
  rw [hafter s hs, Lexer.after, hpull]

/-- an error of the lexer ends the reading as it is; any other error is found at a result that was
seen before or in the reading, and so is every token that waits behind it -/
structure Honest (g : Grammar) (seen : List (Except Error Token)) (s : Stream) (r : Traced α) :
    Prop where
  record : r.Pulls s
  passesOn : ∀ e, .error e ∈ r.pulled → ∃ s', r.outcome = .failed e s'
  goesOn : ∀ a s', r.outcome = .done a s' → s'.Seen (seen ++ r.pulled)
  points : ∀ e s', r.outcome = .failed e s' → ∃ x ∈ seen ++ r.pulled, Lexer.position x = e.position
  blames : ∀ e s', r.outcome = .failed e s' → .error e ∈ r.pulled ∨ g.Finds e.cause

section
variable {g : Grammar} {seen : List (Except Error Token)} {s : Stream}

theorem honest_done (a : α) (hs : s.Seen seen) : Honest g seen s (still (.done a s)) where
  record := pulls_still fun _ hs' => (Option.some.inj hs').symm
  passesOn e he := by cases he
  goesOn b s' h := by
    cases h
    exact hs.mono
  points e s' h := by cases h
  blames e s' h := by cases h

theorem honest_failed {t : Token} (ht : .ok t ∈ seen) {cause : Cause} (hc : g.Finds cause) :
    Honest g seen s (still (.failed ⟨cause, t.position⟩ s) : Traced α) where
  record := pulls_still fun _ hs' => (Option.some.inj hs').symm
  passesOn e he := by cases he
  goesOn a s' h := by cases h
  points e s' h := by
    cases h
    exact ⟨.ok t, List.mem_append_left _ ht, rfl⟩
  blames e s' h := by
    cases h
    exact .inr hc

theorem honest_unfinished : Honest g seen s (still .unfinished : Traced α) where
  record := pulls_still fun _ hs' => by cases hs'
  passesOn e he := by cases he
  goesOn a s' h := by cases h
  points e s' h := by cases h
  blames e s' h := by cases h

theorem Honest.nested {r : Traced α} (h : Honest g seen s r) : Honest g seen s r.nested :=
  ⟨h.record, h.passesOn, h.goesOn, h.points, h.blames⟩

theorem Honest.bind {r : Traced α} {f : α → Stream → Traced β} (hr : Honest g seen s r)
    (hf : ∀ a s', r.outcome = .done a s' → s'.Seen (seen ++ r.pulled) →
      Honest g (seen ++ r.pulled) s' (f a s')) :
    Honest g seen s (r.bind f) := by
  have hnext : ∀ a s', r.outcome = .done a s' → Honest g (seen ++ r.pulled) s' (f a s') :=
    fun a s' ho => hf a s' ho (hr.goesOn a s' ho)
  have hrec : (r.bind f).Pulls s := hr.record.bind fun a s' ho => (hnext a s' ho).record
  cases ho : r.outcome with
  | done a s' =>
    have hq := hnext a s' ho
    rw [bind_done ho] at hrec ⊢
    refine ⟨hrec, ?_, ?_, ?_, ?_⟩
    · intro e he
      rcases List.mem_append.mp he with he | he
      · obtain ⟨s'', h⟩ := hr.passesOn e he
        rw [ho] at h
        cases h
      · exact hq.passesOn e he
    · intro b s'' h
      show s''.Seen (seen ++ (r.pulled ++ (f a s').pulled))
      rw [← List.append_assoc]
      exact hq.goesOn b s'' h
    · intro e s'' h
      show ∃ x ∈ seen ++ (r.pulled ++ (f a s').pulled), Lexer.position x = e.position
      rw [← List.append_assoc]
      exact hq.points e s'' h
    · intro e s'' h
      rcases hq.blames e s'' h with he | hc
      · exact .inl (List.mem_append_right r.pulled he)
      · exact .inr hc
  | failed e s' =>
    rw [bind_failed ho] at hrec ⊢
    simp only [andThen, still, List.append_nil] at hrec ⊢
    refine ⟨hrec, ?_, ?_, ?_, ?_⟩
    · intro e' he'
      obtain ⟨s'', h⟩ := hr.passesOn e' he'
      rw [ho] at h
      cases h
      exact ⟨s', rfl⟩
    · intro b s'' h
      cases h
    · intro e' s'' h
      cases h
      exact hr.points e s' ho
    · intro e' s'' h
      cases h
      exact hr.blames e s' ho
  | unfinished =>
    rw [bind_unfinished ho] at hrec ⊢
    simp only [andThen, still, List.append_nil] at hrec ⊢
    refine ⟨hrec, ?_, ?_, ?_, ?_⟩
    · intro e' he'
      obtain ⟨s'', h⟩ := hr.passesOn e' he'
      rw [ho] at h
      cases h
    · intro b s'' h
      cases h
    · intro e' s'' h
      cases h
    · intro e' s'' h
      cases h

theorem Honest.map {r : Traced α} (f : α → β) (hr : Honest g seen s r) :
    Honest g seen s (r.bind fun a s' => still (.done (f a) s')) :=
  hr.bind fun a _ _ hs' => honest_done (f a) hs'

variable (hs : s.Seen seen)
include hs

theorem honest_peek : Honest g seen s s.tracePeek where
  record := pulls_peek s
  passesOn _ he := Stream.peek_asked.1.mp he
  goesOn _ _ h := (Stream.seen_peek hs h).2
  points e s' h :=
    ⟨.error e, List.mem_append_right seen (Stream.peek_asked.1.mpr ⟨s', h⟩), rfl⟩
  blames _ s' h := .inl (Stream.peek_asked.1.mpr ⟨s', h⟩)

theorem honest_pop : Honest g seen s s.tracePop where
  record := pulls_pop s
  passesOn _ he := Stream.peek_asked.2.mp he
  goesOn _ _ h := (Stream.seen_pop hs h).2
  points e s' h :=
    ⟨.error e, List.mem_append_right seen (Stream.peek_asked.2.mpr ⟨s', h⟩), rfl⟩
  blames _ s' h := .inl (Stream.peek_asked.2.mpr ⟨s', h⟩)

theorem honest_consume (k : Kind) : Honest g seen s (s.traceConsume k) := by
  refine (honest_peek hs).bind ?_
  intro t s' hp hs'
  split
  · exact honest_pop hs'
  · exact honest_failed (Stream.seen_peek hs hp).1 (.unexpected k.name t.lexeme)

theorem honest_accept (k : Kind) : Honest g seen s (s.traceAccept k) := by
  refine (honest_peek hs).bind ?_
  intro t s' _ hs'
  split
  · exact (honest_pop hs').map fun _ => true
  · exact honest_done false hs'

end

end Traced

/-! ## every call -/

namespace Setting

open Traced

variable (σ : Setting)

theorem honest_leaf {seen : List (Except Error Token)} {t : Token} (ht : .ok t ∈ seen) {s : Stream}
    (hs : s.Seen seen) : Honest σ.grammar seen s (still (σ.leaf t s)) := by
  unfold leaf
  split
  · split
    · exact honest_done _ hs
    · exact honest_failed ht (.unreadable t.lexeme σ.radix)
  · exact honest_done _ hs

section
variable {parse : Int → Stream → Traced Expr} {more : Kind → Kind → Stream → Traced (List Expr)}
  (hparse : ∀ m s seen, s.Seen seen → Honest σ.grammar seen s (parse m s))
  (hmore : ∀ k k' s seen, s.Seen seen → Honest σ.grammar seen s (more k k' s))
  {seen : List (Except Error Token)} {t : Token} (ht : .ok t ∈ seen) {s : Stream}
  (hs : s.Seen seen)
include hparse hmore ht hs

theorem honest_items (use : Bracket) :
    Honest σ.grammar seen s (σ.traceItems (parse 0) more use t s) := by
  unfold traceItems
  cases hc : σ.grammar.closing? use with
  | none => exact honest_failed ht (.noDelimiters use hc)
  | some closing =>
    refine (honest_accept hs closing).bind ?_
    intro closed s' _ hs'
    split
    · exact honest_done [] hs'
    · cases hsep : σ.grammar.separator? with
      | none => exact honest_failed (List.mem_append_left _ ht) (.noSeparator hsep)
      | some separator =>
        refine (hparse 0 s' _ hs').bind ?_
        intro x s₁ _ hs₁
        exact (hmore separator closing s₁ _ hs₁).map (x :: ·)

theorem honest_operand : Honest σ.grammar seen s (σ.traceOperand parse more t s) := by
  unfold traceOperand
  cases σ.grammar.prefixRole? t.kind with
  | none => exact honest_failed ht (.unparseable t.lexeme)
  | some role =>
    cases role with
    | leaf => exact σ.honest_leaf ht hs
    | operator => exact (hparse t.kind.strength s seen hs).map (Expr.prefixed t)
    | grouping =>
      cases hc : σ.grammar.closing? .grouping with
      | none => exact honest_failed ht (.noDelimiters .grouping hc)
      | some closing =>
        refine (hparse 0 s seen hs).bind ?_
        intro x s' _ hs'
        exact (honest_consume hs' closing).map fun _ => Expr.group t x
    | array => exact (σ.honest_items hparse hmore ht hs .array).map (Expr.array t)

theorem honest_extend (left : Expr) :
    Honest σ.grammar seen s (σ.traceExtend parse more left t s) := by
  unfold traceExtend
  cases σ.grammar.infixRole? t.kind with
  | none => exact honest_failed ht (.unparseable t.lexeme)
  | some role =>
    cases role with
    | left => exact (hparse t.kind.strength s seen hs).map (Expr.binary t left)
    | right => exact (hparse (t.kind.strength - 1) s seen hs).map (Expr.binary t left)
    | suffix => exact honest_done _ hs
    | call => exact (σ.honest_items hparse hmore ht hs .call).map (Expr.call left t)

end

theorem honest_tighter {seen : List (Except Error Token)} {s : Stream} (hs : s.Seen seen)
    (m : Int) : Honest σ.grammar seen s (σ.traceTighter m s) :=
  (honest_peek hs).map _

theorem honest_close {seen : List (Except Error Token)} {s : Stream} (hs : s.Seen seen) (k : Kind) :
    Honest σ.grammar seen s
      ((s.traceConsume k).bind fun _ s => Traced.still (.done ([] : List Expr) s)) :=
  (honest_consume hs k).map fun _ => []

/-- every call is honest, by induction on the steps -/
theorem run_honest (n : Nat) :
    (∀ m s seen, s.Seen seen → Honest σ.grammar seen s (σ.traceAt n m s)) ∧
    (∀ m left s seen, s.Seen seen → Honest σ.grammar seen s (σ.traceClimb n m left s)) ∧
    (∀ k k' s seen, s.Seen seen → Honest σ.grammar seen s (σ.traceMore n k k' s)) := by
  induction n with
  | zero =>
    refine ⟨?_, ?_, ?_⟩
    · intro m s seen hs
      rw [traceAt]
      exact honest_unfinished
    · intro m left s seen hs
      rw [traceClimb]
      refine (σ.honest_tighter hs m).bind ?_
      intro tighter s' _ hs'
      split
      · exact honest_unfinished
      · exact honest_done left hs'
    · intro k k' s seen hs
      rw [traceMore]
      refine (honest_accept hs k).bind ?_
      intro goesOn s' _ hs'
      split
      · exact honest_unfinished
      · exact σ.honest_close hs' k'
  | succ n ih =>
    obtain ⟨iha, ihc, ihm⟩ := ih
    refine ⟨?_, ?_, ?_⟩
    · intro m s seen hs
      rw [traceAt]
      refine ((honest_pop hs).bind ?_).nested
      intro t s' hp hs'
      have hx := σ.honest_operand iha ihm (Stream.seen_pop hs hp).1 hs'
      exact hx.bind fun x s'' _ hs'' => ihc m x s'' _ hs''
    · intro m left s seen hs
      rw [traceClimb]
      refine (σ.honest_tighter hs m).bind ?_
      intro tighter s' _ hs'
      split
      · refine (honest_pop hs').bind ?_
        intro t s'' hp hs''
        have hx := σ.honest_extend iha ihm (Stream.seen_pop hs' hp).1 hs'' left
        exact hx.bind fun x s₃ _ hs₃ => ihc m x s₃ _ hs₃
      · exact honest_done left hs'
    · intro k k' s seen hs
      rw [traceMore]
      refine (honest_accept hs k).bind ?_
      intro goesOn s' _ hs'
      split
      · refine (iha 0 s' _ hs').bind ?_
        intro x s₁ _ hs₁
        exact (ihm k k' s₁ _ hs₁).map (x :: ·)
      · exact σ.honest_close hs' k'

theorem traceParse_honest (n : Nat) {s : Stream} {seen : List (Except Error Token)}
    (hs : s.Seen seen) : Honest σ.grammar seen s (σ.traceParse n s) := by
  refine ((σ.run_honest n).1 0 s seen hs).bind ?_
  intro e s' _ hs'
  refine (honest_peek hs').bind ?_
  intro t s'' hp hs''
  split
  · exact honest_done e hs''
  · exact honest_failed (Stream.seen_peek hs' hp).1 (.unparseable t.lexeme)

end Setting

/-! ## the causes -/

theorem Lexer.cause_of_result {l : Lexer} (h₀ : l.cursor ≤ l.source.length) {k : Nat} {e : Error}
    (h : l.result k = .error e) :
    (∃ c, e.cause = .unknownToken c) ∨
      ∃ numeral fault, e.cause = .malformedNumeral numeral fault := by
  by_cases hend : l.start k = l.source.length
  · rw [(ended_step h₀ hend).1] at h
    cases h
  · have hle := start_le_length h₀ k
    obtain ⟨-, -, -, hpiece⟩ := piece_step (show l.start k < l.source.length by omega)
    obtain ⟨cause, p⟩ := e
    rw [h] at hpiece
    cases hpiece with
    | unknown _ => exact .inl ⟨_, rfl⟩
    | malformed _ _ _ => exact .inr ⟨_, _, rfl⟩

theorem Grammar.StandardMarks.not_missing {g : Grammar} (hg : g.StandardMarks) {role : String} :
    ¬ g.Finds (.missingRole role) := by
  intro h
  cases h with
  | noDelimiters use h =>
    have hsome := hg.closing_isSome use
    rw [h] at hsome
    cases hsome
  | noSeparator h =>
    rw [hg.separator_eq] at h
    cases h

/-- **Every error of a parse points at a token.**  In any grammar with a kind of names, for either
mode, any part of any text and any radix: when a parse of a fresh stream fails after so many pulls,
the error stands where one of the results of these pulls does, so no further than the end of the
source, and not at a blank.  An error of the lexer is passed on as it is; any other error is one
that the parser finds at a token, and in the built-in grammars no role is ever missing. -/
theorem parse_error_points (g : Grammar) (mode : Mode) (config : Config) (text : List Char)
    (l : Lexer) (radix : Nat) (err : Error) (after : Stream)
    (hl : Lexer.new g mode config text = .ok l) (hlen : l.source.length < 2 ^ 32)
    (h : Setting.parse ⟨g, radix⟩ (Stream.ofLexer l) = .failed err after) :
    ∃ n k, k < n ∧
      (Setting.traceParse ⟨g, radix⟩ (Stream.ofLexer l).budget (Stream.ofLexer l)).pulled
        = (l.pull n).1 ∧ after.lexer = l.after n ∧
      Lexer.position (l.result k) = err.position ∧ err.position.toNat = l.start k ∧
      err.position.toNat ≤ l.source.length ∧
      (∀ c ∈ l.source[err.position.toNat]?, g.isWhitespace c = false) ∧
      (∀ e, .error e ∈ (l.pull n).1 → err = e) ∧
      (.error err ∈ (l.pull n).1 ∨ g.Finds err.cause) ∧
      ∀ m : Mode, m.grammar = .ok g → ∀ role, err.cause ≠ .missingRole role := by
  obtain ⟨h₀, hgrammar, -⟩ := Lexer.new_eq_ok hl
  have hcur : l.cursor ≤ l.source.length := by omega
  have hseen : (Stream.ofLexer l).Seen [] := fun t ht => by cases ht
  have hhonest := Setting.traceParse_honest ⟨g, radix⟩ (Stream.ofLexer l).budget hseen
  rw [← Setting.traceParse_outcome] at h
  obtain ⟨n, hpulled, hafter⟩ := hhonest.record.ofLexer
  obtain ⟨x, hx, hposition⟩ := hhonest.points err after h
  rw [List.nil_append, hpulled] at hx
  obtain ⟨k, hk, rfl⟩ := Lexer.mem_pull_iff.mp hx
  have hstart : err.position.toNat = l.start k := by
    rw [← hposition]
    exact Lexer.position_result hcur hlen k
  have hblame := hhonest.blames err after h
  rw [hpulled] at hblame
  have hlexer : after.lexer = l.after n := hafter after (by rw [h]; rfl)
  refine ⟨n, k, hk, hpulled, hlexer, hposition, hstart, ?_, ?_, ?_, hblame, ?_⟩
  · rw [hstart]
    exact Lexer.start_le_length hcur k
  · rw [hstart, ← hgrammar]
    exact (Lexer.tile hcur hlen k).maximal
  · intro e he
    rw [← hpulled] at he
    obtain ⟨s', hfailed⟩ := hhonest.passesOn e he
    rw [h] at hfailed
    cases hfailed
    rfl
  · intro m hm role hrole
    rcases hblame with herr | hfinds
    · obtain ⟨j, -, hj⟩ := Lexer.mem_pull_iff.mp herr
      rcases Lexer.cause_of_result hcur hj with ⟨c, hc⟩ | ⟨numeral, fault, hc⟩
      · rw [hc] at hrole
        cases hrole
      · rw [hc] at hrole
        cases hrole
    · rw [hrole] at hfinds
      exact (Mode.grammar_standard hm).not_missing hfinds

/-- the error, if there is one -/
def Outcome.error? {α : Type} : Outcome α → Option Error
  | done _ _ => none
  | failed e _ => some e
  | unfinished => none

theorem Outcome.exists_failed {α : Type} {o : Outcome α} {e : Error} (h : o.error? = some e) :
    ∃ s, o = .failed e s := by
  cases o with
  | done a s => cases h
  | failed e' s =>
    cases h
    exact ⟨s, rfl⟩
  | unfinished => cases h

/-- a call that is not closed: the parse fails at the end of the source, where it asks for the
bracket -/
theorem open_call_points :
    ∃ after, Setting.parse ⟨Mode.scientific.language, 10⟩
        (Stream.ofLexer (Mode.scientific.lexer "2 * f[a, b ".toList))
        = .failed ⟨.unexpectedToken [']'] [], 11⟩ after ∧
      ∃ n k, k < n ∧ after.lexer = (Mode.scientific.lexer "2 * f[a, b ".toList).after n ∧
        Lexer.position ((Mode.scientific.lexer "2 * f[a, b ".toList).result k) = 11 ∧
        ∀ e, .error e ∉ ((Mode.scientific.lexer "2 * f[a, b ".toList).pull n).1 := by
  have hl := Mode.scientific.lexer_eq "2 * f[a, b ".toList
  have hlen : (Mode.scientific.lexer "2 * f[a, b ".toList).source.length < 2 ^ 32 := by decide
  have hrun : (Setting.parse ⟨Mode.scientific.language, 10⟩
      (Stream.ofLexer (Mode.scientific.lexer "2 * f[a, b ".toList))).error?
      = some ⟨.unexpectedToken [']'] [], 11⟩ := by decide +kernel
  obtain ⟨after, hfailed⟩ := Outcome.exists_failed hrun
  obtain ⟨n, k, hk, -, hafter, hposition, -, -, -, hpass, -, -⟩ :=
    parse_error_points _ _ _ _ _ 10 _ after hl hlen hfailed
  refine ⟨after, hfailed, n, k, hk, hafter, hposition, ?_⟩
  intro e he
  obtain ⟨j, -, hj⟩ := Lexer.mem_pull_iff.mp he
  rcases Lexer.cause_of_result (Nat.zero_le _) hj with ⟨c, hc⟩ | ⟨numeral, fault, hc⟩
  · rw [← hpass e he] at hc
    cases hc
  · rw [← hpass e he] at hc
    cases hc

end Calculator
