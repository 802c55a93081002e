import Calculator.Token.Stream

/-!
# Taking tokens from a stream

What a parser does to its stream comes down to two steps: it looks at the next token, which then
waits, or it takes the next token away.  Looking does not change which tokens come next, so only
the tokens taken count.

* `Stream.popMany`   so many tokens, taken one after another;
* `Stream.Takes`     the tokens taken on the way from one stream to another, the next token of
                     the second one perhaps looked at already;
* `Stream.Holds`     the tokens that come next;
* `Stream.consume_takes`, `Stream.accept_takes`   what a required and an optional token take;
* `Stream.Holds.consume`, `Stream.Holds.accept`, `Stream.Holds.refuse`   what they do on known
                     tokens.
-/

namespace Calculator

namespace Outcome

theorem bind_eq_done {α β : Type} {o : Outcome α} {f : α → Stream → Outcome β} {b : β}
    {after : Stream} :
    o.bind f = .done b after ↔ ∃ a s, o = .done a s ∧ f a s = .done b after := by
  cases o with
  | done a s =>
    rw [bind_done]
    constructor
    · intro h
      exact ⟨a, s, rfl, h⟩
    · rintro ⟨a', s', e, h⟩
      cases e
      exact h
  | failed e s => simp [bind_failed]
  | unfinished => simp [bind_unfinished]

/-- the value, if there is one -/
def value? {α : Type} : Outcome α → Option α
  | done a _ => some a
  | failed _ _ => none
  | unfinished => none

/-- the stream behind the outcome, if it got so far -/
def after? {α : Type} : Outcome α → Option Stream
  | done _ s => some s
  | failed _ s => some s
  | unfinished => none

theorem exists_done {α β : Type} {o : Outcome α} {f : α → β} {b : β}
    (h : o.value?.map f = some b) : ∃ a s, o = .done a s ∧ f a = b := by
  cases o with
  | done a s => exact ⟨a, s, rfl, Option.some.inj h⟩
  | failed e s => cases h
  | unfinished => cases h

end Outcome

namespace Stream

/-- so many tokens, taken one after another -/
def popMany (s : Stream) : Nat → Outcome (List Token)
  | 0 => .done [] s
  | n + 1 => s.pop.bind fun t s => (s.popMany n).bind fun ts s => .done (t :: ts) s

/-- `after` is the stream itself, or the stream once its next token was looked at -/
def Peeked (s after : Stream) : Prop := after = s ∨ ∃ t, s.peek = .done t after

/-- taking these tokens leads from `s` to `after`, whose next token may have been looked at -/
def Takes (s : Stream) (ts : List Token) (after : Stream) : Prop :=
  ∃ s', s.popMany ts.length = .done ts s' ∧ s'.Peeked after

/-- the tokens are the next ones of the stream -/
def Holds (s : Stream) (ts : List Token) : Prop := ∃ s', s.popMany ts.length = .done ts s'

theorem popMany_zero (s : Stream) : s.popMany 0 = .done [] s := rfl

theorem popMany_cons {s s' after : Stream} {t : Token} {ts : List Token} (h : s.pop = .done t s')
    (h' : s'.popMany ts.length = .done ts after) :
    s.popMany (t :: ts).length = .done (t :: ts) after := by
  rw [List.length_cons, popMany, h, Outcome.bind_done, h', Outcome.bind_done]

theorem of_popMany_cons {s after : Stream} {t : Token} {ts : List Token}
    (h : s.popMany (t :: ts).length = .done (t :: ts) after) :
    ∃ s', s.pop = .done t s' ∧ s'.popMany ts.length = .done ts after := by
  rw [List.length_cons, popMany] at h
  obtain ⟨u, s', hu, h⟩ := Outcome.bind_eq_done.mp h
  obtain ⟨us, s'', hus, h⟩ := Outcome.bind_eq_done.mp h
  cases h
  exact ⟨s', hu, hus⟩

theorem popMany_append {s s' after : Stream} {ts us : List Token}
    (h : s.popMany ts.length = .done ts s') (h' : s'.popMany us.length = .done us after) :
    s.popMany (ts ++ us).length = .done (ts ++ us) after := by
  induction ts generalizing s with
  | nil =>
    cases h
    exact h'
  | cons t ts ih =>
    obtain ⟨s₁, ht, hts⟩ := of_popMany_cons h
    exact popMany_cons ht (ih hts)

/-! ## looking -/

theorem peek_of_peek {s s' : Stream} {t : Token} (h : s.peek = .done t s') :
    s'.peek = .done t s' := by
  unfold peek at h
  split at h
  · rename_i t' ts hw
    cases h
    unfold peek
    rw [hw]
  · split at h
    · cases h
      rfl
    · cases h

theorem peek_of_pop {s s' : Stream} {t : Token} (h : s.pop = .done t s') :
    ∃ s'', s.peek = .done t s'' := by
  unfold pop at h
  unfold peek
  split at h
  · cases h
    exact ⟨_, rfl⟩
  · split at h
    · cases h
      exact ⟨_, rfl⟩
    · cases h

theorem Peeked.refl (s : Stream) : s.Peeked s := Or.inl rfl

theorem Peeked.pop_eq {s s' : Stream} (h : s.Peeked s') : s'.pop = s.pop := by
  rcases h with rfl | ⟨t, h⟩
  · rfl
  · exact (pop_of_peek h).1

theorem Peeked.peek {s s' after : Stream} {t : Token} (h : s.Peeked s')
    (h' : s'.peek = .done t after) : s.peek = .done t after := by
  rcases h with rfl | ⟨u, h⟩
  · exact h'
  · have := peek_of_peek h
    rw [this] at h'
    cases h'
    exact h

theorem Peeked.trans {s s' s'' : Stream} (h : s.Peeked s') (h' : s'.Peeked s'') :
    s.Peeked s'' := by
  rcases h' with rfl | ⟨t, h'⟩
  · exact h
  · exact Or.inr ⟨t, h.peek h'⟩

/-- looking does not change which tokens can be taken -/
theorem Peeked.popMany_eq {s s' : Stream} (h : s.Peeked s') (n : Nat) :
    s'.popMany (n + 1) = s.popMany (n + 1) := by
  rw [popMany, popMany, h.pop_eq]

/-! ## taking -/

theorem Takes.refl (s : Stream) : s.Takes [] s := ⟨s, rfl, Peeked.refl s⟩

theorem Takes.of_peek {s s' : Stream} {t : Token} (h : s.peek = .done t s') : s.Takes [] s' :=
  ⟨s, rfl, Or.inr ⟨t, h⟩⟩

theorem Takes.of_pop {s s' : Stream} {t : Token} (h : s.pop = .done t s') : s.Takes [t] s' :=
  ⟨s', popMany_cons h (popMany_zero s'), Peeked.refl s'⟩

theorem Takes.trans {s s' s'' : Stream} {ts us : List Token} (h : s.Takes ts s')
    (h' : s'.Takes us s'') : s.Takes (ts ++ us) s'' := by
  obtain ⟨s₁, h₁, p₁⟩ := h
  obtain ⟨s₂, h₂, p₂⟩ := h'
  cases us with
  | nil =>
    cases h₂
    refine ⟨s₁, ?_, p₁.trans p₂⟩
    rw [List.append_nil]
    exact h₁
  | cons u us =>
    rw [List.length_cons, p₁.popMany_eq, ← List.length_cons (a := u)] at h₂
    exact ⟨s₂, popMany_append h₁ h₂, p₂⟩

theorem consume_takes {s s' : Stream} {k : Kind} {t : Token} (h : s.consume k = .done t s') :
    t.kind = k ∧ s.Takes [t] s' := by
  obtain ⟨u, s₁, hp, h⟩ := Outcome.bind_eq_done.mp h
  split at h
  · rename_i hk
    obtain ⟨e, s₂, hs₂⟩ := pop_of_peek hp
    rw [e, hs₂] at h
    cases h
    exact ⟨hk, Takes.of_pop hs₂⟩
  · cases h

theorem accept_takes {s s' : Stream} {k : Kind} {b : Bool} (h : s.accept k = .done b s') :
    (b = true ∧ ∃ t, t.kind = k ∧ s.Takes [t] s') ∨ (b = false ∧ s.Takes [] s') := by
  obtain ⟨t, s₁, hp, h⟩ := Outcome.bind_eq_done.mp h
  split at h
  · rename_i hk
    obtain ⟨e, s₂, hs₂⟩ := pop_of_peek hp
    rw [e, hs₂, Outcome.bind_done] at h
    cases h
    exact Or.inl ⟨rfl, t, hk, Takes.of_pop hs₂⟩
  · cases h
    exact Or.inr ⟨rfl, Takes.of_peek hp⟩

/-! ## known tokens -/

theorem Holds.pop {s : Stream} {t : Token} {ts : List Token} (h : s.Holds (t :: ts)) :
    ∃ s', s.pop = .done t s' ∧ s'.Holds ts := by
  obtain ⟨after, h⟩ := h
  obtain ⟨s', ht, hts⟩ := of_popMany_cons h
  exact ⟨s', ht, after, hts⟩

theorem Holds.peek {s : Stream} {t : Token} {ts : List Token} (h : s.Holds (t :: ts)) :
    ∃ s', s.peek = .done t s' ∧ s'.Holds (t :: ts) := by
  obtain ⟨s₁, hpop, _⟩ := h.pop
  obtain ⟨s', hs'⟩ := peek_of_pop hpop
  obtain ⟨after, h⟩ := h
  refine ⟨s', hs', after, ?_⟩
  rw [List.length_cons, Peeked.popMany_eq (Or.inr ⟨t, hs'⟩)]
  exact h

theorem Holds.consume {s : Stream} {t : Token} {ts : List Token} (h : s.Holds (t :: ts)) :
    ∃ s', s.consume t.kind = .done t s' ∧ s'.Holds ts := by
  obtain ⟨s₁, hpeek, h₁⟩ := h.peek
  obtain ⟨s', hpop, h'⟩ := h₁.pop
  refine ⟨s', ?_, h'⟩
  unfold Stream.consume
  rw [hpeek, Outcome.bind_done, if_pos rfl, hpop]

theorem Holds.accept {s : Stream} {t : Token} {ts : List Token} (h : s.Holds (t :: ts)) :
    ∃ s', s.accept t.kind = .done true s' ∧ s'.Holds ts := by
  obtain ⟨s₁, hpeek, h₁⟩ := h.peek
  obtain ⟨s', hpop, h'⟩ := h₁.pop
  refine ⟨s', ?_, h'⟩
  unfold Stream.accept
  rw [hpeek, Outcome.bind_done, if_pos rfl, hpop, Outcome.bind_done]

theorem Holds.refuse {s : Stream} {t : Token} {ts : List Token} {k : Kind}
    (h : s.Holds (t :: ts)) (hk : t.kind ≠ k) :
    ∃ s', s.accept k = .done false s' ∧ s'.Holds (t :: ts) := by
  obtain ⟨s₁, hpeek, h₁⟩ := h.peek
  refine ⟨s₁, ?_, h₁⟩
  unfold Stream.accept
  rw [hpeek, Outcome.bind_done, if_neg hk]

end Stream
end Calculator
