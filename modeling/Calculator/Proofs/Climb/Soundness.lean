import Calculator.Grammar.Draft
import Calculator.Proofs.Expr.Binding
import Calculator.Proofs.Token.Taking

/-!
# Precedence climbing builds the trees that precedence allows

Whatever the grammar, an expression that was parsed above a threshold is spelled by the tokens that
were taken for it, every node of it was made by the role of its own token, and precedence allows it
above the threshold.  The token behind it binds no tighter than the threshold, nor than any
threshold that the expression leaves open at its right end: this is the invariant that the loop of
`climb` needs when the next operator is put around what there is.

* `Setting.Read σ m ts e s`   `e` was read from `ts` above `m`, and the next token of `s` is not for
                              an operator that is open in `e`;
* `Setting.operand_read`, `Setting.extend_read`   what one role makes, for any way to read operands
                              and lists that is itself sound;
* `Setting.run_read`          what `parseAt`, `climb` and `more` make, by induction on the steps;
* `Setting.parse_reads`       what a whole parse makes, and where it stops;
* `parseAt_respects_precedence`   the whole statement for one call of `parseAt`.
-/

namespace Calculator

namespace Setting

variable (σ : Setting)

/-- the expression was read from the tokens above the threshold, and the next token of the stream
is not for an operator that the expression leaves open -/
structure Read (m : Int) (ts : List Token) (e : Expr) (after : Stream) : Prop where
  spelled : e.Spelled σ.grammar ts
  built : e.Built σ
  bound : e.WellBound σ.grammar m
  calm : ∀ next s, after.peek = .done next s →
    ∀ b ∈ e.openOnRight σ.grammar, σ.strength next.kind ≤ b

/-- the way to read an operand is sound -/
def ReadsOperands (parse : Int → Stream → Outcome Expr) : Prop :=
  ∀ m s e after, parse m s = .done e after →
    ∃ ts next, s.Takes ts after ∧ σ.Read m ts e after ∧ after.peek = .done next after ∧
      σ.strength next.kind ≤ m

/-- the way to read the rest of a list is sound -/
def ReadsLists (more : Kind → Kind → Stream → Outcome (List Expr)) : Prop :=
  ∀ separator closing s xs after, σ.grammar.separator? = some separator →
    more separator closing s = .done xs after →
    ∃ ts c, s.Takes (ts ++ [c]) after ∧ c.kind = closing ∧ Expr.SpelledMore σ.grammar xs ts ∧
      Expr.BuiltItems σ xs ∧ Expr.WellBoundAll σ.grammar xs

variable {σ}

theorem bindsTighter_peeks {m : Int} {s after : Stream} {b : Bool}
    (h : σ.bindsTighter m s = .done b after) :
    ∃ t, s.peek = .done t after ∧ b = decide (m < σ.strength t.kind) := by
  obtain ⟨t, s₁, hp, h⟩ := Outcome.bind_eq_done.mp h
  cases h
  exact ⟨t, hp, rfl⟩

theorem Read.of_closed {m : Int} {ts : List Token} {e : Expr} {after : Stream}
    (hs : e.Spelled σ.grammar ts) (hb : e.Built σ) (hw : e.WellBound σ.grammar m)
    (ho : e.openOnRight σ.grammar = []) : σ.Read m ts e after :=
  ⟨hs, hb, hw, fun _ _ _ b hb => by rw [ho] at hb; cases hb⟩

/-- behind an operand that was read at a threshold the threshold itself is calm too -/
theorem Read.calm_cons {m : Int} {ts : List Token} {e : Expr} {after : Stream} {next : Token}
    (h : σ.Read m ts e after) (hp : after.peek = .done next after)
    (hn : σ.strength next.kind ≤ m) :
    ∀ next' s, after.peek = .done next' s →
      ∀ b ∈ m :: e.openOnRight σ.grammar, σ.strength next'.kind ≤ b := by
  intro next' s hp' b hb
  rcases List.mem_cons.mp hb with rfl | hb
  · rw [hp] at hp'
    cases hp'
    exact hn
  · exact h.calm next' s hp' b hb

/-! ## one role -/

theorem leaf_read {t : Token} {s after : Stream} {e : Expr}
    (hr : σ.grammar.prefixRole? t.kind = some .leaf) (h : σ.leaf t s = .done e after) (m : Int) :
    after = s ∧ σ.Read m [t] e after := by
  unfold leaf at h
  split at h
  · rename_i hn
    split at h
    · rename_i v hv
      cases h
      exact ⟨rfl, Read.of_closed rfl ⟨hr, hn, hv⟩ trivial rfl⟩
    · cases h
  · rename_i hn
    cases h
    exact ⟨rfl, Read.of_closed rfl ⟨hr, Bool.eq_false_iff.mpr hn⟩ trivial rfl⟩

variable {parse : Int → Stream → Outcome Expr} {more : Kind → Kind → Stream → Outcome (List Expr)}
  (hparse : σ.ReadsOperands parse) (hmore : σ.ReadsLists more)
include hparse

theorem binary_read {m : Int} {left x : Expr} {t : Token} {ls : List Token} {s after : Stream}
    (hr : σ.grammar.infixRole? t.kind = some .left ∨ σ.grammar.infixRole? t.kind = some .right)
    (hs : left.Spelled σ.grammar ls) (hb : left.Built σ) (hw : left.WellBound σ.grammar m)
    (hm : m < t.kind.strength) (ho : ∀ b ∈ left.openOnRight σ.grammar, t.kind.strength ≤ b)
    (hx : parse (σ.grammar.rightThreshold t.kind) s = .done x after) :
    ∃ ts, s.Takes ts after ∧ σ.Read m (ls ++ t :: ts) (.binary t left x) after := by
  obtain ⟨ts, next, ht, hrx, hp, hn⟩ := hparse _ s x after hx
  exact ⟨ts, ht, ⟨ls, ts, hs, hrx.spelled, rfl⟩, ⟨hr, hb, hrx.built⟩, ⟨hm, hw, ho, hrx.bound⟩,
    hrx.calm_cons hp hn⟩

include hmore

theorem items_read {use : Bracket} {t : Token} {s after : Stream} {xs : List Expr}
    (h : σ.items (parse 0) more use t s = .done xs after) :
    ∃ ts c, s.Takes (ts ++ [c]) after ∧ σ.grammar.closing? use = some c.kind ∧
      Expr.SpelledItems σ.grammar xs ts ∧ Expr.BuiltItems σ xs ∧
      Expr.WellBoundAll σ.grammar xs := by
  unfold items at h
  split at h
  · cases h
  · rename_i closing hclosing
    obtain ⟨closed, s₁, ha, h⟩ := Outcome.bind_eq_done.mp h
    rcases Stream.accept_takes ha with ⟨rfl, c, hc, ht⟩ | ⟨rfl, ht⟩
    · rw [if_pos rfl] at h
      cases h
      exact ⟨[], c, ht, by rw [hclosing, hc], rfl, trivial, trivial⟩
    · rw [if_neg Bool.false_ne_true] at h
      split at h
      · cases h
      · rename_i separator hsep
        obtain ⟨x, s₂, hx, h⟩ := Outcome.bind_eq_done.mp h
        obtain ⟨ys, s₃, hys, h⟩ := Outcome.bind_eq_done.mp h
        cases h
        obtain ⟨us, next, htx, hrx, -, -⟩ := hparse 0 s₁ x s₂ hx
        obtain ⟨vs, c, hty, hc, hsy, hby, hwy⟩ := hmore separator closing s₂ ys after hsep hys
        refine ⟨us ++ vs, c, ?_, by rw [hclosing, hc], ⟨us, vs, hrx.spelled, hsy, rfl⟩,
          ⟨by rw [hsep]; rfl, hrx.built, hby⟩, ⟨hrx.bound, hwy⟩⟩
        have htake := (ht.trans htx).trans hty
        rw [List.nil_append, ← List.append_assoc] at htake
        exact htake

theorem operand_read {t : Token} {s after : Stream} {e : Expr}
    (h : σ.operand parse more t s = .done e after) :
    ∃ ts, s.Takes ts after ∧ ∀ m, σ.Read m (t :: ts) e after := by
  unfold operand at h
  split at h
  · cases h
  · rename_i hr
    exact ⟨[], (leaf_read hr h 0).1 ▸ Stream.Takes.refl s, fun m => (leaf_read hr h m).2⟩
  · rename_i hr
    obtain ⟨x, s₁, hx, h⟩ := Outcome.bind_eq_done.mp h
    cases h
    obtain ⟨ts, next, ht, hrx, hp, hn⟩ := hparse _ s x after hx
    exact ⟨ts, ht, fun m =>
      ⟨⟨ts, hrx.spelled, rfl⟩, ⟨hr, hrx.built⟩, hrx.bound, hrx.calm_cons hp hn⟩⟩
  · rename_i hr
    split at h
    · cases h
    · rename_i closing hclosing
      obtain ⟨x, s₁, hx, h⟩ := Outcome.bind_eq_done.mp h
      obtain ⟨c, s₂, hc, h⟩ := Outcome.bind_eq_done.mp h
      cases h
      obtain ⟨ts, next, ht, hrx, -, -⟩ := hparse 0 s x s₁ hx
      obtain ⟨hk, htc⟩ := Stream.consume_takes hc
      refine ⟨ts ++ [c], ht.trans htc, fun m => Read.of_closed ?_ ?_ hrx.bound rfl⟩
      · exact ⟨ts, c, hrx.spelled, by rw [hclosing, hk], rfl⟩
      · exact ⟨hr, by rw [hclosing]; rfl, hrx.built⟩
  · rename_i hr
    obtain ⟨xs, s₁, hxs, h⟩ := Outcome.bind_eq_done.mp h
    cases h
    obtain ⟨ts, c, ht, hc, hsx, hbx, hwx⟩ := items_read hparse hmore hxs
    exact ⟨ts ++ [c], ht, fun m =>
      Read.of_closed ⟨ts, c, hsx, hc, rfl⟩ ⟨hr, by rw [hc]; rfl, hbx⟩ hwx rfl⟩

/-- the larger expression that an infix role makes; its token has to be above the threshold and no
threshold that the left operand leaves open may be below it -/
theorem extend_read {m : Int} {left e : Expr} {t : Token} {ls : List Token} {s after : Stream}
    (hs : left.Spelled σ.grammar ls) (hb : left.Built σ) (hw : left.WellBound σ.grammar m)
    (hm : m < σ.strength t.kind)
    (ho : ∀ b ∈ left.openOnRight σ.grammar, σ.strength t.kind ≤ b)
    (h : σ.extend parse more left t s = .done e after) :
    ∃ ts, s.Takes ts after ∧ σ.Read m (ls ++ t :: ts) e after := by
  unfold extend at h
  split at h
  · cases h
  · rename_i hr
    rw [strength_of_infixRole hr] at hm ho
    obtain ⟨x, s₁, hx, h⟩ := Outcome.bind_eq_done.mp h
    cases h
    rw [← Grammar.rightThreshold_left hr] at hx
    exact binary_read hparse (Or.inl hr) hs hb hw hm ho hx
  · rename_i hr
    rw [strength_of_infixRole hr] at hm ho
    obtain ⟨x, s₁, hx, h⟩ := Outcome.bind_eq_done.mp h
    cases h
    rw [← Grammar.rightThreshold_right hr] at hx
    exact binary_read hparse (Or.inr hr) hs hb hw hm ho hx
  · rename_i hr
    rw [strength_of_infixRole hr] at hm ho
    cases h
    exact ⟨[], Stream.Takes.refl s, Read.of_closed ⟨ls, hs, rfl⟩ ⟨hr, hb⟩ ⟨hm, hw, ho⟩ rfl⟩
  · rename_i hr
    rw [strength_of_infixRole hr] at hm ho
    obtain ⟨xs, s₁, hxs, h⟩ := Outcome.bind_eq_done.mp h
    cases h
    obtain ⟨ts, c, ht, hc, hsx, hbx, hwx⟩ := items_read hparse hmore hxs
    exact ⟨ts ++ [c], ht, Read.of_closed ⟨ls, ts, c, hs, hsx, hc, rfl⟩
      ⟨hr, by rw [hc]; rfl, hb, hbx⟩ ⟨hm, hw, ho, hwx⟩ rfl⟩

theorem round_read {m : Int} {left e : Expr} {t : Token} {ls : List Token} {s s₁ after : Stream}
    {go : Expr → Stream → Outcome Expr} (hl : σ.Read m ls left s) (hp : s.peek = .done t s₁)
    (hm : m < σ.strength t.kind)
    (h : (s₁.pop.bind fun t s => (σ.extend parse more left t s).bind go) = .done e after) :
    ∃ ts e' s', s.Takes ts s' ∧ σ.Read m (ls ++ ts) e' s' ∧ go e' s' = .done e after := by
  obtain ⟨u, s₂, hu, h⟩ := Outcome.bind_eq_done.mp h
  obtain ⟨e', s', he, hgo⟩ := Outcome.bind_eq_done.mp h
  -- the token that is taken is the one that was looked at
  obtain ⟨hpop, s₃, hs₃⟩ := Stream.pop_of_peek hp
  rw [hpop, hs₃] at hu
  cases hu
  obtain ⟨ts, ht, hr⟩ := extend_read hparse hmore hl.spelled hl.built hl.bound hm
    (hl.calm t s₁ hp) he
  exact ⟨t :: ts, e', s', (Stream.Takes.of_pop hs₃).trans ht, hr, hgo⟩

omit hparse hmore

theorem stop_read {m : Int} {left : Expr} {t : Token} {ls : List Token} {s s₁ : Stream}
    (hl : σ.Read m ls left s) (hp : s.peek = .done t s₁) (hm : ¬ m < σ.strength t.kind) :
    ∃ ts next, s.Takes ts s₁ ∧ σ.Read m (ls ++ ts) left s₁ ∧ s₁.peek = .done next s₁ ∧
      σ.strength next.kind ≤ m := by
  refine ⟨[], t, Stream.Takes.of_peek hp, ?_, Stream.peek_of_peek hp, Int.not_lt.mp hm⟩
  rw [List.append_nil]
  refine ⟨hl.spelled, hl.built, hl.bound, fun next s₂ hn => ?_⟩
  exact hl.calm next s₂ (Stream.Peeked.peek (Or.inr ⟨t, hp⟩) hn)

theorem close_read {separator closing : Kind} {s s₁ after : Stream} {xs : List Expr}
    (ha : s.accept separator = .done false s₁)
    (h : ((s₁.consume closing).bind fun _ s => .done [] s) = .done xs after) :
    ∃ ts c, s.Takes (ts ++ [c]) after ∧ c.kind = closing ∧ Expr.SpelledMore σ.grammar xs ts ∧
      Expr.BuiltItems σ xs ∧ Expr.WellBoundAll σ.grammar xs := by
  obtain ⟨c, s₂, hc, h⟩ := Outcome.bind_eq_done.mp h
  cases h
  obtain ⟨hk, ht⟩ := Stream.consume_takes hc
  rcases Stream.accept_takes ha with ⟨hf, -⟩ | ⟨-, ht₀⟩
  · cases hf
  · exact ⟨[], c, ht₀.trans ht, hk, rfl, trivial, trivial⟩

/-! ## every call -/

/-- what `parseAt`, `climb` and `more` make, for every number of steps -/
theorem run_read (n : Nat) :
    σ.ReadsOperands (σ.parseAt n) ∧
    (∀ m left ls s e after, σ.Read m ls left s → σ.climb n m left s = .done e after →
      ∃ ts next, s.Takes ts after ∧ σ.Read m (ls ++ ts) e after ∧
        after.peek = .done next after ∧ σ.strength next.kind ≤ m) ∧
    σ.ReadsLists (σ.more n) := by
  -- the calls at `n + 1` read operands and lists through the calls at `n`
  induction n with
  | zero =>
    refine ⟨?_, ?_, ?_⟩
    · intro m s e after h
      rw [parseAt] at h
      cases h
    · intro m left ls s e after hl h
      rw [climb] at h
      obtain ⟨b, s₁, hb, h⟩ := Outcome.bind_eq_done.mp h
      obtain ⟨t, hp, rfl⟩ := bindsTighter_peeks hb
      by_cases hm : m < σ.strength t.kind
      · rw [decide_eq_true hm, if_pos rfl] at h
        cases h
      · rw [decide_eq_false hm, if_neg Bool.false_ne_true] at h
        cases h
        exact stop_read hl hp hm
    · intro separator closing s xs after hsep h
      rw [more] at h
      obtain ⟨b, s₁, hb, h⟩ := Outcome.bind_eq_done.mp h
      cases b with
      | true => cases h
      | false => exact close_read hb h
  | succ n ih =>
    obtain ⟨ihp, ihc, ihm⟩ := ih
    refine ⟨?_, ?_, ?_⟩
    · intro m s e after h
      rw [parseAt] at h
      obtain ⟨t, s₁, ht, h⟩ := Outcome.bind_eq_done.mp h
      obtain ⟨left, s₂, hleft, h⟩ := Outcome.bind_eq_done.mp h
      obtain ⟨us, hus, hr⟩ := operand_read ihp ihm hleft
      obtain ⟨vs, next, hvs, hrest⟩ := ihc m left (t :: us) s₂ e after (hr m) h
      exact ⟨t :: us ++ vs, next, ((Stream.Takes.of_pop ht).trans hus).trans hvs, hrest⟩
    · intro m left ls s e after hl h
      rw [climb] at h
      obtain ⟨b, s₁, hb, h⟩ := Outcome.bind_eq_done.mp h
      obtain ⟨t, hp, rfl⟩ := bindsTighter_peeks hb
      by_cases hm : m < σ.strength t.kind
      · rw [decide_eq_true hm, if_pos rfl] at h
        obtain ⟨us, e', s', hus, hr, hgo⟩ := round_read ihp ihm hl hp hm h
        obtain ⟨vs, next, hvs, hre, hrest⟩ := ihc m e' (ls ++ us) s' e after hr hgo
        refine ⟨us ++ vs, next, hus.trans hvs, ?_, hrest⟩
        rw [← List.append_assoc]
        exact hre
      · rw [decide_eq_false hm, if_neg Bool.false_ne_true] at h
        cases h
        exact stop_read hl hp hm
    · intro separator closing s xs after hsep h
      rw [more] at h
      obtain ⟨b, s₁, hb, h⟩ := Outcome.bind_eq_done.mp h
      cases b with
      | false => exact close_read hb h
      | true =>
        obtain ⟨x, s₂, hx, h⟩ := Outcome.bind_eq_done.mp h
        obtain ⟨ys, s₃, hys, h⟩ := Outcome.bind_eq_done.mp h
        cases h
        obtain ⟨us, next, hus, hrx, -, -⟩ := ihp 0 s₁ x s₂ hx
        obtain ⟨vs, c, hvs, hc, hsy, hby, hwy⟩ := ihm separator closing s₂ ys after hsep hys
        rcases Stream.accept_takes hb with ⟨-, d, hd, ht⟩ | ⟨hf, -⟩
        · refine ⟨d :: (us ++ vs), c, ?_, hc, ⟨d, us, vs, by rw [hsep, hd], hrx.spelled, hsy, rfl⟩,
            ⟨by rw [hsep]; rfl, hrx.built, hby⟩, ⟨hrx.bound, hwy⟩⟩
          have htake := (ht.trans hus).trans hvs
          simp only [List.cons_append, List.nil_append, List.append_assoc] at htake ⊢
          exact htake
        · cases hf

theorem parse_reads {s after : Stream} {e : Expr} (h : σ.parse s = .done e after) :
    ∃ ts behind next, s.popMany ts.length = .done ts behind ∧ behind.peek = .done next after ∧
      next.isEnding = true ∧ σ.Read 0 ts e after := by
  obtain ⟨e', s₁, hparse, h⟩ := Outcome.bind_eq_done.mp h
  obtain ⟨t, s₂, hpeek, h⟩ := Outcome.bind_eq_done.mp h
  obtain ⟨ts, next, ⟨behind, hpop, hpeeked⟩, hr, hp, -⟩ := (run_read _).1 0 s e' s₁ hparse
  rw [hp] at hpeek
  cases hpeek
  split at h
  · rename_i ht
    cases h
    exact ⟨ts, behind, t, hpop, hpeeked.peek hp, ht, hr⟩
  · cases h

end Setting

/-- **Every parse respects precedence.**  If `parseAt` gives an expression, in any grammar, from
any stream and above any threshold, then the tokens it took from the stream have the kinds of the
expression in order, with the closing delimiters and separators of the grammar as marks; every node
was made by the role of its token's kind; precedence allows the expression above the threshold; and
the token that follows binds no tighter than the threshold or any threshold left open. -/
theorem parseAt_respects_precedence (σ : Setting) (n : Nat) (m : Int) (s after : Stream) (e : Expr)
    (h : σ.parseAt n m s = .done e after) :
    ∃ ts behind next,
      s.popMany ts.length = .done ts behind ∧ behind.peek = .done next after ∧
      ts.map Token.kind = e.inOrder Token.kind σ.grammar.kindMarks ∧
      e.Built σ ∧ e.WellBound σ.grammar m ∧
      ∀ b ∈ m :: e.openOnRight σ.grammar, σ.strength next.kind ≤ b := by
  obtain ⟨ts, next, ⟨behind, hpop, hpeeked⟩, hr, hp, hn⟩ := (Setting.run_read n).1 m s e after h
  exact ⟨ts, behind, next, hpop, hpeeked.peek hp, Expr.kinds_of_spelled hr.spelled, hr.built,
    hr.bound, hr.calm_cons hp hn next after hp⟩

/-- a small language in which the caret binds above the bang behind an operand -/
def caretAboveBang : List Registration :=
  ['^', '!'].map .punctuator ++ ['2', '3'].map .digit
    ++ [.kind Kind.word, .kind ⟨['^'], .caretHighest⟩, .kind ⟨['!'], .postfix1⟩,
        .nameKind Kind.word, .prefixRole Kind.word .leaf,
        .infixRole ⟨['^'], .caretHighest⟩ .right, .infixRole ⟨['!'], .postfix1⟩ .suffix]

/-- the grammar of registrations, the empty one if they are refused -/
def Draft.grammarOf (nonDecimal : Bool) (rs : List Registration) : Grammar :=
  (Draft.build nonDecimal rs).toOption.getD Grammar.empty

/-- decimal numbers over the text in the small language -/
def caretSetting : Setting := ⟨Draft.grammarOf false caretAboveBang, 10⟩

def caretStream (text : List Char) : Stream :=
  .ofLexer ⟨⟨caretSetting.grammar, .scientific, Kind.word, Radix.ten⟩, text, 0⟩

/-- the bang is put around the power, since the right operand of the caret is read at threshold 10
and the bang has strength 8 -/
theorem caret_above_bang_respects_precedence :
    ∃ e after, caretSetting.parseFrom 0 (caretStream "2^3!".toList) = .done e after ∧
      e.text = "(postfix ! (^ 2 3))".toList ∧
      ∃ ts behind next,
        (caretStream "2^3!".toList).popMany ts.length = .done ts behind ∧
        behind.peek = .done next after ∧
        ts.map Token.kind = e.inOrder Token.kind caretSetting.grammar.kindMarks ∧
        e.Built caretSetting ∧ e.WellBound caretSetting.grammar 0 ∧
        ∀ b ∈ 0 :: e.openOnRight caretSetting.grammar, caretSetting.strength next.kind ≤ b := by
  have h : ((caretSetting.parseFrom 0 (caretStream "2^3!".toList)).value?.map Expr.text)
      = some "(postfix ! (^ 2 3))".toList := by decide +kernel
  obtain ⟨e, after, he, htext⟩ := Outcome.exists_done h
  exact ⟨e, after, he, htext, parseAt_respects_precedence _ _ _ _ _ _ he⟩

end Calculator
