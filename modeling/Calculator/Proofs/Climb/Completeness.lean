import Calculator.Proofs.Expr.Binding
import Calculator.Proofs.Token.Taking

/-!
# Precedence climbing finds every tree that precedence allows

In a grammar whose marks are marks and nothing else, a tree that precedence allows is what
`parseAt` makes of its spelling.  The left operand of an operator is not parsed by a call of its
own: the loop gets to it and goes on.  So the induction is over the tree, and what it says of every
tree is that `parseAt` *reaches* it: the call comes down to a call of `climb` with the tree as the
expression so far, whatever the next token does, as long as that token is not for an operator that
the tree leaves open.

* `Grammar.PlainMarks`   closing delimiters and separators have no other role;
* `Setting.Reaches`      `parseAt` gets to the tree on every spelling of it;
* `Setting.Reaches.parses`   a tree that is reached is parsed, if the next token ends the loop;
* `Setting.reaches`      every tree is reached.
-/

namespace Calculator

/-- closing delimiters and separators are marks and nothing else -/
structure Grammar.PlainMarks (g : Grammar) : Prop where
  closing_prefix : ∀ use k, g.closing? use = some k → g.prefixRole? k = none
  closing_infix : ∀ use k, g.closing? use = some k → g.infixRole? k = none
  separator_infix : ∀ k, g.separator? = some k → g.infixRole? k = none
  separator_closing : ∀ use k, g.separator? = some k → g.closing? use ≠ some k

/-! ## two facts about trees -/

namespace Expr

theorem head_of_spelled {σ : Setting} (e : Expr) (ts : List Token)
    (hs : e.Spelled σ.grammar ts) (hb : e.Built σ) :
    ∃ t us, ts = t :: us ∧ (σ.grammar.prefixRole? t.kind).isSome = true := by
  cases e with
  | name t => exact ⟨t, [], hs, by rw [hb.1]; rfl⟩
  | number t v => exact ⟨t, [], hs, by rw [hb.1]; rfl⟩
  | prefixed t x =>
    obtain ⟨us, -, rfl⟩ := hs
    exact ⟨t, us, rfl, by rw [hb.1]; rfl⟩
  | binary t l r =>
    obtain ⟨us, vs, hl, -, rfl⟩ := hs
    obtain ⟨u, us', rfl, hu⟩ := head_of_spelled l us hl hb.2.1
    exact ⟨u, _, rfl, hu⟩
  | suffixed t x =>
    obtain ⟨us, hx, rfl⟩ := hs
    obtain ⟨u, us', rfl, hu⟩ := head_of_spelled x us hx hb.2
    exact ⟨u, _, rfl, hu⟩
  | group t x =>
    obtain ⟨us, c, -, -, rfl⟩ := hs
    exact ⟨t, _, rfl, by rw [hb.1]; rfl⟩
  | call x t xs =>
    obtain ⟨us, vs, c, hx, -, -, rfl⟩ := hs
    obtain ⟨u, us', rfl, hu⟩ := head_of_spelled x us hx hb.2.2.1
    exact ⟨u, _, rfl, hu⟩
  | array t xs =>
    obtain ⟨vs, c, -, -, rfl⟩ := hs
    exact ⟨t, _, rfl, by rw [hb.1]; rfl⟩

theorem openOnRight_nonneg {g : Grammar} (e : Expr) {m : Int} (hm : 0 ≤ m)
    (hw : e.WellBound g m) : ∀ b ∈ e.openOnRight g, 0 ≤ b := by
  cases e with
  | prefixed t x =>
    have ht : 0 ≤ t.kind.strength := t.kind.precedence.strength_nonneg
    intro b hb
    rcases List.mem_cons.mp hb with rfl | hb
    · exact ht
    · exact openOnRight_nonneg x ht hw b hb
  | binary t l r =>
    have ht : 0 ≤ g.rightThreshold t.kind := by
      have hlt := hw.1
      unfold Grammar.rightThreshold
      split <;> omega
    intro b hb
    rcases List.mem_cons.mp hb with rfl | hb
    · exact ht
    · exact openOnRight_nonneg r ht hw.2.2.2 b hb
  | name t => intro b hb; cases hb
  | number t v => intro b hb; cases hb
  | suffixed t x => intro b hb; cases hb
  | group t x => intro b hb; cases hb
  | call x t xs => intro b hb; cases hb
  | array t xs => intro b hb; cases hb

end Expr

namespace Setting

variable (σ : Setting)

/-- on a spelling of the tree `parseAt` comes down to the loop with the tree as the expression so
far, in front of any token that is not for an operator left open -/
def Reaches (e : Expr) : Prop :=
  ∀ (m : Int) (n : Nat) (s : Stream) (ts : List Token) (next : Token) (rest : List Token),
    e.Spelled σ.grammar ts → e.Built σ → e.WellBound σ.grammar m →
    (∀ b ∈ e.openOnRight σ.grammar, σ.strength next.kind ≤ b) →
    s.Holds (ts ++ next :: rest) → ts.length ≤ n →
    ∃ n' s', n ≤ n' + ts.length ∧ σ.parseAt n m s = σ.climb n' m e s' ∧ s'.Holds (next :: rest)

variable {σ}

/-! ## the loop on known tokens -/

theorem bindsTighter_holds {m : Int} {s : Stream} {t : Token} {rest : List Token}
    (h : s.Holds (t :: rest)) :
    ∃ s', σ.bindsTighter m s = .done (decide (m < σ.strength t.kind)) s' ∧
      s'.Holds (t :: rest) := by
  obtain ⟨s', hp, h'⟩ := h.peek
  refine ⟨s', ?_, h'⟩
  unfold bindsTighter
  rw [hp, Outcome.bind_done]

theorem climb_stops (n : Nat) {m : Int} {e : Expr} {s : Stream} {t : Token} {rest : List Token}
    (h : s.Holds (t :: rest)) (hm : σ.strength t.kind ≤ m) :
    ∃ s', σ.climb n m e s = .done e s' ∧ s'.Holds (t :: rest) := by
  obtain ⟨s', hb, h'⟩ := bindsTighter_holds (σ := σ) (m := m) h
  rw [decide_eq_false (Int.not_lt.mpr hm)] at hb
  refine ⟨s', ?_, h'⟩
  cases n with
  | zero => rw [climb, hb]; rfl
  | succ n => rw [climb, hb]; rfl

theorem climb_round (n : Nat) {m : Int} {e : Expr} {s : Stream} {t : Token} {rest : List Token}
    (h : s.Holds (t :: rest)) (hm : m < σ.strength t.kind) :
    ∃ s', s'.Holds rest ∧ σ.climb (n + 1) m e s =
      (σ.extend (σ.parseAt n) (σ.more n) e t s').bind (σ.climb n m) := by
  obtain ⟨s₁, hb, h₁⟩ := bindsTighter_holds (σ := σ) (m := m) h
  obtain ⟨s', hpop, h'⟩ := h₁.pop
  refine ⟨s', h', ?_⟩
  rw [climb, hb, decide_eq_true hm]
  show (s₁.pop.bind _) = _
  rw [hpop]
  rfl

theorem parseAt_start (n : Nat) {m : Int} {s : Stream} {t : Token} {rest : List Token}
    (h : s.Holds (t :: rest)) :
    ∃ s', s'.Holds rest ∧ σ.parseAt (n + 1) m s =
      (σ.operand (σ.parseAt n) (σ.more n) t s').bind (σ.climb n m) := by
  obtain ⟨s', hpop, h'⟩ := h.pop
  refine ⟨s', h', ?_⟩
  rw [parseAt, hpop]
  rfl

/-- a tree that is reached is parsed in front of a token that ends the loop -/
theorem Reaches.parses {e : Expr} (he : σ.Reaches e) {m : Int} {n : Nat} {s : Stream}
    {ts : List Token} {next : Token} {rest : List Token} (hs : e.Spelled σ.grammar ts)
    (hb : e.Built σ) (hw : e.WellBound σ.grammar m)
    (hn : ∀ b ∈ m :: e.openOnRight σ.grammar, σ.strength next.kind ≤ b)
    (h : s.Holds (ts ++ next :: rest)) (hlen : ts.length ≤ n) :
    ∃ s', σ.parseAt n m s = .done e s' ∧ s'.Holds (next :: rest) := by
  obtain ⟨n', s₁, -, heq, h₁⟩ := he m n s ts next rest hs hb hw
    (fun b hb => hn b (List.mem_cons_of_mem _ hb)) h hlen
  obtain ⟨s', hstop, h'⟩ := climb_stops n' h₁ (hn m List.mem_cons_self)
  exact ⟨s', by rw [heq, hstop], h'⟩

/-! ## lists -/

section
variable (hg : σ.grammar.PlainMarks)
include hg

theorem mark_behind_item {use : Bracket} {xs : List Expr} {vs : List Token} {c : Token}
    (rest : List Token) (hs : Expr.SpelledMore σ.grammar xs vs)
    (hc : σ.grammar.closing? use = some c.kind) :
    ∃ next rest', vs ++ c :: rest = next :: rest' ∧ σ.strength next.kind = 0 := by
  cases xs with
  | nil =>
    rw [show vs = [] from hs]
    exact ⟨c, rest, rfl, strength_of_noInfix (hg.closing_infix use _ hc)⟩
  | cons x xs =>
    obtain ⟨d, us, ws, hd, -, -, rfl⟩ := hs
    exact ⟨d, _, rfl, strength_of_noInfix (hg.separator_infix _ hd)⟩

theorem item_parses (n : Nat) {use : Bracket} {x : Expr} (hx : σ.Reaches x) {s : Stream}
    {xs : List Expr} {us vs : List Token} {c : Token} {rest : List Token}
    (hs : x.Spelled σ.grammar us) (hb : x.Built σ) (hw : x.WellBound σ.grammar 0)
    (hms : Expr.SpelledMore σ.grammar xs vs) (hc : σ.grammar.closing? use = some c.kind)
    (h : s.Holds (us ++ (vs ++ c :: rest))) (hlen : us.length ≤ n) :
    ∃ s', σ.parseAt n 0 s = .done x s' ∧ s'.Holds (vs ++ c :: rest) := by
  obtain ⟨next, rest', heq, hn⟩ := mark_behind_item hg rest hms hc
  rw [heq] at h ⊢
  refine hx.parses hs hb hw (fun b hb => ?_) h hlen
  rw [hn]
  rcases List.mem_cons.mp hb with rfl | hb
  · exact Int.le_refl 0
  · exact x.openOnRight_nonneg (Int.le_refl 0) hw b hb

theorem more_parses {use : Bracket} {separator : Kind} {c : Token} {rest : List Token}
    (hsep : σ.grammar.separator? = some separator) (hc : σ.grammar.closing? use = some c.kind)
    (xs : List Expr) (hx : ∀ x ∈ xs, σ.Reaches x) :
    ∀ (n : Nat) (s : Stream) (ts : List Token), Expr.SpelledMore σ.grammar xs ts →
      Expr.BuiltItems σ xs → Expr.WellBoundAll σ.grammar xs → s.Holds (ts ++ c :: rest) →
      ts.length ≤ n → ∃ s', σ.more n separator c.kind s = .done xs s' ∧ s'.Holds rest := by
  induction xs with
  | nil =>
    intro n s ts hs _ _ h _
    rw [show ts = [] from hs, List.nil_append] at h
    have hne : c.kind ≠ separator := by
      intro e
      exact hg.separator_closing use separator hsep (by rw [hc, e])
    obtain ⟨s₁, ha, h₁⟩ := h.refuse hne
    obtain ⟨s', hcl, h'⟩ := h₁.consume
    refine ⟨s', ?_, h'⟩
    cases n with
    | zero =>
      rw [more, ha]
      show (s₁.consume c.kind).bind _ = _
      rw [hcl]
      rfl
    | succ n =>
      rw [more, ha]
      show (s₁.consume c.kind).bind _ = _
      rw [hcl]
      rfl
  | cons x xs ih =>
    intro n s ts hs hb hw h hlen
    obtain ⟨d, us, vs, hd, hxs, hms, rfl⟩ := hs
    rw [List.cons_append, List.append_assoc] at h
    rw [List.length_cons, List.length_append] at hlen
    obtain ⟨n, rfl⟩ : ∃ k, n = k + 1 := ⟨n - 1, by omega⟩
    have hdk : d.kind = separator := by
      rw [hsep] at hd
      exact (Option.some.inj hd).symm
    obtain ⟨s₁, ha, h₁⟩ := h.accept
    rw [hdk] at ha
    obtain ⟨s₂, hp, h₂⟩ := item_parses hg n (hx x List.mem_cons_self) hxs hb.2.1 hw.1 hms hc h₁
      (by omega)
    obtain ⟨s', hm, h'⟩ := ih (fun y hy => hx y (List.mem_cons_of_mem _ hy)) n s₂ vs hms hb.2.2
      hw.2 h₂ (by omega)
    refine ⟨s', ?_, h'⟩
    rw [more, ha]
    show (σ.parseAt n 0 s₁).bind _ = _
    rw [hp, Outcome.bind_done, hm, Outcome.bind_done]

theorem items_parse {use : Bracket} {t c : Token} {rest : List Token}
    (hc : σ.grammar.closing? use = some c.kind) (xs : List Expr) (hx : ∀ x ∈ xs, σ.Reaches x)
    {n : Nat} {s : Stream} {ts : List Token} (hs : Expr.SpelledItems σ.grammar xs ts)
    (hb : Expr.BuiltItems σ xs) (hw : Expr.WellBoundAll σ.grammar xs)
    (h : s.Holds (ts ++ c :: rest)) (hlen : ts.length ≤ n) :
    ∃ s', σ.items (σ.parseAt n 0) (σ.more n) use t s = .done xs s' ∧ s'.Holds rest := by
  unfold items
  rw [hc]
  cases xs with
  | nil =>
    rw [show ts = [] from hs, List.nil_append] at h
    obtain ⟨s', ha, h'⟩ := h.accept
    refine ⟨s', ?_, h'⟩
    show (s.accept c.kind).bind _ = _
    rw [ha]
    rfl
  | cons x xs =>
    obtain ⟨us, vs, hxs, hms, rfl⟩ := hs
    rw [List.append_assoc] at h
    rw [List.length_append] at hlen
    -- an item cannot start with the closing delimiter, which has no prefix role
    obtain ⟨u, us', hu, hrole⟩ := x.head_of_spelled us hxs hb.2.1
    have hne : u.kind ≠ c.kind := by
      intro e
      rw [e, hg.closing_prefix use _ hc] at hrole
      cases hrole
    have h₀ := h
    rw [hu, List.cons_append] at h₀
    obtain ⟨s₁, ha, h₁⟩ := h₀.refuse hne
    rw [← List.cons_append, ← hu] at h₁
    obtain ⟨separator, hsep⟩ := Option.isSome_iff_exists.mp hb.1
    obtain ⟨s₂, hp, h₂⟩ := item_parses hg n (hx x List.mem_cons_self) hxs hb.2.1 hw.1 hms hc h₁
      (by omega)
    obtain ⟨s', hm, h'⟩ := more_parses hg hsep hc xs (fun y hy => hx y (List.mem_cons_of_mem _ hy))
      n s₂ vs hms hb.2.2 hw.2 h₂ (by omega)
    refine ⟨s', ?_, h'⟩
    show (s.accept c.kind).bind _ = _
    rw [ha, Outcome.bind_done, if_neg Bool.false_ne_true, hsep]
    show (σ.parseAt n 0 s₁).bind _ = _
    rw [hp, Outcome.bind_done, hm, Outcome.bind_done]

end

/-! ## every tree is reached -/

theorem reaches_from {e : Expr} {t : Token} {us : List Token} {m : Int} {n : Nat} {s : Stream}
    {next : Token} {rest : List Token} (h : s.Holds ((t :: us) ++ next :: rest))
    (hlen : (t :: us).length ≤ n)
    (hop : ∀ k s₁, us.length ≤ k → s₁.Holds (us ++ next :: rest) →
      ∃ s₂, σ.operand (σ.parseAt k) (σ.more k) t s₁ = .done e s₂ ∧ s₂.Holds (next :: rest)) :
    ∃ n' s', n ≤ n' + (t :: us).length ∧ σ.parseAt n m s = σ.climb n' m e s' ∧
      s'.Holds (next :: rest) := by
  rw [List.length_cons] at hlen ⊢
  obtain ⟨n, rfl⟩ : ∃ k, n = k + 1 := ⟨n - 1, by omega⟩
  obtain ⟨s₁, h₁, heq⟩ := parseAt_start (σ := σ) n (m := m) h
  obtain ⟨s', he, h'⟩ := hop n s₁ (by omega) h₁
  refine ⟨n, s', by omega, ?_, h'⟩
  rw [heq, he, Outcome.bind_done]

theorem reaches_name (t : Token) : σ.Reaches (.name t) := by
  intro m n s ts next rest hs hb _ _ h hlen
  rw [show ts = [t] from hs] at h hlen ⊢
  refine reaches_from h hlen fun k s₁ _ h₁ => ⟨s₁, ?_, h₁⟩
  unfold operand leaf
  rw [hb.1, hb.2]
  rfl

theorem reaches_number (t : Token) (v : Numeral) : σ.Reaches (.number t v) := by
  intro m n s ts next rest hs hb _ _ h hlen
  rw [show ts = [t] from hs] at h hlen ⊢
  refine reaches_from h hlen fun k s₁ _ h₁ => ⟨s₁, ?_, h₁⟩
  unfold operand leaf
  rw [hb.1, hb.2.1, hb.2.2]
  rfl

theorem reaches_prefixed {x : Expr} (hx : σ.Reaches x) (t : Token) :
    σ.Reaches (.prefixed t x) := by
  intro m n s ts next rest hs hb hw hn h hlen
  obtain ⟨us, hxs, rfl⟩ := hs
  refine reaches_from h hlen fun k s₁ hk h₁ => ?_
  obtain ⟨s₂, hp, h₂⟩ := hx.parses hxs hb.2 hw hn h₁ hk
  refine ⟨s₂, ?_, h₂⟩
  unfold operand
  rw [hb.1]
  show (σ.parseAt k t.kind.strength s₁).bind _ = _
  rw [hp, Outcome.bind_done]

theorem reaches_group (hg : σ.grammar.PlainMarks) {x : Expr} (hx : σ.Reaches x) (t : Token) :
    σ.Reaches (.group t x) := by
  intro m n s ts next rest hs hb hw _ h hlen
  obtain ⟨us, c, hxs, hc, rfl⟩ := hs
  refine reaches_from h hlen fun k s₁ hk h₁ => ?_
  rw [List.append_assoc, List.singleton_append] at h₁
  rw [List.length_append] at hk
  -- the inner expression stands before its closing delimiter like the last item of a list
  have hnone : Expr.SpelledMore σ.grammar [] [] := rfl
  obtain ⟨s₂, hp, h₂⟩ := item_parses hg k hx hxs hb.2.2 hw hnone hc h₁ (by omega)
  obtain ⟨s₃, hcl, h₃⟩ := Stream.Holds.consume h₂
  refine ⟨s₃, ?_, h₃⟩
  unfold operand
  rw [hb.1, hc]
  show (σ.parseAt k 0 s₁).bind _ = _
  rw [hp, Outcome.bind_done, hcl, Outcome.bind_done]

theorem reaches_array (hg : σ.grammar.PlainMarks) {xs : List Expr}
    (hx : ∀ x ∈ xs, σ.Reaches x) (t : Token) : σ.Reaches (.array t xs) := by
  intro m n s ts next rest hs hb hw _ h hlen
  obtain ⟨vs, c, hxs, hc, rfl⟩ := hs
  refine reaches_from h hlen fun k s₁ hk h₁ => ?_
  rw [List.append_assoc, List.singleton_append] at h₁
  rw [List.length_append] at hk
  obtain ⟨s₂, hp, h₂⟩ := items_parse hg (t := t) hc xs hx hxs hb.2.2 hw h₁
    (show vs.length ≤ k by omega)
  refine ⟨s₂, ?_, h₂⟩
  unfold operand
  rw [hb.1]
  show (σ.items _ _ _ _ _).bind _ = _
  rw [hp, Outcome.bind_done]

/-- the loop has reached the left operand, and the next token makes a larger tree around it -/
theorem reaches_around {left e : Expr} {t : Token} {us vs : List Token} {m : Int} {n : Nat}
    {s : Stream} {next : Token} {rest : List Token} (hl : σ.Reaches left)
    (hs : left.Spelled σ.grammar us) (hb : left.Built σ) (hw : left.WellBound σ.grammar m)
    (hm : m < σ.strength t.kind)
    (ho : ∀ b ∈ left.openOnRight σ.grammar, σ.strength t.kind ≤ b)
    (h : s.Holds ((us ++ t :: vs) ++ next :: rest)) (hlen : (us ++ t :: vs).length ≤ n)
    (hext : ∀ k s₁, vs.length ≤ k → s₁.Holds (vs ++ next :: rest) →
      ∃ s₂, σ.extend (σ.parseAt k) (σ.more k) left t s₁ = .done e s₂ ∧ s₂.Holds (next :: rest)) :
    ∃ n' s', n ≤ n' + (us ++ t :: vs).length ∧ σ.parseAt n m s = σ.climb n' m e s' ∧
      s'.Holds (next :: rest) := by
  rw [List.append_assoc, List.cons_append] at h
  rw [List.length_append, List.length_cons] at hlen ⊢
  obtain ⟨n₁, s₁, hn₁, heq, h₁⟩ := hl m n s us t (vs ++ next :: rest) hs hb hw ho h (by omega)
  obtain ⟨k, rfl⟩ : ∃ k, n₁ = k + 1 := ⟨n₁ - 1, by omega⟩
  obtain ⟨s₂, h₂, hround⟩ := climb_round (σ := σ) k (e := left) h₁ hm
  obtain ⟨s', he, h'⟩ := hext k s₂ (by omega) h₂
  refine ⟨k, s', by omega, ?_, h'⟩
  rw [heq, hround, he, Outcome.bind_done]

theorem reaches_binary {l r : Expr} (hl : σ.Reaches l) (hr : σ.Reaches r) (t : Token) :
    σ.Reaches (.binary t l r) := by
  intro m n s ts next rest hs hb hw hn h hlen
  obtain ⟨us, vs, hls, hrs, rfl⟩ := hs
  obtain ⟨hm, hwl, ho, hwr⟩ := hw
  have hst : σ.strength t.kind = t.kind.strength := by
    rcases hb.1 with hrole | hrole <;> exact strength_of_infixRole hrole
  refine reaches_around hl hls hb.2.1 hwl (by rw [hst]; exact hm) (by rw [hst]; exact ho) h hlen
    fun k s₁ hk h₁ => ?_
  obtain ⟨s₂, hp, h₂⟩ := hr.parses hrs hb.2.2 hwr hn h₁ hk
  refine ⟨s₂, ?_, h₂⟩
  unfold extend
  rcases hb.1 with hrole | hrole
  · rw [Grammar.rightThreshold_left hrole] at hp
    rw [hrole]
    show (σ.parseAt k t.kind.strength s₁).bind _ = _
    rw [hp, Outcome.bind_done]
  · rw [Grammar.rightThreshold_right hrole] at hp
    rw [hrole]
    show (σ.parseAt k (t.kind.strength - 1) s₁).bind _ = _
    rw [hp, Outcome.bind_done]

theorem reaches_suffixed {x : Expr} (hx : σ.Reaches x) (t : Token) :
    σ.Reaches (.suffixed t x) := by
  intro m n s ts next rest hs hb hw _ h hlen
  obtain ⟨us, hxs, rfl⟩ := hs
  obtain ⟨hm, hwx, ho⟩ := hw
  have hst := strength_of_infixRole hb.1
  refine reaches_around hx hxs hb.2 hwx (by rw [hst]; exact hm) (by rw [hst]; exact ho) h hlen
    fun k s₁ _ h₁ => ⟨s₁, ?_, h₁⟩
  unfold extend
  rw [hb.1]

theorem reaches_call (hg : σ.grammar.PlainMarks) {x : Expr} {xs : List Expr} (hx : σ.Reaches x)
    (hxs : ∀ y ∈ xs, σ.Reaches y) (t : Token) : σ.Reaches (.call x t xs) := by
  intro m n s ts next rest hs hb hw _ h hlen
  obtain ⟨us, vs, c, hfs, has, hc, rfl⟩ := hs
  obtain ⟨hm, hwx, ho, hwa⟩ := hw
  have hst := strength_of_infixRole hb.1
  refine reaches_around hx hfs hb.2.2.1 hwx (by rw [hst]; exact hm) (by rw [hst]; exact ho) h hlen
    fun k s₁ hk h₁ => ?_
  rw [List.append_assoc, List.singleton_append] at h₁
  rw [List.length_append] at hk
  obtain ⟨s₂, hp, h₂⟩ := items_parse hg (t := t) hc xs hxs has hb.2.2.2 hwa h₁
    (show vs.length ≤ k by omega)
  refine ⟨s₂, ?_, h₂⟩
  unfold extend
  rw [hb.1]
  show (σ.items _ _ _ _ _).bind _ = _
  rw [hp, Outcome.bind_done]

mutual

/-- `parseAt` gets to every tree on every spelling of it -/
theorem reaches (hg : σ.grammar.PlainMarks) (e : Expr) : σ.Reaches e := by
  cases e with
  | name t => exact reaches_name t
  | number t v => exact reaches_number t v
  | prefixed t x => exact reaches_prefixed (reaches hg x) t
  | binary t l r => exact reaches_binary (reaches hg l) (reaches hg r) t
  | suffixed t x => exact reaches_suffixed (reaches hg x) t
  | group t x => exact reaches_group hg (reaches hg x) t
  | call x t xs => exact reaches_call hg (reaches hg x) (reaches_all hg xs) t
  | array t xs => exact reaches_array hg (reaches_all hg xs) t

theorem reaches_all (hg : σ.grammar.PlainMarks) (xs : List Expr) : ∀ x ∈ xs, σ.Reaches x := by
  cases xs with
  | nil => intro x hx; cases hx
  | cons y ys => exact List.forall_mem_cons.mpr ⟨reaches hg y, reaches_all hg ys⟩

end

end Setting
end Calculator
