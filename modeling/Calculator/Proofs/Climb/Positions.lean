import Calculator.Proofs.Climb.Soundness
import Calculator.Proofs.Expr.Parts
import Calculator.Proofs.Token.Positions

/-!
# Expressions stand where their text starts

The tokens of a parse come from the lexer one after the other, so their positions go up as long as
the parse takes the ending token at most once.  It may take it, as a leaf, where the grammar gives
the ending kind that role; but nothing can be read behind it: an operator has to bind, a delimiter
has a name, and a kind has one prefix role.  From the row of tokens the order goes down to every
node, whose tokens stand together in the row and start at the position of the node.

* `Expr.endsOnce`         a row that precedence allows does not end with two ending tokens;
* `StartsAt p ts`         the row starts at the position, which is the least in it;
* `parse_positions`       the whole statement for a parse.
-/

namespace Calculator

/-! ## the ending token at most once -/

namespace Expr

section
variable {σ : Setting}

theorem ne_ending_of_binds {k : Kind} {m : Int} (hm : 0 ≤ m) (h : m < k.strength) :
    k ≠ Kind.ending := by
  rintro rfl
  have hzero : Kind.ending.strength = 0 := rfl
  omega

theorem leaf_of_alone {e : Expr} {t : Token} (hs : e.Spelled σ.grammar [t]) (hb : e.Built σ) :
    σ.grammar.prefixRole? t.kind = some .leaf := by
  -- every other node has at least two tokens
  have htwo : ∀ {us vs : List Token} {u : Token}, us ≠ [] → [t] ≠ us ++ u :: vs := by
    intro us vs u hus h
    have hlen := congrArg List.length h
    have hpos := List.length_pos_iff.mpr hus
    simp only [List.length_append, List.length_cons, List.length_nil] at hlen
    omega
  cases e with
  | name u =>
    obtain rfl := List.singleton_injective hs
    exact hb.1
  | number u v =>
    obtain rfl := List.singleton_injective hs
    exact hb.1
  | prefixed u x =>
    obtain ⟨us, hx, h⟩ := hs
    exact absurd (List.cons.inj h).2.symm hx.ne_nil
  | binary u l r =>
    obtain ⟨us, vs, hl, -, h⟩ := hs
    exact absurd h (htwo hl.ne_nil)
  | suffixed u x =>
    obtain ⟨us, hx, h⟩ := hs
    exact absurd h (htwo hx.ne_nil)
  | group u x =>
    obtain ⟨us, c, hx, -, h⟩ := hs
    exact absurd (List.cons.inj h).2 (by simp)
  | call f u xs =>
    obtain ⟨us, vs, c, hf, -, -, h⟩ := hs
    exact absurd h (htwo hf.ne_nil)
  | array u xs =>
    obtain ⟨vs, c, -, -, h⟩ := hs
    exact absurd (List.cons.inj h).2 (by simp)

theorem endsOnce_concat (us : List Token) {c : Token} (hc : c.kind ≠ Kind.ending) :
    EndsOnce (us ++ [c]) := by
  rintro a b ⟨init, h⟩ -
  have hlast := congrArg List.getLast? h
  simp only [List.getLast?_append, List.getLast?_cons_cons, List.getLast?_singleton,
    Option.some_or, Option.some.injEq] at hlast
  rwa [hlast]

/-- a row that precedence allows does not end with two ending tokens -/
theorem endsOnce (e : Expr) {m : Int} (hm : 0 ≤ m) {ts : List Token}
    (hs : e.Spelled σ.grammar ts) (hb : e.Built σ) (hw : e.WellBound σ.grammar m) :
    EndsOnce ts := by
  induction e using openOnRight.induct generalizing m ts with
  | case1 t =>
    intro a b h
    rw [show ts = [t] from hs] at h
    exact absurd h.length_le (by simp)
  | case2 t v =>
    intro a b h
    rw [show ts = [t] from hs] at h
    exact absurd h.length_le (by simp)
  | case3 t x ih =>
    obtain ⟨us, hx, rfl⟩ := hs
    intro a b h ha
    rcases List.suffix_cons_iff.mp h with h | h
    · -- the operator and a leaf behind it cannot be of the same kind
      obtain ⟨rfl, rfl⟩ := List.cons.inj h
      intro hbk
      have hleaf := leaf_of_alone hx hb.2
      rw [hbk, ← ha, hb.1] at hleaf
      cases hleaf
    · exact ih t.kind.precedence.strength_nonneg hx hb.2 hw a b h ha
  | case4 t l r ih =>
    obtain ⟨us, vs, -, hr, rfl⟩ := hs
    intro a b h ha
    have hlt := hw.1
    have hright : 0 ≤ σ.grammar.rightThreshold t.kind := by
      unfold Grammar.rightThreshold
      split <;> omega
    have hbehind : [a, b] <:+ t :: vs := by
      refine List.suffix_of_suffix_length_le h (List.suffix_append us _) ?_
      have hpos := List.length_pos_iff.mpr hr.ne_nil
      simp only [List.length_cons, List.length_nil]
      omega
    rcases List.suffix_cons_iff.mp hbehind with h | h
    · obtain ⟨rfl, -⟩ := List.cons.inj h
      exact absurd ha (ne_ending_of_binds hm hlt)
    · exact ih hright hr hb.2.2 hw.2.2.2 a b h ha
  | case5 t x =>
    obtain ⟨us, -, rfl⟩ := hs
    exact endsOnce_concat us (ne_ending_of_binds hm hw.1)
  | case6 t x =>
    obtain ⟨us, c, -, hc, rfl⟩ := hs
    exact endsOnce_concat (t :: us) (Grammar.closing?_ne_ending hc)
  | case7 f t xs =>
    obtain ⟨us, vs, c, -, -, hc, rfl⟩ := hs
    have h := endsOnce_concat (us ++ t :: vs) (Grammar.closing?_ne_ending hc)
    rwa [List.append_assoc, List.cons_append] at h
  | case8 t xs =>
    obtain ⟨vs, c, -, hc, rfl⟩ := hs
    exact endsOnce_concat (t :: vs) (Grammar.closing?_ne_ending hc)

end

end Expr

/-! ## where a row starts -/

/-- the row starts at the position, and no token of it stands before -/
structure StartsAt (p : Position) (ts : List Token) : Prop where
  first : ts.head?.map Token.position = some p
  least : ∀ t ∈ ts, p ≤ t.position

theorem Ascending.startsAt {ts : List Token} {p : Position} (h : Ascending ts)
    (hp : ts.head?.map Token.position = some p) : StartsAt p ts where
  first := hp
  least := by
    intro t ht
    obtain ⟨u, hu, rfl⟩ := Option.map_eq_some_iff.mp hp
    obtain ⟨us, rfl⟩ := List.head?_eq_some_iff.mp hu
    rcases List.mem_cons.mp ht with rfl | ht
    · exact UInt32.le_refl _
    · exact UInt32.le_of_lt ((List.pairwise_cons.mp h).1 t ht)

/-- every token of the first row stands before every token of the second -/
def Before (us vs : List Token) : Prop := ∀ a ∈ us, ∀ b ∈ vs, a.position < b.position

/-- **Expressions stand where their text starts.**  In any grammar, for either mode, any part of any
text and any radix: when a parse of a fresh stream gives an expression, the tokens it took are the
first results of the lexer, and their positions go up, with or without the delimiters and separators
that the tree drops.  Every node has the position of the first of its tokens, which is the least of
them, and the tokens of each of its children stand before those of the next; so do, in the tokens
that the parse took, the rows that spell the children. -/
theorem parse_positions (g : Grammar) (mode : Mode) (config : Config) (text : List Char) (l : Lexer)
    (radix : Nat) (e : Expr) (after : Stream) (hl : Lexer.new g mode config text = .ok l)
    (hlen : l.source.length < 2 ^ 32)
    (h : Setting.parse ⟨g, radix⟩ (Stream.ofLexer l) = .done e after) :
    Ascending e.tokens ∧
    (∀ x ∈ e.preorder, StartsAt x.position x.tokens ∧
      (x.children.map Expr.tokens).Pairwise Before) ∧
    ∃ ts, (l.pull ts.length).1 = ts.map Except.ok ∧ e.Spelled g ts ∧ Ascending ts ∧
      ∀ x ∈ e.preorder, ∃ us rows, us <:+: ts ∧ x.Spelled g us ∧ StartsAt x.position us ∧
        List.Forall₂ (Expr.Spelled g) x.children rows ∧ Laid rows us ∧ rows.Pairwise Before := by
  obtain ⟨h₀, -⟩ := Lexer.new_eq_ok hl
  have hcur : l.cursor ≤ l.source.length := by omega
  obtain ⟨ts, behind, next, hpop, -, -, hread⟩ := Setting.parse_reads h
  obtain ⟨hpull, -⟩ := (Stream.popMany_ofLexer l ts.length ts behind).mp hpop
  have honce := e.endsOnce (Int.le_refl 0) hread.spelled hread.built hread.bound
  have hts : Ascending ts := Lexer.ascending hcur hlen hpull honce
  have htokens : Ascending e.tokens := hts.sublist (e.tokens_sublist hread.spelled)
  refine ⟨htokens, ?_, ts, hpull, hread.spelled, hts, ?_⟩
  · intro x hx
    have hown : Ascending x.tokens := htokens.sublist (e.tokens_infix x hx).sublist
    exact ⟨hown.startsAt x.tokens_first, x.laid_tokens.pairwise hown⟩
  · intro x hx
    obtain ⟨us, hus, hspelled⟩ := e.spelled_of_mem hread.spelled x hx
    obtain ⟨rows, hrows, hlaid⟩ := hspelled.laid
    have hrow : Ascending us := hts.sublist hus.sublist
    exact ⟨us, rows, hus, hspelled, hrow.startsAt hspelled.first, hrows, hlaid, hlaid.pairwise hrow⟩

/-- a sum with the factorial of a call: the sum starts where the call does, and the call with the
name before its bracket -/
theorem factorial_call_positions :
    ∃ e after, Setting.parse ⟨Mode.scientific.language, 10⟩
        (Stream.ofLexer (Mode.scientific.lexer " f[a, -b]! + 2".toList)) = .done e after ∧
      e.text = "(+ (postfix ! (call f a (- b))) 2)".toList ∧
      e.preorder.map Expr.position = [1, 1, 1, 1, 3, 6, 7, 13] ∧ Ascending e.tokens ∧
      ∀ x ∈ e.preorder, StartsAt x.position x.tokens ∧
        (x.children.map Expr.tokens).Pairwise Before := by
  have hl := Mode.scientific.lexer_eq " f[a, -b]! + 2".toList
  have hlen : (Mode.scientific.lexer " f[a, -b]! + 2".toList).source.length < 2 ^ 32 := by decide
  have hrun : (Setting.parse ⟨Mode.scientific.language, 10⟩
      (Stream.ofLexer (Mode.scientific.lexer " f[a, -b]! + 2".toList))).value?.map
        (fun e => (e.text, e.preorder.map Expr.position))
      = some ("(+ (postfix ! (call f a (- b))) 2)".toList, [1, 1, 1, 1, 3, 6, 7, 13]) := by
    decide +kernel
  obtain ⟨e, after, he, hrun⟩ := Outcome.exists_done hrun
  obtain ⟨htext, hpositions⟩ := Prod.mk.inj hrun
  obtain ⟨htokens, hnodes, -⟩ := parse_positions _ _ _ _ _ 10 e after hl hlen he
  exact ⟨e, after, he, htext, hpositions, htokens, hnodes⟩

end Calculator
