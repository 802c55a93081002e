import Calculator.Proofs.Climb.Soundness
import Calculator.Proofs.Grammar.Builtin
import Calculator.Proofs.Token.Pieces
import Mathlib.Control.Monad.Basic

/-!
# The built-in grammars accept exactly their expressions

Soundness and completeness of precedence climbing meet at the ending token.  No token of an
expression has the kind that ends a stream, since every kind in it is registered, so what was taken
for an expression that the ending token follows is all that the lexer gives before its end.

* `Expr.kinds_of_built`    the kinds of a tree are registered;
* `Lexer.pull_unique`      the tokens before the first ending token are determined;
* `Setting.parse_sound`    a whole parse took all tokens, and they read like the tree;
* `Setting.parse_complete` the tokens of a tree that precedence allows are parsed to the tree;
* `parse_iff_wellBound`    parsing gives the trees that read like the tokens, whose nodes have the
                           roles of their tokens, and that precedence allows, and no others.
-/

namespace Calculator

/-! ## kinds of a tree -/

namespace Expr

theorem mem_kinds_of_closing {g : Grammar} {use : Bracket} {k : Kind}
    (h : k ∈ g.kindMarks.closing use) : k ∈ g.kinds := by
  have hk : g.closing? use = some k := Option.mem_toList.mp h
  obtain ⟨p, -, hp⟩ := Option.bind_eq_some_iff.mp hk
  exact g.mem_kinds_of_kindOf hp

theorem mem_kinds_of_separator {g : Grammar} {k : Kind} (h : k ∈ g.kindMarks.separator) :
    k ∈ g.kinds := by
  have hk : g.separator? = some k := Option.mem_toList.mp h
  obtain ⟨c, -, hc⟩ := Option.bind_eq_some_iff.mp hk
  exact g.mem_kinds_of_kindOf hc

mutual

theorem kinds_of_built {σ : Setting} (e : Expr) (hb : e.Built σ) :
    ∀ k ∈ e.inOrder Token.kind σ.grammar.kindMarks, k ∈ σ.grammar.kinds := by
  intro k hk
  cases e with
  | name t =>
    rw [List.mem_singleton.mp hk]
    exact σ.grammar.mem_kinds_of_prefixRole? hb.1
  | number t v =>
    rw [List.mem_singleton.mp hk]
    exact σ.grammar.mem_kinds_of_prefixRole? hb.1
  | prefixed t x =>
    rcases List.mem_cons.mp hk with rfl | hk
    · exact σ.grammar.mem_kinds_of_prefixRole? hb.1
    · exact kinds_of_built x hb.2 k hk
  | binary t l r =>
    rcases List.mem_append.mp hk with hk | hk
    · exact kinds_of_built l hb.2.1 k hk
    · rcases List.mem_cons.mp hk with rfl | hk
      · rcases hb.1 with hr | hr
        · exact σ.grammar.mem_kinds_of_infixRole? hr
        · exact σ.grammar.mem_kinds_of_infixRole? hr
      · exact kinds_of_built r hb.2.2 k hk
  | suffixed t x =>
    rcases List.mem_append.mp hk with hk | hk
    · exact kinds_of_built x hb.2 k hk
    · rw [List.mem_singleton.mp hk]
      exact σ.grammar.mem_kinds_of_infixRole? hb.1
  | group t x =>
    rcases List.mem_cons.mp hk with rfl | hk
    · exact σ.grammar.mem_kinds_of_prefixRole? hb.1
    · rcases List.mem_append.mp hk with hk | hk
      · exact kinds_of_built x hb.2.2 k hk
      · exact mem_kinds_of_closing hk
  | call x t xs =>
    rcases List.mem_append.mp hk with hk | hk
    · exact kinds_of_built x hb.2.2.1 k hk
    · rcases List.mem_cons.mp hk with rfl | hk
      · exact σ.grammar.mem_kinds_of_infixRole? hb.1
      · rcases List.mem_append.mp hk with hk | hk
        · exact kinds_of_builtItems xs hb.2.2.2 k hk
        · exact mem_kinds_of_closing hk
  | array t xs =>
    rcases List.mem_cons.mp hk with rfl | hk
    · exact σ.grammar.mem_kinds_of_prefixRole? hb.1
    · rcases List.mem_append.mp hk with hk | hk
      · exact kinds_of_builtItems xs hb.2.2 k hk
      · exact mem_kinds_of_closing hk

theorem kinds_of_builtItems {σ : Setting} (xs : List Expr) (hb : BuiltItems σ xs) :
    ∀ k ∈ inOrderItems Token.kind σ.grammar.kindMarks xs, k ∈ σ.grammar.kinds := by
  intro k hk
  cases xs with
  | nil => cases hk
  | cons x xs =>
    rcases List.mem_append.mp hk with hk | hk
    · exact kinds_of_built x hb.2.1 k hk
    · exact kinds_of_builtMore xs hb.2.2 k hk

theorem kinds_of_builtMore {σ : Setting} (xs : List Expr) (hb : BuiltItems σ xs) :
    ∀ k ∈ inOrderMore Token.kind σ.grammar.kindMarks xs, k ∈ σ.grammar.kinds := by
  intro k hk
  cases xs with
  | nil => cases hk
  | cons x xs =>
    rcases List.mem_append.mp hk with hk | hk
    · exact mem_kinds_of_separator hk
    · rcases List.mem_append.mp hk with hk | hk
      · exact kinds_of_built x hb.2.1 k hk
      · exact kinds_of_builtMore xs hb.2.2 k hk

end

end Expr

/-! ## up to the ending token -/

theorem Lexer.pull_unique {l : Lexer} {ts us : List Token} {t u : Token}
    (ht : t.isEnding = true) (hu : u.isEnding = true)
    (hts : ∀ v ∈ ts, v.isEnding = false) (hus : ∀ v ∈ us, v.isEnding = false)
    (h : (l.pull (ts.length + 1)).1 = ts.map Except.ok ++ [Except.ok t])
    (h' : (l.pull (us.length + 1)).1 = us.map Except.ok ++ [Except.ok u]) : ts = us := by
  induction ts generalizing l us with
  | nil =>
    have hfirst : l.next.1 = .ok t := (List.cons.inj h).1
    cases us with
    | nil => rfl
    | cons v vs =>
      have hfirst' : l.next.1 = .ok v := (List.cons.inj h').1
      have e : t = v := Except.ok.inj (hfirst.symm.trans hfirst')
      have hv := hus v List.mem_cons_self
      rw [← e, ht] at hv
      cases hv
  | cons w ws ih =>
    have hfirst : l.next.1 = .ok w := (List.cons.inj h).1
    have hw := hts w List.mem_cons_self
    cases us with
    | nil =>
      have hfirst' : l.next.1 = .ok u := (List.cons.inj h').1
      have e : w = u := Except.ok.inj (hfirst.symm.trans hfirst')
      rw [e, hu] at hw
      cases hw
    | cons v vs =>
      have hfirst' : l.next.1 = .ok v := (List.cons.inj h').1
      have e : w = v := Except.ok.inj (hfirst.symm.trans hfirst')
      have hrest : ws = vs := ih (fun x hx => hts x (List.mem_cons_of_mem _ hx))
        (fun x hx => hus x (List.mem_cons_of_mem _ hx)) (List.cons.inj h).2 (List.cons.inj h').2
      rw [e, hrest]

/-! ## soundness and completeness meet -/

section
variable {g : Grammar} {radix : Nat} {l : Lexer} {ts : List Token}
  (hg : g.StandardMarks) (hcursor : l.cursor = 0) (hword : l.rules.nameKind = Kind.word)
  (hts : l.Lexes ts)

omit hg hcursor hword in
include hts in
theorem Lexer.Lexes.pull_eq :
    ∃ t : Token, t.isEnding = true ∧ ts.length ≤ l.rest.length ∧
      (∀ u ∈ ts, u.isEnding = false) ∧
      (l.pull (ts.length + 1)).1 = ts.map Except.ok ++ [Except.ok t] := by
  obtain ⟨t, ht, hend⟩ := hts
  obtain ⟨hlen, hall, hpull⟩ := Lexer.pullToEnd_spec _ l ts hend
  exact ⟨t, ht, Nat.lt_succ_iff.mp hlen, hall, hpull⟩

include hg hcursor hword hts

/-- a whole parse took all tokens before the end, and they read like the tree -/
theorem Setting.parse_sound {e : Expr} {after : Stream}
    (h : Setting.parse ⟨g, radix⟩ (Stream.ofLexer l) = .done e after) :
    e.inOrder Token.key g.keyMarks = ts.map Token.key ∧ e.Built ⟨g, radix⟩ ∧ e.WellBound g 0 := by
  obtain ⟨us, behind, next, hpop, hpeek, hnext, hr⟩ := Setting.parse_reads h
  obtain ⟨t, ht, -, hall, hpull⟩ := hts.pull_eq
  -- every token taken has a registered kind, and the ending kind is not registered
  have hus : ∀ u ∈ us, u.isEnding = false := by
    intro u hu
    have hk : u.kind ∈ g.kinds := by
      refine Expr.kinds_of_built e hr.built u.kind ?_
      rw [← Expr.kinds_of_spelled hr.spelled]
      exact List.mem_map_of_mem hu
    exact decide_eq_false fun hend => hg.noEnding (hend ▸ hk)
  have hpull' : (l.pull (us.length + 1)).1 = us.map Except.ok ++ [Except.ok next] := by
    obtain ⟨hpull', rfl⟩ := (Stream.popMany_ofLexer l us.length us behind).mp hpop
    rw [Lexer.pull_succ, hpull', (Stream.peek_ofLexer hpeek).1]
  have e' : us = ts := Lexer.pull_unique hnext ht hus hall hpull' hpull
  refine ⟨(Expr.map_of_spelled (p := fun t => t ∈ ts) (fun use c hc hk => ?_)
    (fun c hc hk => ?_) e us hr.spelled (fun u hu => e' ▸ hu)).symm.trans (by rw [e']),
    hr.built, hr.bound⟩
  all_goals
    have hlex : c.kind ≠ Kind.word → ∀ d, c.kind.name = [d] → c.lexeme = [d] := by
      intro hc' d hd
      have hmem : Except.ok c ∈ (l.pull (ts.length + 1)).1 := by
        rw [hpull]
        exact List.mem_append_left _ (List.mem_map_of_mem hc)
      exact Lexer.lexeme_of_name (by omega) hmem (by rw [hword]; exact hc') hd
  · exact hg.keyMarks_closing hlex hk
  · exact hg.keyMarks_separator hlex hk

omit hcursor hword in
/-- the tokens of a tree that precedence allows are parsed to the tree -/
theorem Setting.parse_complete {e : Expr} (h : e.inOrder Token.key g.keyMarks = ts.map Token.key)
    (hb : e.Built ⟨g, radix⟩) (hw : e.WellBound g 0) :
    ∃ e' after, Setting.parse ⟨g, radix⟩ (Stream.ofLexer l) = .done e' after ∧
      e'.unplaced = e.unplaced := by
  obtain ⟨t, ht, hlen, -, hpull⟩ := hts.pull_eq
  obtain ⟨e', he, hs⟩ := Expr.exists_spelled (σ := ⟨g, radix⟩) e ts hb h.symm
  have hb' : e'.Built ⟨g, radix⟩ := by
    rw [← Expr.built_unplaced, he, Expr.built_unplaced]
    exact hb
  have hw' : e'.WellBound g 0 := by
    rw [← Expr.wellBound_unplaced, he, Expr.wellBound_unplaced]
    exact hw
  -- the ending token is not registered, so it does not bind
  have hcalm : Setting.strength ⟨g, radix⟩ t.kind = 0 := by
    have hk : t.kind = Kind.ending := of_decide_eq_true ht
    refine Setting.strength_of_noInfix (Option.eq_none_iff_forall_ne_some.mpr fun r hrole => ?_)
    rw [hk] at hrole
    exact hg.noEnding (g.mem_kinds_of_infixRole? hrole)
  have hholds : (Stream.ofLexer l).Holds (ts ++ [t]) := by
    refine Stream.holds_ofLexer ?_
    rw [List.length_append, List.length_singleton, hpull, List.map_append]
    rfl
  obtain ⟨s', hparse, hs'⟩ := (Setting.reaches hg.plain e').parses (m := 0)
    (n := (Stream.ofLexer l).budget) hs hb' hw'
    (fun b hb => by
      rw [hcalm]
      rcases List.mem_cons.mp hb with rfl | hb
      · exact Int.le_refl 0
      · exact Expr.openOnRight_nonneg e' (Int.le_refl 0) hw' b hb)
    hholds (by
      have : (Stream.ofLexer l).budget = 0 + l.rest.length + 3 := rfl
      omega)
  obtain ⟨after, hpeek, -⟩ := hs'.peek
  refine ⟨e', after, ?_, he⟩
  unfold Setting.parse Setting.parseFrom
  rw [hparse, Outcome.bind_done, hpeek, Outcome.bind_done, if_pos ht]

end

/-- **A built-in grammar accepts exactly its expressions.**  Over any text that lexes without an
error, in any radix of the lexer and of the parser, a fresh parse gives an expression, up to
positions, if and only if the expression reads like the tokens, its nodes are what the roles of
their kinds make, and precedence allows it. -/
theorem parse_iff_wellBound (mode : Mode) (g : Grammar) (config : Config) (text : List Char)
    (l : Lexer) (ts : List Token) (radix : Nat) (e : Expr) (hg : mode.grammar = .ok g)
    (hl : Lexer.new g mode config text = .ok l) (hts : l.Lexes ts) :
    (∃ e' after, Setting.parse ⟨g, radix⟩ (Stream.ofLexer l) = .done e' after ∧
      e'.same e = true) ↔
      e.inOrder Token.key g.keyMarks = ts.map Token.key ∧ e.Built ⟨g, radix⟩ ∧
        e.WellBound g 0 := by
  have hstd := Mode.grammar_standard hg
  obtain ⟨hcursor, -, -, hname, -⟩ := Lexer.new_eq_ok hl
  have hword : l.rules.nameKind = Kind.word := by
    rw [hstd.words] at hname
    exact (Option.some.inj hname).symm
  constructor
  · rintro ⟨e', after, hparse, hsame⟩
    obtain ⟨ho, hb, hw⟩ := Setting.parse_sound hstd hcursor hword hts hparse
    have he : e'.unplaced = e.unplaced := (Expr.same_iff e' e).mp hsame
    refine ⟨?_, ?_, ?_⟩
    · rw [← Expr.inOrder_unplaced g.keyMarks (fun _ => rfl) e, ← he,
        Expr.inOrder_unplaced g.keyMarks (fun _ => rfl) e', ho]
    · rw [← Expr.built_unplaced, ← he, Expr.built_unplaced]
      exact hb
    · rw [← Expr.wellBound_unplaced, ← he, Expr.wellBound_unplaced]
      exact hw
  · rintro ⟨ho, hb, hw⟩
    obtain ⟨e', after, hparse, he⟩ := Setting.parse_complete hstd hts ho hb hw
    exact ⟨e', after, hparse, (Expr.same_iff e' e).mpr he⟩

/-- the tokens of `2^-3*4` -/
def negatedProductTokens : List Token :=
  [⟨Kind.word, ['2'], 0⟩, ⟨⟨['^'], .infix1⟩, ['^'], 1⟩, ⟨⟨['-'], .infix3⟩, ['-'], 2⟩,
    ⟨Kind.word, ['3'], 3⟩, ⟨⟨['*'], .infix2⟩, ['*'], 4⟩, ⟨Kind.word, ['4'], 5⟩]

/-- the minus takes the whole product, though the caret binds tighter than the asterisk -/
theorem negated_product_accepted :
    Mode.scientific.grammar = .ok Mode.scientific.language ∧
    Lexer.new Mode.scientific.language .scientific Config.whole "2^-3*4".toList
      = .ok (Mode.scientific.lexer "2^-3*4".toList) ∧
    (Mode.scientific.lexer "2^-3*4".toList).Lexes negatedProductTokens ∧
    ∃ e : Expr, e.text = "(^ 2 (- (* 3 4)))".toList ∧
      e.inOrder Token.key Mode.scientific.language.keyMarks
        = negatedProductTokens.map Token.key ∧
      e.Built ⟨Mode.scientific.language, 10⟩ ∧ e.WellBound Mode.scientific.language 0 := by
  have hg := Mode.grammar_eq .scientific
  have hl := Mode.scientific.lexer_eq "2^-3*4".toList
  have hts : (Mode.scientific.lexer "2^-3*4".toList).Lexes negatedProductTokens :=
    ⟨⟨Kind.ending, [], 6⟩, rfl, by decide +kernel⟩
  have htext : (Setting.parse ⟨Mode.scientific.language, 10⟩
      (Stream.ofLexer (Mode.scientific.lexer "2^-3*4".toList))).value?.map Expr.text
      = some "(^ 2 (- (* 3 4)))".toList := by decide +kernel
  obtain ⟨e, after, he, htext⟩ := Outcome.exists_done htext
  exact ⟨hg, hl, hts, e, htext, (parse_iff_wellBound _ _ _ _ _ _ 10 e hg hl hts).mp
    ⟨e, after, he, (Expr.same_iff e e).mpr rfl⟩⟩

end Calculator
