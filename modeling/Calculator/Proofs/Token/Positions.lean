import Calculator.Proofs.Token.Tiles

/-!
# Positions along the results of a lexer

Every result stands where its pull finds something, and before the end of the source each pull
finds its piece behind the piece of the one before.  At the end the position stays, so a row of
tokens that a lexer gives goes up as long as it does not end with two ending tokens.

* `Lexer.position_result`   a result stands at the start of its pull;
* `Ascending`               positions go up along a row of tokens;
* `EndsOnce`                the row does not end with two ending tokens;
* `Lexer.ascending`         such a row goes up when a lexer gives it.
-/

namespace Calculator

/-- positions go up along the row -/
def Ascending (ts : List Token) : Prop := ts.Pairwise fun a b => a.position < b.position

/-- the row does not end with two ending tokens -/
def EndsOnce (ts : List Token) : Prop :=
  ∀ a b, [a, b] <:+ ts → a.kind = Kind.ending → b.kind ≠ Kind.ending

namespace Lexer

section
variable {l : Lexer} (h₀ : l.cursor ≤ l.source.length) (hlen : l.source.length < 2 ^ 32)
include h₀ hlen

theorem position_result (k : Nat) : (position (l.result k)).toNat = l.start k := by
  have htile := tile h₀ hlen k
  by_cases hend : l.start k = l.source.length
  · obtain ⟨-, t, ht, -, -, hpos⟩ := htile.ending hend k (Nat.le_refl k)
    rw [ht, hend]
    exact hpos
  · have hle := start_le_length h₀ k
    exact (htile.piece (by omega)).2.1

theorem start_lt_start {j k : Nat} (h : l.start j < l.source.length) (hjk : j < k) :
    l.start j < l.start k := by
  have hstop := (piece_step h).1
  have hnext := stop_le_start h₀ hlen hjk
  omega

/-- **a row of tokens goes up when a lexer gives it and it does not end with two ending tokens** -/
theorem ascending {ts : List Token} (hpull : (l.pull ts.length).1 = ts.map Except.ok)
    (honce : EndsOnce ts) : Ascending ts := by
  -- an end that is not the last token of the row makes the last two of them ending tokens
  have hbefore : ∀ k, k + 1 < ts.length → l.start k < l.source.length := by
    intro k hk
    refine Nat.lt_of_le_of_ne (start_le_length h₀ k) fun hend => ?_
    have hkind : ∀ (j : Nat) (hj : j < ts.length), k ≤ j → ts[j].kind = Kind.ending := by
      intro j hj hkj
      obtain ⟨-, t, ht, hkind, -, -⟩ := (tile h₀ hlen k).ending hend j hkj
      rw [result_of_pull hpull hj] at ht
      rw [Except.ok.inj ht]
      exact hkind
    have hsuffix : [ts[ts.length - 2], ts[ts.length - 1]] <:+ ts := by
      have hdrop : ts.drop (ts.length - 2) = [ts[ts.length - 2], ts[ts.length - 1]] := by
        rw [List.drop_eq_getElem_cons (by omega), show ts.length - 2 + 1 = ts.length - 1 by omega,
          List.drop_eq_getElem_cons (by omega), List.drop_of_length_le (by omega)]
      rw [← hdrop]
      exact List.drop_suffix _ ts
    exact honce _ _ hsuffix (hkind _ (by omega) (by omega)) (hkind _ (by omega) (by omega))
  refine List.pairwise_iff_getElem.mpr ?_
  intro i j hi hj hij
  have hlt := start_lt_start h₀ hlen (hbefore i (by omega)) hij
  rw [← position_result h₀ hlen i, ← position_result h₀ hlen j, result_of_pull hpull hi,
    result_of_pull hpull hj] at hlt
  exact UInt32.lt_iff_toNat_lt.mpr hlt

end

end Lexer
end Calculator
