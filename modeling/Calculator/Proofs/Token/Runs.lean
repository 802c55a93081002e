import Calculator.Proofs.Token.Respaced

/-!
# Runs over a text

A run reads a text from left to right: it passes over blanks, takes pieces, and leaves a rest.  It
says nothing about positions, so runs can be put together.  A run up to the end of a text goes on
up to a separator where one stands behind the text, whatever follows it.

* `Rules.Run ρ text keys rest`   a run gives pieces of these kinds and lexemes and leaves the rest;
* `Rules.Run.append`             runs one after the other;
* `Rules.Run.parted`             a run over a text that a separator and more follow;
* `Rules.Run.inv_nil`, `Rules.Run.inv_cons`   what a run without a piece and one with a piece does;
* `Lexer.run_of_pull`            pulls up to the ending token are a run over the whole text;
* `Lexer.lexes_of_run`, `Lexer.result_of_run`   a run over the whole text tells what pulls give.
-/

namespace Calculator

namespace Rules

/-- reading the text goes over blanks, takes pieces of these kinds and lexemes, leaves the rest -/
inductive Run (ρ : Rules) : List Char → List (Kind × List Char) → List Char → Prop where
  | done (text : List Char) : Run ρ text [] text
  | blank {w : Char} {cs rest : List Char} {keys : List (Kind × List Char)} :
      ρ.grammar.isWhitespace w = true → Run ρ cs keys rest → Run ρ (w :: cs) keys rest
  | piece {c : Char} {cs tail rest : List Char} {key : Kind × List Char}
      {keys : List (Kind × List Char)} :
      ρ.grammar.isWhitespace c = false → ρ.scan c cs = ⟨.ok key, tail⟩ → Run ρ tail keys rest →
      Run ρ (c :: cs) (key :: keys) rest

namespace Run

variable {ρ : Rules} {text rest : List Char} {keys : List (Kind × List Char)}

theorem append {mid : List Char} {keys' : List (Kind × List Char)} (h : ρ.Run text keys mid)
    (h' : ρ.Run mid keys' rest) : ρ.Run text (keys ++ keys') rest := by
  induction h with
  | done text => exact h'
  | blank hw h ih => exact .blank hw (ih h')
  | piece hc hscan h ih => exact .piece hc hscan (ih h')

/-- a separator behind the text ends its last piece as the end of the text does -/
theorem parted {sep : Char → Bool} (hρ : ρ.Apart sep) {w : Char} (hw : sep w = true)
    (more : List Char) (h : ρ.Run text keys rest) :
    ρ.Run (text ++ w :: more) keys (rest ++ w :: more) := by
  induction h with
  | done text => exact .done _
  | blank hb h ih => exact .blank hb ih
  | @piece c cs tail rest key keys hc hscan h ih =>
    obtain ⟨part, hpart⟩ := ρ.scan_rest c cs
    rw [hscan] at hpart
    change part ++ tail = cs at hpart
    subst hpart
    have hscan' := scan_parted hρ (Parted.append_cut hw tail more) hscan
    rw [← List.append_assoc] at hscan'
    exact .piece hc hscan' ih

theorem of_dropWhile (h : ρ.Run (text.dropWhile ρ.grammar.isWhitespace) keys rest) :
    ρ.Run text keys rest := by
  induction text with
  | nil => exact h
  | cons c cs ih =>
    rw [List.dropWhile_cons] at h
    by_cases hc : ρ.grammar.isWhitespace c = true
    · rw [if_pos hc] at h
      exact .blank hc (ih h)
    · rw [if_neg hc] at h
      exact h

theorem inv_nil (h : ρ.Run text [] rest) :
    text.dropWhile ρ.grammar.isWhitespace = rest.dropWhile ρ.grammar.isWhitespace := by
  generalize hkeys : ([] : List (Kind × List Char)) = keys at h
  induction h with
  | done text => rfl
  | blank hw h ih =>
    rw [List.dropWhile_cons, if_pos hw]
    exact ih hkeys
  | piece hc hscan h ih => cases hkeys

theorem inv_cons {key : Kind × List Char} (h : ρ.Run text (key :: keys) rest) :
    ∃ c cs tail, text.dropWhile ρ.grammar.isWhitespace = c :: cs ∧
      ρ.scan c cs = ⟨.ok key, tail⟩ ∧ ρ.Run tail keys rest := by
  generalize hall : key :: keys = all at h
  induction h with
  | done text => cases hall
  | blank hw h ih =>
    rw [List.dropWhile_cons, if_pos hw]
    exact ih hall
  | @piece c cs tail rest key' keys' hc hscan h ih =>
    cases hall
    refine ⟨c, cs, tail, ?_, hscan, h⟩
    rw [List.dropWhile_cons, if_neg (Bool.eq_false_iff.mp hc)]

theorem length_le (h : ρ.Run text keys rest) : keys.length ≤ text.length := by
  induction h with
  | done text => exact Nat.zero_le _
  | blank hw h ih => exact Nat.le_succ_of_le ih
  | @piece c cs tail rest key keys hc hscan h ih =>
    have htail := (ρ.scan_rest c cs).length_le
    rw [hscan] at htail
    exact Nat.succ_le_succ (Nat.le_trans ih htail)

end Run

theorem scan_ne_ending {ρ : Rules} (hname : ρ.nameKind ≠ Kind.ending) {c : Char}
    {cs tail : List Char} {key : Kind × List Char} (h : ρ.scan c cs = ⟨.ok key, tail⟩) :
    key.1 ≠ Kind.ending := by
  obtain ⟨k, lexeme⟩ := key
  show k ≠ Kind.ending
  rcases scan_ok (congrArg Scan.result h) with ⟨rfl, -⟩ | ⟨-, hk⟩ | ⟨d, -, hk⟩
  · exact hname
  · exact Grammar.ne_ending_of_kindOf hk
  · rintro rfl
    cases Grammar.name_of_kindNamed hk

end Rules

/-! ## pulls and runs -/

namespace Lexer

theorem exists_token_of_content {r : Except Error Token} {key : Kind × List Char}
    (h : content r = .ok key) : ∃ t : Token, r = .ok t ∧ t.key = key := by
  cases r with
  | ok t => exact ⟨t, rfl, Except.ok.inj h⟩
  | error e => cases h

/-- a run over the whole text tells what every pull gives, the ending token behind the last piece -/
theorem result_of_run {l : Lexer} {keys : List (Kind × List Char)}
    (h : l.rules.Run l.rest keys []) (n : Nat) :
    content (l.result n) = .ok (keys[n]?.getD (Kind.ending, [])) := by
  induction n generalizing l keys with
  | zero =>
    cases keys with
    | nil => exact (next_of_blank h.inv_nil).1
    | cons key keys =>
      obtain ⟨c, cs, tail, htext, hscan, -⟩ := h.inv_cons
      refine (next_of_scan htext).1.trans ?_
      rw [hscan]
      rfl
  | succ n ih =>
    show content (l.next.2.result n) = _
    cases keys with
    | nil =>
      have hnext : l.next.2.rules.Run l.next.2.rest [] [] := by
        rw [(next_of_blank h.inv_nil).2]
        exact .done []
      exact ih hnext
    | cons key keys =>
      obtain ⟨c, cs, tail, htext, hscan, h'⟩ := h.inv_cons
      refine ih ?_
      rw [next_rules, (next_of_scan htext).2, hscan]
      exact h'

theorem pullToEnd_of_run {l : Lexer} {keys : List (Kind × List Char)}
    (h : l.rules.Run l.rest keys []) (hname : l.rules.nameKind ≠ Kind.ending) {n : Nat}
    (hn : keys.length < n) : ∃ (ts : List Token) (t : Token), t.isEnding = true ∧
      l.pullToEnd n = ts.map Except.ok ++ [Except.ok t] ∧ ts.map Token.key = keys := by
  induction keys generalizing l n with
  | nil =>
    obtain ⟨t, ht, hkey⟩ := exists_token_of_content (next_of_blank h.inv_nil).1
    have hend : t.isEnding = true := decide_eq_true (Prod.mk.inj hkey).1
    cases n with
    | zero => cases hn
    | succ n =>
      refine ⟨[], t, hend, ?_, rfl⟩
      simp only [pullToEnd, ht, show isEnding (.ok t) = true from hend, if_true]
      rfl
  | cons key keys ih =>
    obtain ⟨c, cs, tail, htext, hscan, h'⟩ := h.inv_cons
    obtain ⟨hcontent, hrest⟩ := next_of_scan htext
    rw [hscan] at hcontent hrest
    obtain ⟨t, ht, hkey⟩ := exists_token_of_content hcontent
    have hend : t.isEnding = false := by
      refine decide_eq_false ?_
      have hne := Rules.scan_ne_ending hname hscan
      rwa [← hkey] at hne
    cases n with
    | zero => cases hn
    | succ n =>
      obtain ⟨ts, u, hu, hpull, hkeys⟩ := ih (l := l.next.2) (by rw [next_rules, hrest]; exact h')
        (by rw [next_rules]; exact hname) (Nat.lt_of_succ_lt_succ hn)
      refine ⟨t :: ts, u, hu, ?_, by rw [List.map_cons, hkey, hkeys]⟩
      simp only [pullToEnd, ht, show isEnding (.ok t) = false from hend, Bool.false_eq_true,
        if_false, hpull]
      rfl

theorem lexes_of_run {l : Lexer} {keys : List (Kind × List Char)} (h : l.rules.Run l.rest keys [])
    (hname : l.rules.nameKind ≠ Kind.ending) : ∃ ts, l.Lexes ts ∧ ts.map Token.key = keys := by
  obtain ⟨ts, t, ht, hpull, hkeys⟩ :=
    pullToEnd_of_run h hname (Nat.lt_succ_of_le h.length_le)
  exact ⟨ts, ⟨t, ht, hpull⟩, hkeys⟩

theorem scan_of_next {l : Lexer} {c : Char} {cs : List Char} {t : Token}
    (htext : l.rest.dropWhile l.rules.grammar.isWhitespace = c :: cs) (h : l.next.1 = .ok t) :
    l.rules.scan c cs = ⟨.ok t.key, l.next.2.rest⟩ := by
  obtain ⟨hcontent, hrest⟩ := next_of_scan htext
  rw [hrest, ← show content l.next.1 = .ok t.key by rw [h]; rfl, hcontent]

/-- pulls up to the ending token are a run over the whole text -/
theorem run_of_pull {l : Lexer} {ts : List Token} {t : Token}
    (hname : l.rules.nameKind ≠ Kind.ending) (hts : ∀ u ∈ ts, u.isEnding = false)
    (ht : t.isEnding = true)
    (h : (l.pull (ts.length + 1)).1 = ts.map Except.ok ++ [Except.ok t]) :
    l.rules.Run l.rest (ts.map Token.key) [] := by
  induction ts generalizing l with
  | nil =>
    have hfirst : l.next.1 = .ok t := (List.cons.inj h).1
    refine .of_dropWhile ?_
    cases htext : l.rest.dropWhile l.rules.grammar.isWhitespace with
    | nil => exact .done []
    | cons c cs =>
      -- a piece would have another kind than the ending one
      have hne := Rules.scan_ne_ending hname (scan_of_next htext hfirst)
      exact absurd (of_decide_eq_true ht) hne
  | cons u us ih =>
    have hfirst : l.next.1 = .ok u := (List.cons.inj h).1
    obtain ⟨hu, hus⟩ := List.forall_mem_cons.mp hts
    refine .of_dropWhile ?_
    cases htext : l.rest.dropWhile l.rules.grammar.isWhitespace with
    | nil =>
      have hcontent := (next_of_blank htext).1
      rw [hfirst] at hcontent
      have hkind : u.kind = Kind.ending := (Prod.mk.inj (Except.ok.inj hcontent)).1
      exact absurd hkind (of_decide_eq_false hu)
    | cons c cs =>
      have hwhite : l.rules.grammar.isWhitespace c = false := by
        have hstops := stops_dropWhile l.rules.grammar.isWhitespace l.rest
        rw [htext] at hstops
        exact hstops c rfl
      have hnext := ih (l := l.next.2) (by rw [next_rules]; exact hname) hus (List.cons.inj h).2
      rw [next_rules] at hnext
      exact .piece hwhite (scan_of_next htext hfirst) hnext

end Lexer
end Calculator
