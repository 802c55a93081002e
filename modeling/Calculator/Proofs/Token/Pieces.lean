import Calculator.Proofs.Token.Taking

/-!
# The pieces of a source

Pull after pull a lexer cuts its source into blanks and pieces.  Everything here follows from what
one pull can do (`Lexer.next_cases`): either only blanks are left, or a piece starts behind the
blanks and its scan decides the result and how far the cursor goes.

* `Lexer.after l n`         the lexer after so many pulls;
* `Lexer.Covers l n i`      the `i`-th character lies in one of the first `n` pieces;
* `Lexer.covered`           a character behind which the cursor is lies in a piece or is blank;
* `Rules.scan_ok`           what a token can be: a word, a symbol of one character, or one of two;
* `Stream.popMany_ofLexer`  the tokens of a fresh stream are the results of the pulls;
* `Lexer.Lexes`             pulling gives these tokens and then the end, without an error.
-/

namespace Calculator

/-! ## one pull -/

namespace Lexer

theorem new_eq_ok {g : Grammar} {mode : Mode} {config : Config} {text : List Char}
    {l : Lexer} (h : new g mode config text = .ok l) :
    l.cursor = 0 ∧ l.rules.grammar = g ∧ l.rules.mode = mode ∧
      g.nameKind = some l.rules.nameKind ∧ Radix.ofNat config.radix = .ok l.rules.radix := by
  unfold new at h
  split at h
  · cases h
  · rename_i radix hr
    split at h
    · cases h
    · rename_i k hk
      split at h
      · cases h
      · cases h
        exact ⟨rfl, rfl, rfl, hk, hr⟩

theorem source_of_new {g : Grammar} {mode : Mode} {config : Config} {text : List Char} {l : Lexer}
    (h : new g mode config text = .ok l) : config.select text = .ok l.source := by
  unfold new at h
  split at h
  · cases h
  · split at h
    · cases h
    · split at h
      · cases h
      · rename_i hselect
        cases h
        exact hselect

theorem new_of_select {g : Grammar} {mode : Mode} {config other : Config}
    {text text' source : List Char} {l : Lexer} (h : new g mode config text = .ok l)
    (hradix : other.radix = config.radix) (hselect : other.select text' = .ok source) :
    new g mode other text' = .ok ⟨l.rules, source, 0⟩ := by
  obtain ⟨⟨g', mode', nameKind, radix⟩, source', cursor⟩ := l
  obtain ⟨-, rfl, rfl, hname, hradix'⟩ := new_eq_ok h
  unfold new
  rw [hradix, hradix', hname, hselect]

theorem drop_startOfNext (l : Lexer) :
    l.source.drop l.startOfNext = l.rest.dropWhile l.rules.grammar.isWhitespace := by
  have h := List.takeWhile_append_dropWhile (p := l.rules.grammar.isWhitespace) (l := l.rest)
  have e : l.source.drop l.startOfNext = l.rest.drop l.blanks.length := by
    unfold startOfNext rest
    rw [List.drop_drop]
  calc l.source.drop l.startOfNext
      = (l.blanks ++ l.rest.dropWhile l.rules.grammar.isWhitespace).drop l.blanks.length := by
        rw [e, blanks, h]
    _ = l.rest.dropWhile l.rules.grammar.isWhitespace := List.drop_left

theorem blanks_length_le (l : Lexer) : l.blanks.length ≤ l.source.length - l.cursor := by
  have h := (List.takeWhile_prefix l.rules.grammar.isWhitespace (l := l.rest)).length_le
  rw [rest, List.length_drop] at h
  exact h

/-- a pull finds only blanks, or a piece whose scan takes at least one character -/
theorem next_cases (l : Lexer) (h : l.cursor ≤ l.source.length) :
    (l.startOfNext = l.source.length ∧
      l.next = (.ok (endingAt l.source.length), { l with cursor := l.source.length })) ∨
    (∃ c cs stop, l.source.drop l.startOfNext = c :: cs ∧
      l.startOfNext < stop ∧ stop ≤ l.source.length ∧
      l.next = (placed l.startOfNext (l.rules.scan c cs).result, { l with cursor := stop })) := by
  have hd := l.drop_startOfNext
  have hb := l.blanks_length_le
  have hstart : l.startOfNext = l.cursor + l.blanks.length := rfl
  have hlen := congrArg List.length hd
  rw [List.length_drop] at hlen
  cases hrest : l.rest.dropWhile l.rules.grammar.isWhitespace with
  | nil =>
    rw [hrest, List.length_nil] at hlen
    have e : l.startOfNext = l.source.length := by omega
    refine Or.inl ⟨e, ?_⟩
    unfold next
    rw [hrest]
    show (Except.ok (endingAt l.startOfNext), { l with cursor := l.startOfNext }) = _
    rw [e]
  | cons c cs =>
    rw [hrest, List.length_cons] at hlen
    have hscan := (l.rules.scan_rest c cs).length_le
    refine Or.inr ⟨c, cs, l.startOfNext + ((c :: cs).length - (l.rules.scan c cs).rest.length), ?_,
      ?_, ?_, ?_⟩
    · rw [hd, hrest]
    · rw [List.length_cons]
      omega
    · rw [List.length_cons]
      omega
    · unfold next
      rw [hrest]

theorem next_cursor_le (l : Lexer) (h : l.cursor ≤ l.source.length) :
    l.next.2.cursor ≤ l.source.length := by
  rcases l.next_cases h with ⟨-, e⟩ | ⟨c, cs, stop, -, -, hstop, e⟩
  · have hcursor : l.next.2.cursor = l.source.length := by rw [e]
    exact Nat.le_of_eq hcursor
  · rw [e]
    exact hstop

/-! ## many pulls -/

/-- the lexer after so many pulls -/
def after (l : Lexer) (n : Nat) : Lexer := (l.pull n).2

theorem after_zero (l : Lexer) : l.after 0 = l := rfl
theorem after_succ' (l : Lexer) (n : Nat) : l.after (n + 1) = l.next.2.after n := rfl

theorem after_succ (l : Lexer) (n : Nat) : l.after (n + 1) = (l.after n).next.2 := by
  induction n generalizing l with
  | zero => rfl
  | succ n ih => rw [after_succ', ih, ← after_succ']

theorem pull_succ (l : Lexer) (n : Nat) :
    (l.pull (n + 1)).1 = (l.pull n).1 ++ [(l.after n).next.1] := by
  induction n generalizing l with
  | zero => rfl
  | succ n ih =>
    show l.next.1 :: (l.next.2.pull (n + 1)).1 = _
    rw [ih]
    rfl

theorem after_source (l : Lexer) (n : Nat) : (l.after n).source = l.source := by
  induction n with
  | zero => rfl
  | succ n ih => rw [after_succ, next_source, ih]

theorem after_rules (l : Lexer) (n : Nat) : (l.after n).rules = l.rules := by
  induction n with
  | zero => rfl
  | succ n ih => rw [after_succ, next_rules, ih]

theorem after_cursor_le (l : Lexer) (h : l.cursor ≤ l.source.length) (n : Nat) :
    (l.after n).cursor ≤ l.source.length := by
  induction n with
  | zero => exact h
  | succ n ih =>
    rw [after_succ]
    rw [← after_source l n] at ih ⊢
    exact next_cursor_le _ ih

/-- the `i`-th character lies in one of the first `n` pieces -/
def Covers (l : Lexer) (n i : Nat) : Prop :=
  ∃ k < n, (l.after k).startOfNext ≤ i ∧ i < (l.after (k + 1)).cursor

theorem isWhitespace_of_blank (l : Lexer) {i : Nat} {c : Char} (hc : l.source[i]? = some c)
    (hlo : l.cursor ≤ i) (hhi : i < l.startOfNext) : l.rules.grammar.isWhitespace c = true := by
  have hget : l.blanks[i - l.cursor]? = some c := by
    have hp := List.takeWhile_prefix l.rules.grammar.isWhitespace (l := l.rest)
    have hlt : i - l.cursor < l.blanks.length := by
      have : l.startOfNext = l.cursor + l.blanks.length := rfl
      omega
    have hrest : l.rest[i - l.cursor]? = some c := by
      rw [rest, List.getElem?_drop, Nat.add_sub_cancel' hlo]
      exact hc
    have e := hp.getElem hlt
    rw [List.getElem?_eq_getElem hlt]
    rw [List.getElem?_eq_getElem (Nat.lt_of_lt_of_le hlt hp.length_le)] at hrest
    exact (congrArg some e).trans hrest
  have hmem : c ∈ l.rest.takeWhile l.rules.grammar.isWhitespace := List.mem_of_getElem? hget
  exact List.all_eq_true.mp List.all_takeWhile c hmem

theorem covered (l : Lexer) (h₀ : l.cursor = 0) (n : Nat) {i : Nat} {c : Char}
    (hc : l.source[i]? = some c) (hi : i < (l.after n).cursor) :
    l.rules.grammar.isWhitespace c = true ∨ l.Covers n i := by
  induction n with
  | zero =>
    rw [after_zero, h₀] at hi
    exact absurd hi (Nat.not_lt_zero i)
  | succ n ih =>
    by_cases hn : i < (l.after n).cursor
    · rcases ih hn with hw | ⟨k, hk, hcov⟩
      · exact Or.inl hw
      · exact Or.inr ⟨k, by omega, hcov⟩
    · by_cases hs : i < (l.after n).startOfNext
      · left
        rw [← after_rules l n]
        refine isWhitespace_of_blank (l.after n) ?_ (by omega) hs
        rw [after_source]
        exact hc
      · exact Or.inr ⟨n, by omega, by omega, hi⟩

end Lexer

/-! ## what a token can be -/

theorem Expansion.write_ne_nil (x : Expansion) : x.write ≠ [] := by
  unfold Expansion.write
  cases hi : x.integer with
  | nil => simp
  | cons d ds => simp

namespace Rules

variable {ρ : Rules}

theorem mantissa_ne_nil {c : Char} {cs m rest : List Char} (h : ρ.mantissa c cs = (.ok m, rest)) :
    m ≠ [] := by
  unfold mantissa at h
  simp only at h
  split at h
  · cases h
    simp
  · rename_i suffix rest' _
    obtain ⟨hm, -⟩ := Prod.mk.inj h
    cases hr : Radix.parse suffix with
    | error fault => rw [hr] at hm; cases hm
    | ok old =>
      rw [hr] at hm
      unfold rebase rebaseTo at hm
      simp only [bind, Except.bind] at hm
      split at hm
      · cases hm
      · cases hm
        exact Expansion.write_ne_nil _

theorem numeral_ne_nil {c : Char} {cs lexeme rest : List Char}
    (h : ρ.numeral c cs = (.ok lexeme, rest)) : lexeme ≠ [] := by
  unfold numeral at h
  split at h
  · cases h
  · rename_i m hm
    cases h
    exact mantissa_ne_nil hm
  · rename_i m k rest' hm
    have hne := mantissa_ne_nil hm
    split at h
    · split at h
      · cases h
      · cases h
        exact List.append_ne_nil_of_left_ne_nil hne _
    · cases h
      exact hne

theorem single_ok {c : Char} {cs : List Char} {k : Kind} {lexeme : List Char}
    (h : (ρ.single c cs).result = .ok (k, lexeme)) :
    lexeme = [c] ∧ ρ.grammar.kindOf c = some k := by
  unfold single at h
  split at h
  · rename_i k' hk
    cases h
    exact ⟨rfl, hk⟩
  · cases h

theorem compound_named {mode : Mode} {g : Grammar} {c d : Char} {k : Kind}
    (h : mode.compound g c d = some k) : g.kindNamed [c, d] = some k := by
  unfold Mode.compound at h
  split at h
  · split at h
    · exact h
    · cases h
  · exact h

theorem symbol_ok {c : Char} {cs : List Char} {k : Kind} {lexeme : List Char}
    (h : (ρ.symbol c cs).result = .ok (k, lexeme)) :
    (lexeme = [c] ∧ ρ.grammar.kindOf c = some k) ∨
      ∃ d, lexeme = [c, d] ∧ ρ.grammar.kindNamed [c, d] = some k := by
  cases cs with
  | nil => exact Or.inl (single_ok h)
  | cons d cs =>
    simp only [symbol] at h
    split at h
    · rename_i k' hk
      cases h
      exact Or.inr ⟨d, rfl, compound_named hk⟩
    · exact Or.inl (single_ok h)

theorem scan_ok {c : Char} {cs : List Char} {k : Kind} {lexeme : List Char}
    (h : (ρ.scan c cs).result = .ok (k, lexeme)) :
    (k = ρ.nameKind ∧ lexeme ≠ []) ∨ (lexeme = [c] ∧ ρ.grammar.kindOf c = some k) ∨
      ∃ d, lexeme = [c, d] ∧ ρ.grammar.kindNamed [c, d] = some k := by
  unfold scan at h
  split at h
  · exact Or.inr (symbol_ok h)
  · left
    split at h
    · cases h
    · split at h
      · cases h
        exact ⟨rfl, List.cons_ne_nil _ _⟩
      · split at h
        · unfold scanNumeral at h
          split at h
          · rename_i lx rest hn
            cases h
            exact ⟨rfl, numeral_ne_nil hn⟩
          · cases h
        · cases h

end Rules

/-! ## the kinds of tokens -/

namespace Grammar

theorem name_of_kindOf {g : Grammar} {c : Char} {k : Kind} (h : g.kindOf c = some k) :
    k.name = [c] ∨ ∃ d ds, k.name = c :: d :: ds := by
  unfold kindOf at h
  split at h
  · rename_i k' hk
    cases h
    have hname := List.find?_some hk
    exact Or.inl (of_decide_eq_true hname)
  · have hk := List.find?_some h
    unfold Kind.startsLonger at hk
    split at hk
    · rename_i c' d ds hname
      have e := of_decide_eq_true hk
      subst e
      exact Or.inr ⟨d, ds, hname⟩
    · cases hk

theorem ne_ending_of_kindOf {g : Grammar} {c : Char} {k : Kind} (h : g.kindOf c = some k) :
    k ≠ Kind.ending := by
  rintro rfl
  rcases name_of_kindOf h with hname | ⟨d, ds, hname⟩
  · cases hname
  · cases hname

theorem closing?_ne_ending {g : Grammar} {use : Bracket} {k : Kind} (h : g.closing? use = some k) :
    k ≠ Kind.ending := by
  obtain ⟨p, -, hp⟩ := Option.bind_eq_some_iff.mp h
  exact ne_ending_of_kindOf hp

theorem separator?_ne_ending {g : Grammar} {k : Kind} (h : g.separator? = some k) :
    k ≠ Kind.ending := by
  obtain ⟨c, -, hc⟩ := Option.bind_eq_some_iff.mp h
  exact ne_ending_of_kindOf hc

theorem name_of_kindNamed {g : Grammar} {name : List Char} {k : Kind}
    (h : g.kindNamed name = some k) : k.name = name := by
  unfold kindNamed at h
  split at h
  · cases h
  · have hname := List.find?_some h
    exact of_decide_eq_true hname

theorem mem_kinds_of_kindNamed {g : Grammar} {name : List Char} {k : Kind}
    (h : g.kindNamed name = some k) : k ∈ g.kinds := by
  unfold kindNamed at h
  split at h
  · cases h
  · exact List.mem_of_find?_eq_some h

end Grammar

theorem Rules.compound_eq_none {mode : Mode} {g : Grammar} {c d : Char}
    (h : ∀ k ∈ g.kinds, k.name ≠ [c, d]) : mode.compound g c d = none := by
  refine Option.eq_none_iff_forall_ne_some.mpr fun k hk => ?_
  have hnamed := compound_named hk
  exact h k (Grammar.mem_kinds_of_kindNamed hnamed) (Grammar.name_of_kindNamed hnamed)

namespace Lexer

/-- what a pull gives is the ending token, a word, or a symbol; a symbol has a name, and a name of
one character is its whole lexeme -/
theorem next_ok {l : Lexer} (h₀ : l.cursor ≤ l.source.length) {t : Token} {l' : Lexer}
    (h : l.next = (.ok t, l')) :
    (l.startOfNext = l.source.length ∧ t = endingAt l.source.length ∧
      l' = { l with cursor := l.source.length }) ∨
    (t.kind = l.rules.nameKind ∧ t.lexeme ≠ []) ∨
    (t.kind.name ≠ [] ∧ t.lexeme ≠ [] ∧ ∀ c, t.kind.name = [c] → t.lexeme = [c]) := by
  rcases l.next_cases h₀ with ⟨hs, e⟩ | ⟨c, cs, stop, -, -, -, e⟩
  · left
    rw [e] at h
    cases h
    exact ⟨hs, rfl, rfl⟩
  · right
    rw [e] at h
    obtain ⟨hp, -⟩ := Prod.mk.inj h
    unfold placed at hp
    split at hp
    · rename_i k lexeme hscan
      cases hp
      rcases Rules.scan_ok hscan with hword | ⟨hl, hk⟩ | ⟨d, hl, hk⟩
      · exact Or.inl hword
      · right
        show k.name ≠ [] ∧ lexeme ≠ [] ∧ _
        subst hl
        rcases Grammar.name_of_kindOf hk with hn | ⟨d, ds, hn⟩
        · rw [hn]
          refine ⟨List.cons_ne_nil _ _, List.cons_ne_nil _ _, fun c' hc' => hc'⟩
        · rw [hn]
          refine ⟨List.cons_ne_nil _ _, List.cons_ne_nil _ _, fun c' hc' => by cases hc'⟩
      · right
        show k.name ≠ [] ∧ lexeme ≠ [] ∧ _
        subst hl
        rw [Grammar.name_of_kindNamed hk]
        exact ⟨List.cons_ne_nil _ _, List.cons_ne_nil _ _, fun c' hc' => hc'⟩
    · cases hp

theorem mem_pull {l : Lexer} {n : Nat} {r : Except Error Token} (h : r ∈ (l.pull n).1) :
    ∃ k, r = (l.after k).next.1 := by
  induction n generalizing l with
  | zero => cases h
  | succ n ih =>
    rcases List.mem_cons.mp h with rfl | h
    · exact ⟨0, rfl⟩
    · obtain ⟨k, hk⟩ := ih h
      exact ⟨k + 1, hk⟩

theorem lexeme_of_name {l : Lexer} (h₀ : l.cursor ≤ l.source.length) {n : Nat} {t : Token}
    {c : Char} (h : .ok t ∈ (l.pull n).1) (hw : t.kind ≠ l.rules.nameKind)
    (hn : t.kind.name = [c]) :
    t.lexeme = [c] := by
  obtain ⟨k, hk⟩ := mem_pull h
  have hcur : (l.after k).cursor ≤ (l.after k).source.length := by
    rw [after_source]
    exact l.after_cursor_le h₀ k
  rcases next_ok hcur (show (l.after k).next = (.ok t, (l.after k).next.2) by rw [hk]) with
    ⟨-, rfl, -⟩ | ⟨hword, -⟩ | ⟨-, -, hlex⟩
  · cases hn
  · rw [after_rules] at hword
    exact absurd hword hw
  · exact hlex c hn

/-! ## up to the end -/

/-- pulling gives these tokens and then the end, without an error -/
def Lexes (l : Lexer) (ts : List Token) : Prop :=
  ∃ t : Token, t.isEnding = true ∧ l.toEnd = ts.map Except.ok ++ [Except.ok t]

theorem next_at_start {l : Lexer} (h₀ : l.cursor = 0) {c : Char} {cs slice rest lexeme : List Char}
    {k : Kind} (hsrc : l.source = c :: cs) (hcs : c :: cs = slice ++ rest)
    (hw : l.rules.grammar.isWhitespace c = false)
    (hscan : l.rules.scan c cs = ⟨.ok (k, lexeme), rest⟩) :
    l.next = (.ok ⟨k, lexeme, 0⟩, { l with cursor := slice.length }) := by
  have hrest : l.rest = c :: cs := by
    rw [Lexer.rest, h₀, hsrc]
    rfl
  have hblanks : l.blanks = [] := by
    rw [blanks, hrest, List.takeWhile_cons, hw]
    rfl
  have hstart : l.startOfNext = 0 := by
    rw [startOfNext, h₀, hblanks]
    rfl
  have hlen : (c :: cs).length - rest.length = slice.length := by
    rw [hcs, List.length_append, Nat.add_sub_cancel]
  unfold next
  rw [hrest, List.dropWhile_cons, hw, hstart]
  simp only [Bool.false_eq_true, if_false, hscan, hlen, Nat.zero_add]
  rfl

theorem lexes_singleton {l : Lexer} (h₀ : l.cursor = 0) {c : Char} {cs lexeme : List Char}
    {k : Kind} (hsrc : l.source = c :: cs) (hw : l.rules.grammar.isWhitespace c = false)
    (hscan : l.rules.scan c cs = ⟨.ok (k, lexeme), []⟩) (hk : k ≠ Kind.ending) :
    l.Lexes [⟨k, lexeme, 0⟩] := by
  have hrest : l.rest = c :: cs := by
    rw [rest, h₀, hsrc]
    rfl
  have hfirst : l.next = (.ok ⟨k, lexeme, 0⟩, { l with cursor := l.source.length }) := by
    have hwhole : c :: cs = l.source ++ [] := by rw [List.append_nil, hsrc]
    exact next_at_start h₀ hsrc hwhole hw hscan
  have hsecond : ({ l with cursor := l.source.length } : Lexer).next
      = (.ok (endingAt l.source.length), { l with cursor := l.source.length }) := by
    rcases next_cases { l with cursor := l.source.length } (Nat.le_refl _) with
      ⟨-, e⟩ | ⟨-, -, stop, -, hlt, hle, -⟩
    · exact e
    · have hge : l.source.length ≤ ({ l with cursor := l.source.length } : Lexer).startOfNext :=
        Nat.le_add_right _ _
      exact absurd (Nat.lt_of_lt_of_le hlt hle) (Nat.not_lt.mpr hge)
  refine ⟨endingAt l.source.length, rfl, ?_⟩
  have hne : isEnding (.ok ⟨k, lexeme, 0⟩) = false := decide_eq_false hk
  unfold toEnd
  rw [hrest, List.length_cons, pullToEnd, hfirst]
  simp only [hne, Bool.false_eq_true, if_false, pullToEnd, hsecond]
  rfl

theorem pullToEnd_spec {t : Token} (n : Nat) (l : Lexer) (ts : List Token)
    (h : l.pullToEnd n = ts.map Except.ok ++ [Except.ok t]) :
    ts.length < n ∧ (∀ u ∈ ts, u.isEnding = false) ∧
      (l.pull (ts.length + 1)).1 = ts.map Except.ok ++ [Except.ok t] := by
  induction n generalizing l ts with
  | zero =>
    cases ts with
    | nil => cases h
    | cons u us => cases h
  | succ n ih =>
    cases ts with
    | nil =>
      obtain ⟨hfirst, -⟩ := List.cons.inj h
      refine ⟨Nat.succ_pos n, fun u hu => (by cases hu), ?_⟩
      show [l.next.1] = [Except.ok t]
      rw [hfirst]
    | cons u us =>
      obtain ⟨hfirst, hrest⟩ := List.cons.inj h
      change l.next.1 = .ok u at hfirst
      rw [hfirst] at hrest
      cases hu : u.isEnding with
      | true =>
        rw [show isEnding (.ok u) = true from hu, if_pos rfl] at hrest
        cases us with
        | nil => cases hrest
        | cons v vs => cases hrest
      | false =>
        rw [show isEnding (.ok u) = false from hu, if_neg Bool.false_ne_true] at hrest
        obtain ⟨hlen, hall, hpull⟩ := ih l.next.2 us hrest
        refine ⟨Nat.succ_lt_succ hlen, List.forall_mem_cons.mpr ⟨hu, hall⟩, ?_⟩
        show l.next.1 :: (l.next.2.pull (us.length + 1)).1 = _
        rw [hfirst, hpull]
        rfl

end Lexer

namespace Stream

/-- the tokens of a fresh stream are the results of pulling its lexer -/
theorem popMany_ofLexer (l : Lexer) (n : Nat) (ts : List Token) (s : Stream) :
    (ofLexer l).popMany n = .done ts s ↔
      (l.pull n).1 = ts.map Except.ok ∧ s = ofLexer (l.after n) := by
  induction n generalizing l ts s with
  | zero =>
    constructor
    · intro h
      cases h
      exact ⟨rfl, rfl⟩
    · rintro ⟨h, rfl⟩
      rw [List.map_eq_nil_iff.mp h.symm]
      rfl
  | succ n ih =>
    have hpull : (l.pull (n + 1)).1 = l.next.1 :: (l.next.2.pull n).1 := rfl
    rw [popMany, hpull, Lexer.after_succ']
    cases hnext : l.next with
    | mk r l' =>
      cases r with
      | error e =>
        have hpop : (ofLexer l).pop = .failed e ⟨[], l'⟩ := by
          unfold pop ofLexer
          rw [hnext]
        rw [hpop, Outcome.bind_failed]
        constructor
        · intro h
          cases h
        · rintro ⟨h, -⟩
          cases ts with
          | nil => cases h
          | cons u us => cases (List.cons.inj h).1
      | ok t =>
        have hpop : (ofLexer l).pop = .done t (ofLexer l') := by
          unfold pop ofLexer
          rw [hnext]
        rw [hpop, Outcome.bind_done]
        constructor
        · intro h
          obtain ⟨us, s', hus, h⟩ := Outcome.bind_eq_done.mp h
          cases h
          obtain ⟨hp, hs⟩ := (ih l' us s).mp hus
          exact ⟨by rw [hp]; rfl, hs⟩
        · rintro ⟨h, hs⟩
          cases ts with
          | nil => cases h
          | cons u us =>
            obtain ⟨hu, hus⟩ := List.cons.inj h
            cases hu
            rw [(ih l' us s).mpr ⟨hus, hs⟩, Outcome.bind_done]

theorem peek_ofLexer {l : Lexer} {t : Token} {s : Stream} (h : (ofLexer l).peek = .done t s) :
    l.next.1 = .ok t ∧ s = ⟨[t], l.next.2⟩ := by
  unfold peek ofLexer at h
  split at h
  · rename_i hw
    cases hw
  · split at h
    · rename_i t' l' hnext
      cases h
      rw [hnext]
      exact ⟨rfl, rfl⟩
    · cases h

theorem holds_ofLexer {l : Lexer} {ts : List Token} (h : (l.pull ts.length).1 = ts.map Except.ok) :
    (ofLexer l).Holds ts :=
  ⟨_, (popMany_ofLexer l ts.length ts _).mpr ⟨h, rfl⟩⟩

end Stream
end Calculator
