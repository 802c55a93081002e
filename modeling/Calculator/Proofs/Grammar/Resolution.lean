import Calculator.Proofs.Climb.Leaves
import Calculator.Proofs.Grammar.Registry
import Calculator.Proofs.Token.Runs

/-!
# The kind of a symbol

A symbol of one character has the first kind that was registered under just this name; where there
is none, the first kind with a longer name that starts with it.  One pass over the kinds tells:
it ends at an exact name, and carries the first longer one along in case there is none.

So of the order of registrations only two parts count for a character: how the kinds of just this
name follow each other, and how the longer ones do.  And a lexer never gives a punctuator alone a
longer kind while one of its own name is there.

* `Kind.First p ks k`         `k` is the first kind of a row with a property;
* `Kind.Resolves ks c k`      `k` is the kind of the symbol `c` by a row of kinds;
* `Kind.resolve`              one pass over the row, and `Kind.resolve_eq_some_iff` what it finds;
* `Kind.resolve_eraseDups`    a kind that is registered again does not count;
* `Kind.SameOrder c`          rows that differ only where `c` does not look;
* `Rules.kind_of_alone`       the kind of a lexeme of one character;
* `symbol_resolution`         **all of it, for every grammar that registrations lead to.**
-/

namespace Calculator

namespace Kind

/-! ## the first kind of a row -/

/-- a name of two characters at least, `c` the first of them -/
def Longer (c : Char) (k : Kind) : Prop := ∃ d ds, k.name = c :: d :: ds

/-- `k` is the first kind of the row with the property -/
def First (p : Kind → Prop) (ks : List Kind) (k : Kind) : Prop :=
  ∃ before behind, ks = before ++ k :: behind ∧ p k ∧ ∀ j ∈ before, ¬ p j

/-- the kind of a symbol by the kinds of a row -/
inductive Resolves (ks : List Kind) (c : Char) (k : Kind) : Prop where
  | exactly : First (·.name = [c]) ks k → Resolves ks c k
  | longer : (∀ j ∈ ks, j.name ≠ [c]) → First (Longer c) ks k → Resolves ks c k

theorem isExactly_iff (k : Kind) (c : Char) : k.isExactly c = true ↔ k.name = [c] :=
  decide_eq_true_iff

theorem startsLonger_iff (k : Kind) (c : Char) : k.startsLonger c = true ↔ k.Longer c := by
  unfold startsLonger Longer
  split
  · rename_i d e ds hname
    simp [hname]
  · rename_i hname
    simp only [Bool.false_eq_true, false_iff]
    rintro ⟨d, ds, h⟩
    exact hname c d ds h

instance (k : Kind) (c : Char) : Decidable (k.Longer c) := decidable_of_iff _ (startsLonger_iff k c)

theorem find?_eq_some_iff_first {p : Kind → Bool} {P : Kind → Prop} (hp : ∀ k, p k = true ↔ P k)
    {ks : List Kind} {k : Kind} : ks.find? p = some k ↔ First P ks k := by
  rw [List.find?_eq_some_iff_append, hp]
  constructor
  · rintro ⟨hk, before, behind, hks, hbefore⟩
    refine ⟨before, behind, hks, hk, fun j hj hP => ?_⟩
    have hnot := hbefore j hj
    rw [(hp j).mpr hP] at hnot
    cases hnot
  · rintro ⟨before, behind, hks, hk, hbefore⟩
    refine ⟨hk, before, behind, hks, fun j hj => ?_⟩
    rw [Bool.not_eq_true', Bool.eq_false_iff]
    exact fun h => hbefore j hj ((hp j).mp h)

/-! ## one pass -/

/-- the kind of a symbol in one pass, which ends at an exact name; the candidate is the first longer
kind that was passed -/
def resolve (c : Char) (candidate : Option Kind) : List Kind → Option Kind
  | [] => candidate
  | k :: ks =>
    if k.isExactly c then some k
    else resolve c (candidate.or (if k.startsLonger c then some k else none)) ks

/-- an exact name wins wherever it stands, and a candidate keeps its place before later ones -/
theorem resolve_eq (c : Char) (candidate : Option Kind) (ks : List Kind) :
    resolve c candidate ks =
      (ks.find? (·.isExactly c)).or (candidate.or (ks.find? (·.startsLonger c))) := by
  induction ks generalizing candidate with
  | nil =>
    rw [resolve, List.find?_nil, List.find?_nil, Option.none_or, Option.or_none]
  | cons k ks ih =>
    rw [resolve, List.find?_cons, List.find?_cons]
    cases hexact : k.isExactly c with
    | true => rfl
    | false =>
      rw [if_neg Bool.false_ne_true, ih, Option.or_assoc]
      cases k.startsLonger c <;> rfl

theorem resolve_eq_some_iff {c : Char} {ks : List Kind} {k : Kind} :
    resolve c none ks = some k ↔ Resolves ks c k := by
  rw [resolve_eq, Option.none_or, Option.or_eq_some_iff,
    find?_eq_some_iff_first (isExactly_iff · c), find?_eq_some_iff_first (startsLonger_iff · c),
    List.find?_eq_none]
  constructor
  · rintro (h | ⟨hnone, h⟩)
    · exact .exactly h
    · exact .longer (fun j hj hname => hnone j hj ((isExactly_iff j c).mpr hname)) h
  · intro h
    cases h with
    | exactly h => exact .inl h
    | longer hnone h => exact .inr ⟨fun j hj he => hnone j hj ((isExactly_iff j c).mp he), h⟩

theorem resolve_eq_none_iff {c : Char} {ks : List Kind} :
    resolve c none ks = none ↔ ∀ k ∈ ks, k.name.head? ≠ some c := by
  have hname (k : Kind) : k.name.head? = some c ↔ k.name = [c] ∨ k.Longer c := by
    unfold Longer
    cases k.name with
    | nil => simp
    | cons d ds => cases ds <;> simp
  rw [resolve_eq, Option.none_or, Option.or_eq_none_iff, List.find?_eq_none, List.find?_eq_none]
  constructor
  · rintro ⟨hexact, hlonger⟩ k hk hhead
    rcases (hname k).mp hhead with h | h
    · exact hexact k hk ((isExactly_iff k c).mpr h)
    · exact hlonger k hk ((startsLonger_iff k c).mpr h)
  · intro h
    refine ⟨fun k hk he => h k hk ?_, fun k hk hl => h k hk ?_⟩
    · exact (hname k).mpr (.inl ((isExactly_iff k c).mp he))
    · exact (hname k).mpr (.inr ((startsLonger_iff k c).mp hl))

/-! ## rows that give the same -/

theorem find?_eraseDups (p : Kind → Bool) : ∀ ks : List Kind, ks.eraseDups.find? p = ks.find? p
  | [] => rfl
  | k :: ks => by
    rw [List.eraseDups_cons, List.find?_cons, List.find?_cons]
    cases hk : p k with
    | true => rfl
    | false =>
      -- what is erased is equal to `k`, which is not looked for
      have hsame : (fun j => decide ((!j == k) = true ∧ p j = true)) = p := by
        funext j
        by_cases hj : j = k
        · subst hj
          simp [hk]
        · simp [hj]
      show (ks.filter fun j => !j == k).eraseDups.find? p = ks.find? p
      rw [find?_eraseDups p, List.find?_filter, hsame]
termination_by ks => ks.length
decreasing_by
  have := List.length_filter_le (fun j => !j == k) ks
  simp only [List.length_cons]
  omega

theorem resolve_eraseDups (c : Char) (ks : List Kind) :
    resolve c none ks.eraseDups = resolve c none ks := by
  rw [resolve_eq, resolve_eq, find?_eraseDups, find?_eraseDups]

/-- rows with the same kinds of just this name, in the same order, and the same longer kinds that
start with it, in the same order -/
structure SameOrder (c : Char) (ks js : List Kind) : Prop where
  exactly : ks.filter (·.isExactly c) = js.filter (·.isExactly c)
  longer : ks.filter (·.startsLonger c) = js.filter (·.startsLonger c)

theorem SameOrder.resolve_eq {c : Char} {ks js : List Kind} (h : SameOrder c ks js) :
    resolve c none js = resolve c none ks := by
  rw [Kind.resolve_eq, Kind.resolve_eq, ← List.head?_filter, ← List.head?_filter,
    ← List.head?_filter, ← List.head?_filter, h.exactly, h.longer]

end Kind

/-- two searches and one pass find the same -/
theorem Grammar.kindOf_eq_resolve (g : Grammar) (c : Char) :
    g.kindOf c = Kind.resolve c none g.kinds := by
  rw [Kind.resolve_eq, Option.none_or]
  unfold kindOf
  cases g.kinds.find? (·.isExactly c) <;> rfl

theorem Grammar.name_of_kindOf_exact {g : Grammar} {c : Char} {j k : Kind} (hj : j ∈ g.kinds)
    (hname : j.name = [c]) (h : g.kindOf c = some k) : k.name = [c] := by
  rw [kindOf_eq_resolve, Kind.resolve_eq_some_iff] at h
  cases h with
  | exactly h =>
    obtain ⟨-, -, -, hk, -⟩ := h
    exact hk
  | longer hnone => exact absurd hname (hnone j hj)

/-! ## characters of words -/

theorem Text.word_of_isUpperDigit {c : Char} (h : isUpperDigit c = true) :
    isAlphabetic c = true ∨ isNumeric c = true := by
  have hall : upperDigits.all (fun d => isAlphabetic d || isNumeric d) = true := by decide +kernel
  exact Bool.or_eq_true_iff.mp (of_all_upperDigits hall h)

theorem Text.word_toUpper {c : Char} (h : isAlphabetic c = true ∨ isNumeric c = true) :
    isAlphabetic c.toUpper = true ∨ isNumeric c.toUpper = true := by
  by_cases hlower : 'a' ≤ c ∧ c ≤ 'z'
  · have hall : (charRange 'a' 'z').all (fun d => isAlphabetic d.toUpper) = true := by
      decide +kernel
    exact .inl (List.all_eq_true.mp hall c (mem_charRange hlower.1 hlower.2))
  · have hsame : c.toUpper = c := dif_neg hlower
    rw [hsame]
    exact h

/-! ## lexemes of one character -/

namespace Rules

variable {ρ : Rules}

theorem kind_of_alone {nonDecimal : Bool} (hρ : ρ.grammar.Registry nonDecimal) {first c : Char}
    {cs : List Char} {k : Kind} (h : (ρ.scan first cs).result = .ok (k, [c])) :
    (ρ.grammar.isPunctuator c = true ∧ ρ.grammar.kindOf c = some k) ∨
      (ρ.grammar.isPunctuator c = false ∧ k = ρ.nameKind) := by
  have hclass := ρ.class_of_reading first
  cases hr : ρ.reading first with
  | symbol =>
    rw [hr] at hclass
    rw [scan_eq_reading, hr] at h
    rcases symbol_ok h with ⟨he, hk⟩ | ⟨d, he, -⟩
    · obtain ⟨rfl, -⟩ := List.cons.inj he
      exact .inl ⟨hclass, hk⟩
    · cases he
  | name =>
    rw [hr] at hclass
    obtain ⟨hk, tail, he⟩ := name_of_reading hr h
    obtain ⟨rfl, -⟩ := List.cons.inj he
    exact .inr ⟨hρ.not_punctuator (.inl (hρ.letters c hclass)), hk⟩
  | numeral =>
    rw [hr] at hclass
    obtain ⟨hk, rest, hnumeral⟩ := numeral_of_reading hr h
    obtain ⟨d, tail, he, hd⟩ := numeral_head hnumeral
    obtain ⟨rfl, -⟩ := List.cons.inj he
    refine .inr ⟨hρ.not_punctuator ?_, hk⟩
    rcases hd with rfl | ⟨v, hv, rfl⟩
    · exact Text.word_toUpper (hρ.digit_word hclass.1)
    · have hdigit := isUpperDigit_digitChar (Nat.lt_of_lt_of_le hv ρ.radix.le_max)
      exact Text.word_of_isUpperDigit hdigit
  | unknown =>
    rw [scan_eq_reading, hr] at h
    cases h

theorem symbol_named {c : Char} {j : Kind} (hj : j ∈ ρ.grammar.kinds) (hname : j.name = [c])
    (cs : List Char) : ∃ k, (ρ.symbol c cs).result = .ok (k, k.name) := by
  have single (ds : List Char) : ∃ k, (ρ.single c ds).result = .ok (k, k.name) := by
    cases hk : ρ.grammar.kindOf c with
    | none =>
      rw [ρ.grammar.kindOf_eq_resolve, Kind.resolve_eq_none_iff] at hk
      exact absurd (by rw [hname]; rfl) (hk j hj)
    | some k =>
      refine ⟨k, ?_⟩
      rw [Grammar.name_of_kindOf_exact hj hname hk]
      unfold Rules.single
      rw [hk]
  cases cs with
  | nil => exact single []
  | cons d ds =>
    cases hk : ρ.mode.compound ρ.grammar c d with
    | none =>
      simp only [symbol, hk]
      exact single (d :: ds)
    | some k =>
      refine ⟨k, ?_⟩
      simp only [symbol, hk]
      rw [Grammar.name_of_kindNamed (compound_named hk)]

end Rules

theorem Lexer.scan_of_pull {l : Lexer} {n : Nat} {t : Token} (h : .ok t ∈ (l.pull n).1)
    (hne : t.lexeme ≠ []) : ∃ c cs, (l.rules.scan c cs).result = .ok (t.kind, t.lexeme) := by
  obtain ⟨k, hk⟩ := mem_pull h
  cases htext : (l.after k).rest.dropWhile (l.after k).rules.grammar.isWhitespace with
  | nil =>
    have hcontent := (next_of_blank htext).1
    rw [← hk] at hcontent
    exact absurd (Prod.mk.inj (Except.ok.inj hcontent)).2 hne
  | cons c cs =>
    have hcontent := (next_of_scan htext).1
    rw [← hk, after_rules] at hcontent
    exact ⟨c, cs, hcontent.symm⟩

theorem Lexer.kind_of_alone {l : Lexer} {nonDecimal : Bool}
    (hl : l.rules.grammar.Registry nonDecimal) {n : Nat} {t : Token} {c : Char}
    (h : .ok t ∈ (l.pull n).1) (hlexeme : t.lexeme = [c]) :
    (l.rules.grammar.isPunctuator c = true ∧ l.rules.grammar.kindOf c = some t.kind) ∨
      (l.rules.grammar.isPunctuator c = false ∧ t.kind = l.rules.nameKind) := by
  have hne : t.lexeme ≠ [] := by
    rw [hlexeme]
    exact List.cons_ne_nil c []
  obtain ⟨first, cs, hscan⟩ := scan_of_pull h hne
  rw [hlexeme] at hscan
  exact Rules.kind_of_alone hl hscan

/-- where a kind is named by a punctuator alone, a pull at it gives a symbol named as it is
written -/
theorem Lexer.next_named {l : Lexer} {c : Char} {cs : List Char} {j : Kind}
    (htext : l.rest.dropWhile l.rules.grammar.isWhitespace = c :: cs)
    (hc : l.rules.grammar.isPunctuator c = true) (hj : j ∈ l.rules.grammar.kinds)
    (hname : j.name = [c]) : ∃ t, l.next.1 = .ok t ∧ t.lexeme = t.kind.name := by
  obtain ⟨k, hk⟩ := Rules.symbol_named hj hname cs
  have hscan : l.rules.scan c cs = l.rules.symbol c cs := if_pos hc
  have hcontent : content l.next.1 = .ok (k, k.name) := by rw [(next_of_scan htext).1, hscan, hk]
  obtain ⟨t, ht, hkey⟩ := exists_token_of_content hcontent
  obtain ⟨hkind, hlexeme⟩ := Prod.mk.inj hkey
  exact ⟨t, ht, by rw [hlexeme, hkind]⟩

/-- **A symbol has the first kind of just its name, else the first longer one.**  In either mode and
whatever steps are tried, for every character: the kind of the symbol is the first registered one
that is named by the character alone; where there is none, the first one with a longer name that
starts with it; and none where no name starts with it.  It makes no difference whether repeated
registrations are counted, and one pass over the kinds finds it.  Grammars with the same kinds of
just this name and the same longer ones, both in the same order, give the symbol the same kind.  So
a punctuator that a lexer gives alone never has a longer kind while one of its own name is
registered, and then a pull at the punctuator does not fail; a character alone that is no punctuator
is a word. -/
theorem symbol_resolution (nonDecimal : Bool) (steps : List (List Registration)) (c : Char) :
    let g := ((Draft.start nonDecimal).run steps).1.grammar
    let row := ((Draft.start nonDecimal).accepted steps).filterMap Registration.kind?
    ((∀ k, g.kindOf c = some k ↔ Kind.Resolves g.kinds c k) ∧
      (∀ k, g.kindOf c = some k ↔ Kind.Resolves row c k) ∧
      (g.kindOf c = none ↔ ∀ k ∈ g.kinds, k.name.head? ≠ some c) ∧
      g.kindOf c = Kind.resolve c none g.kinds) ∧
    (∀ nonDecimal' steps',
      let g' := ((Draft.start nonDecimal').run steps').1.grammar
      Kind.SameOrder c g.kinds g'.kinds → g'.kindOf c = g.kindOf c) ∧
    ∀ l : Lexer, l.rules.grammar = g →
      (∀ n t, .ok t ∈ (l.pull n).1 → t.lexeme = [c] →
        (g.isPunctuator c = true ∧ Kind.Resolves g.kinds c t.kind ∧
          ((∃ k ∈ g.kinds, k.name = [c]) → t.kind.name = [c])) ∨
        (g.isPunctuator c = false ∧ t.kind = l.rules.nameKind)) ∧
      ∀ cs, l.rest.dropWhile g.isWhitespace = c :: cs → g.isPunctuator c = true →
        (∃ k ∈ g.kinds, k.name = [c]) → ∃ t, l.next.1 = .ok t ∧ t.lexeme = t.kind.name := by
  intro g row
  obtain ⟨hrecords, hregistry⟩ := Draft.run_records nonDecimal steps
  have hkinds : g.kinds = row.eraseDups := hrecords.kinds
  have hresolve : g.kindOf c = Kind.resolve c none g.kinds := g.kindOf_eq_resolve c
  have hrow : g.kindOf c = Kind.resolve c none row := by
    rw [hresolve, hkinds, Kind.resolve_eraseDups]
  have hiff (k : Kind) : g.kindOf c = some k ↔ Kind.Resolves g.kinds c k := by
    rw [hresolve, Kind.resolve_eq_some_iff]
  refine ⟨⟨hiff, ?_, ?_, hresolve⟩, ?_, ?_⟩
  · intro k
    rw [hrow, Kind.resolve_eq_some_iff]
  · rw [hresolve, Kind.resolve_eq_none_iff]
  · intro nonDecimal' steps' g' hsame
    rw [g'.kindOf_eq_resolve, hresolve, hsame.resolve_eq]
  · intro l hl
    have hrules : l.rules.grammar.Registry nonDecimal := by
      rw [hl]
      exact hregistry
    refine ⟨fun n t ht hlexeme => ?_, fun cs htext hpunctuator ⟨j, hj, hname⟩ => ?_⟩
    · have hkind := Lexer.kind_of_alone hrules ht hlexeme
      rw [hl] at hkind
      rcases hkind with ⟨hp, hk⟩ | hword
      · exact .inl ⟨hp, (hiff t.kind).mp hk, fun ⟨j, hj, hname⟩ =>
          Grammar.name_of_kindOf_exact hj hname hk⟩
      · exact .inr hword
    · rw [← hl] at htext hpunctuator hj
      exact Lexer.next_named htext hpunctuator hj hname

/-- the arrow before the minus, the minus under two levels, shifts, and a step in vain that would
have given the smaller sign a kind -/
def arrowSteps : List (List Registration) :=
  [[.whitespace ' '], [.punctuator '-', .punctuator '>', .punctuator '<'], [.letter 'a'],
    [.kind ⟨['-', '>'], .infix4⟩], [.kind ⟨['<', '<'], .caretLowest⟩],
    [.kind ⟨['<'], .infix1⟩, .letter '1'], [.kind ⟨['-'], .infix3⟩, .kind ⟨['-'], .prefix1⟩],
    [.kind ⟨['<', '-'], .infix2⟩], [.kind Kind.word], [.nameKind Kind.word]]

/-- the same kinds with the minus first and the arrow last -/
def arrowSteps' : List (List Registration) :=
  [[.whitespace ' '], [.punctuator '-', .punctuator '>', .punctuator '<'], [.letter 'a'],
    [.kind ⟨['-'], .infix3⟩], [.kind Kind.word], [.nameKind Kind.word],
    [.kind ⟨['<', '<'], .caretLowest⟩], [.kind ⟨['<', '-'], .infix2⟩, .kind ⟨['-'], .prefix1⟩],
    [.kind ⟨['-', '>'], .infix4⟩]]

theorem arrowSteps_resolved :
    let g := ((Draft.start false).run arrowSteps).1.grammar
    let g' := ((Draft.start false).run arrowSteps').1.grammar
    let l : Lexer := ⟨⟨g, .scientific, Kind.word, Radix.ten⟩, ['-', '>', '-'], 0⟩
    g.kindOf '<' = some ⟨['<', '<'], .caretLowest⟩ ∧ Kind.SameOrder '-' g.kinds g'.kinds ∧
    g'.kindOf '-' = g.kindOf '-' ∧
    .ok ⟨⟨['-'], .infix3⟩, ['-'], 2⟩ ∈ (l.pull 2).1 ∧
    Kind.Resolves g.kinds '-' ⟨['-'], .infix3⟩ := by
  intro g g' l
  have hsame : Kind.SameOrder '-' g.kinds g'.kinds := ⟨by decide +kernel, by decide +kernel⟩
  have hpull : .ok ⟨⟨['-'], .infix3⟩, ['-'], 2⟩ ∈ (l.pull 2).1 := by decide +kernel
  have h := symbol_resolution false arrowSteps '-'
  refine ⟨by decide +kernel, hsame, h.2.1 false arrowSteps' hsame, hpull, ?_⟩
  rcases (h.2.2 l rfl).1 2 _ hpull rfl with ⟨-, hresolves, -⟩ | ⟨hp, -⟩
  · exact hresolves
  · exact absurd hp (by decide +kernel)

end Calculator
