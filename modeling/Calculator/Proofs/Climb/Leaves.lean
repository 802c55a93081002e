import Calculator.Proofs.Climb.Exact
import Calculator.Proofs.Numeral.Lexeme
import Calculator.Proofs.Token.Tiles

/-!
# Names and numbers among the leaves

Names and numerals have one kind, and a parse tells them apart by the first character of the lexeme:
a digit that is no letter makes a number.  A name keeps its slice, which starts with a letter.  The
lexeme of a numeral with a suffix is written in the lexer's own radix, and starts with any digit of
that radix; in scientific mode the digits above nine are letters.

* `Grammar.LeafKind`              a kind whose tokens can be leaves and nothing else;
* `Expr.IsNumber`, `Expr.IsName`  what a token is in a tree;
* `Expr.leaf_of_spelled`          a token of a leaf kind is one of the two;
* `Rules.numeral_head`            how the lexeme of a numeral can start;
* `leaf_iff_reading`              names are names, and numerals are numbers but for one exception.
-/

set_option linter.unusedSectionVars false

namespace Calculator

/-! ## leaves of a tree -/

/-- a kind whose tokens can be leaves and nothing else -/
structure Grammar.LeafKind (g : Grammar) (k : Kind) : Prop where
  leaf : g.prefixRole? k = some .leaf
  noInfix : g.infixRole? k = none
  noClosing : ∀ use, g.closing? use ≠ some k
  noSeparator : g.separator? ≠ some k

namespace Expr

/-- the token is a number in the tree, and not a name -/
def IsNumber (e : Expr) (t : Token) : Prop :=
  (∃ v, number t v ∈ e.preorder) ∧ name t ∉ e.preorder

/-- the token is a name in the tree, and not a number -/
def IsName (e : Expr) (t : Token) : Prop :=
  name t ∈ e.preorder ∧ ∀ v, number t v ∉ e.preorder

section
variable {σ : Setting}

mutual

theorem built_of_mem_preorder (e : Expr) (hb : e.Built σ) : ∀ x ∈ e.preorder, x.Built σ := by
  intro x hx
  cases e with
  | name t =>
    rw [List.mem_singleton.mp hx]
    exact hb
  | number t v =>
    rw [List.mem_singleton.mp hx]
    exact hb
  | prefixed t y =>
    rcases List.mem_cons.mp hx with rfl | hx
    · exact hb
    · exact built_of_mem_preorder y hb.2 x hx
  | binary t l r =>
    rcases List.mem_cons.mp hx with rfl | hx
    · exact hb
    · rcases List.mem_append.mp hx with hx | hx
      · exact built_of_mem_preorder l hb.2.1 x hx
      · exact built_of_mem_preorder r hb.2.2 x hx
  | suffixed t y =>
    rcases List.mem_cons.mp hx with rfl | hx
    · exact hb
    · exact built_of_mem_preorder y hb.2 x hx
  | group t y =>
    rcases List.mem_cons.mp hx with rfl | hx
    · exact hb
    · exact built_of_mem_preorder y hb.2.2 x hx
  | call f t ys =>
    rcases List.mem_cons.mp hx with rfl | hx
    · exact hb
    · rcases List.mem_append.mp hx with hx | hx
      · exact built_of_mem_preorder f hb.2.2.1 x hx
      · exact built_of_mem_preorders ys hb.2.2.2 x hx
  | array t ys =>
    rcases List.mem_cons.mp hx with rfl | hx
    · exact hb
    · exact built_of_mem_preorders ys hb.2.2 x hx

theorem built_of_mem_preorders (xs : List Expr) (hb : BuiltItems σ xs) :
    ∀ x ∈ preorders xs, x.Built σ := by
  intro x hx
  cases xs with
  | nil => cases hx
  | cons y ys =>
    rcases List.mem_append.mp hx with hx | hx
    · exact built_of_mem_preorder y hb.2.1 x hx
    · exact built_of_mem_preorders ys hb.2.2 x hx

end

/-- a leaf with this token is among the nodes -/
def LeafIn (t : Token) (nodes : List Expr) : Prop :=
  name t ∈ nodes ∨ ∃ v, number t v ∈ nodes

theorem LeafIn.mono {t : Token} {xs ys : List Expr} (h : LeafIn t xs)
    (hsub : ∀ x ∈ xs, x ∈ ys) : LeafIn t ys := by
  rcases h with h | ⟨v, h⟩
  · exact Or.inl (hsub _ h)
  · exact Or.inr ⟨v, hsub _ h⟩

variable {k : Kind} (hk : σ.grammar.LeafKind k)
include hk

theorem not_inner {t : Token} (ht : t.kind = k) :
    (∀ role, role ≠ .leaf → σ.grammar.prefixRole? t.kind ≠ some role) ∧
      ∀ role, σ.grammar.infixRole? t.kind ≠ some role := by
  rw [ht, hk.leaf, hk.noInfix]
  exact ⟨fun role hrole h => hrole (Option.some.inj h).symm, fun role h => by cases h⟩

mutual

theorem leafIn_of_spelled (e : Expr) (ts : List Token) (h : e.Spelled σ.grammar ts)
    (hb : e.Built σ) {t : Token} (ht : t ∈ ts) (htk : t.kind = k) : LeafIn t e.preorder := by
  obtain ⟨hbefore, hbehind⟩ := not_inner hk htk
  cases e with
  | name u =>
    rw [show ts = [u] from h] at ht
    rw [List.mem_singleton.mp ht]
    exact Or.inl List.mem_cons_self
  | number u v =>
    rw [show ts = [u] from h] at ht
    rw [List.mem_singleton.mp ht]
    exact Or.inr ⟨v, List.mem_cons_self⟩
  | prefixed u x =>
    obtain ⟨us, hx, rfl⟩ := h
    rcases List.mem_cons.mp ht with rfl | ht
    · exact absurd hb.1 (hbefore _ (by decide))
    · exact (leafIn_of_spelled x us hx hb.2 ht htk).mono fun y hy => List.mem_cons_of_mem _ hy
  | binary u l r =>
    obtain ⟨us, vs, hl, hr, rfl⟩ := h
    rcases List.mem_append.mp ht with ht | ht
    · exact (leafIn_of_spelled l us hl hb.2.1 ht htk).mono fun y hy =>
        List.mem_cons_of_mem _ (List.mem_append_left _ hy)
    · rcases List.mem_cons.mp ht with rfl | ht
      · rcases hb.1 with hrole | hrole
        · exact absurd hrole (hbehind _)
        · exact absurd hrole (hbehind _)
      · exact (leafIn_of_spelled r vs hr hb.2.2 ht htk).mono fun y hy =>
          List.mem_cons_of_mem _ (List.mem_append_right _ hy)
  | suffixed u x =>
    obtain ⟨us, hx, rfl⟩ := h
    rcases List.mem_append.mp ht with ht | ht
    · exact (leafIn_of_spelled x us hx hb.2 ht htk).mono fun y hy => List.mem_cons_of_mem _ hy
    · rw [List.mem_singleton.mp ht] at hbehind
      exact absurd hb.1 (hbehind _)
  | group u x =>
    obtain ⟨us, c, hx, hc, rfl⟩ := h
    rcases List.mem_cons.mp ht with rfl | ht
    · exact absurd hb.1 (hbefore _ (by decide))
    · rcases List.mem_append.mp ht with ht | ht
      · exact (leafIn_of_spelled x us hx hb.2.2 ht htk).mono fun y hy => List.mem_cons_of_mem _ hy
      · rw [← List.mem_singleton.mp ht, htk] at hc
        exact absurd hc (hk.noClosing _)
  | call x u xs =>
    obtain ⟨us, vs, c, hx, hxs, hc, rfl⟩ := h
    rcases List.mem_append.mp ht with ht | ht
    · exact (leafIn_of_spelled x us hx hb.2.2.1 ht htk).mono fun y hy =>
        List.mem_cons_of_mem _ (List.mem_append_left _ hy)
    · rcases List.mem_cons.mp ht with rfl | ht
      · exact absurd hb.1 (hbehind _)
      · rcases List.mem_append.mp ht with ht | ht
        · exact (leafIn_of_spelledItems xs vs hxs hb.2.2.2 ht htk).mono fun y hy =>
            List.mem_cons_of_mem _ (List.mem_append_right _ hy)
        · rw [← List.mem_singleton.mp ht, htk] at hc
          exact absurd hc (hk.noClosing _)
  | array u xs =>
    obtain ⟨vs, c, hxs, hc, rfl⟩ := h
    rcases List.mem_cons.mp ht with rfl | ht
    · exact absurd hb.1 (hbefore _ (by decide))
    · rcases List.mem_append.mp ht with ht | ht
      · exact (leafIn_of_spelledItems xs vs hxs hb.2.2 ht htk).mono fun y hy =>
          List.mem_cons_of_mem _ hy
      · rw [← List.mem_singleton.mp ht, htk] at hc
        exact absurd hc (hk.noClosing _)

theorem leafIn_of_spelledItems (xs : List Expr) (ts : List Token)
    (h : SpelledItems σ.grammar xs ts) (hb : BuiltItems σ xs) {t : Token} (ht : t ∈ ts)
    (htk : t.kind = k) : LeafIn t (preorders xs) := by
  cases xs with
  | nil =>
    rw [show ts = [] from h] at ht
    cases ht
  | cons x xs =>
    obtain ⟨us, vs, hx, hxs, rfl⟩ := h
    rcases List.mem_append.mp ht with ht | ht
    · exact (leafIn_of_spelled x us hx hb.2.1 ht htk).mono fun y hy => List.mem_append_left _ hy
    · exact (leafIn_of_spelledMore xs vs hxs hb.2.2 ht htk).mono fun y hy =>
        List.mem_append_right _ hy

theorem leafIn_of_spelledMore (xs : List Expr) (ts : List Token)
    (h : SpelledMore σ.grammar xs ts) (hb : BuiltItems σ xs) {t : Token} (ht : t ∈ ts)
    (htk : t.kind = k) : LeafIn t (preorders xs) := by
  cases xs with
  | nil =>
    rw [show ts = [] from h] at ht
    cases ht
  | cons x xs =>
    obtain ⟨c, us, vs, hc, hx, hxs, rfl⟩ := h
    rcases List.mem_cons.mp ht with rfl | ht
    · rw [htk] at hc
      exact absurd hc hk.noSeparator
    · rcases List.mem_append.mp ht with ht | ht
      · exact (leafIn_of_spelled x us hx hb.2.1 ht htk).mono fun y hy => List.mem_append_left _ hy
      · exact (leafIn_of_spelledMore xs vs hxs hb.2.2 ht htk).mono fun y hy =>
          List.mem_append_right _ hy

end

/-- the first character of its lexeme decides what a token of a leaf kind is -/
theorem leaf_of_spelled {e : Expr} {ts : List Token} (h : e.Spelled σ.grammar ts) (hb : e.Built σ)
    {t : Token} (ht : t ∈ ts) (htk : t.kind = k) :
    if σ.isNumber t.lexeme then e.IsNumber t else e.IsName t := by
  have hall := built_of_mem_preorder e hb
  have hname (hin : name t ∈ e.preorder) : σ.isNumber t.lexeme = false := (hall _ hin).2
  have hnumber (v : Numeral) (hin : number t v ∈ e.preorder) : σ.isNumber t.lexeme = true :=
    (hall _ hin).2.1
  split
  · rename_i hn
    rcases leafIn_of_spelled hk e ts h hb ht htk with hin | hin
    · rw [hname hin] at hn
      cases hn
    · refine ⟨hin, fun hin' => ?_⟩
      rw [hname hin'] at hn
      cases hn
  · rename_i hn
    rcases leafIn_of_spelled hk e ts h hb ht htk with hin | ⟨v, hin⟩
    · exact ⟨hin, fun v hin' => hn (hnumber v hin')⟩
    · exact absurd (hnumber v hin) hn

end

end Expr

/-! ## how lexemes start -/

theorem bump_lt {b : Nat} (ds : List Nat) (h : ∀ d ∈ ds, d < b) : ∀ d ∈ (bump b ds).2, d < b := by
  induction ds with
  | nil => exact h
  | cons d ds ih =>
    obtain ⟨hd, hds⟩ := List.forall_mem_cons.mp h
    have ih := ih hds
    unfold bump
    split
    · rename_i ds' he
      rw [he] at ih
      exact List.forall_mem_cons.mpr ⟨hd, ih⟩
    · rename_i ds' he
      rw [he] at ih
      split
      · rename_i hlt
        exact List.forall_mem_cons.mpr ⟨hlt, ih⟩
      · exact List.forall_mem_cons.mpr ⟨by omega, ih⟩

theorem Expansion.up_integer_lt {b : Nat} (hb : 2 ≤ b) {x : Expansion}
    (h : ∀ d ∈ x.integer, d < b) : ∀ d ∈ (x.up b).integer, d < b := by
  have hbump := bump_lt x.integer h
  unfold up
  split
  · exact h
  · split
    · rename_i i he
      rw [he] at hbump
      exact hbump
    · rename_i i he
      rw [he] at hbump
      exact List.forall_mem_cons.mpr ⟨hb, hbump⟩

theorem expand_integer_lt (old new : Radix) (places : Nat) (x : Expansion) :
    ∀ d ∈ (expand old new places x).integer, d < new.val := by
  have h := rebaseInteger_lt old new (x.integer.dropWhile (· == 0))
  show ∀ d ∈ (Expansion.round new.val places _).integer, d < new.val
  unfold Expansion.round
  split
  · simp only
    split
    · exact Expansion.up_integer_lt new.two_le h
    · exact h
  · exact h

theorem Expansion.write_head {b : Nat} (hb : 0 < b) {x : Expansion} (h : ∀ d ∈ x.integer, d < b) :
    ∃ d tail, d < b ∧ x.write = digitChar d :: tail := by
  unfold write
  cases hi : x.integer with
  | nil => exact ⟨0, _, hb, rfl⟩
  | cons d ds =>
    rw [hi] at h
    exact ⟨d, _, h d List.mem_cons_self, rfl⟩

namespace Rules

variable {ρ : Rules}

theorem mantissa_head {c : Char} {cs m rest : List Char} (h : ρ.mantissa c cs = (.ok m, rest)) :
    ∃ first tail, m = first :: tail ∧
      (first = c.toUpper ∨ ∃ d < ρ.radix.val, first = digitChar d) := by
  unfold mantissa at h
  simp only at h
  split at h
  · cases h
    exact ⟨c.toUpper, _, rfl, Or.inl rfl⟩
  · rename_i suffix rest' _
    obtain ⟨hm, -⟩ := Prod.mk.inj h
    obtain ⟨old, -, hm⟩ := bind_eq_ok.mp hm
    obtain ⟨x, -, hm⟩ := bind_eq_ok.mp hm
    cases hm
    have hpos : 0 < ρ.radix.val := Nat.lt_of_lt_of_le Nat.two_pos ρ.radix.two_le
    obtain ⟨d, tail, hd, hwrite⟩ := Expansion.write_head hpos
      (expand_integer_lt old ρ.radix (fractionPlaces x.fraction.length old ρ.radix) x)
    exact ⟨digitChar d, tail, hwrite, Or.inr ⟨d, hd, rfl⟩⟩

theorem numeral_head {c : Char} {cs lexeme rest : List Char}
    (h : ρ.numeral c cs = (.ok lexeme, rest)) :
    ∃ first tail, lexeme = first :: tail ∧
      (first = c.toUpper ∨ ∃ d < ρ.radix.val, first = digitChar d) := by
  unfold numeral at h
  split at h
  · cases h
  · rename_i m hm
    cases h
    exact mantissa_head hm
  · rename_i m marker behind hm
    obtain ⟨first, tail, rfl, hfirst⟩ := mantissa_head hm
    split at h
    · split at h
      · cases h
      · cases h
        exact ⟨first, _, rfl, hfirst⟩
    · cases h
      exact ⟨first, tail, rfl, hfirst⟩

end Rules

/-! ## the built-in grammars -/

/-- does a lexeme that starts with this digit become a number -/
def Mode.startsNumber (mode : Mode) (c : Char) : Bool :=
  match mode with
  | scientific => c.isDigit
  | programmer => true

namespace Mode

/-- names and numerals are leaves; the digits of a mode start numbers, and of all upper-case digits
those do that `startsNumber` tells -/
theorem language_words (mode : Mode) :
    mode.language.prefixRole? Kind.word = some .leaf ∧
      mode.language.infixRole? Kind.word = none ∧
      (mode.language.alphabet.digits.toList.all fun c => isUpperDigit c && mode.startsNumber c) ∧
      upperDigits.all fun c =>
        (mode.language.isDigit c && !mode.language.isLetter c) == mode.startsNumber c := by
  cases mode <;> decide +kernel

theorem leafKind (mode : Mode) : mode.language.LeafKind Kind.word := by
  have hstd := grammar_standard mode.grammar_eq
  refine ⟨mode.language_words.1, mode.language_words.2.1, fun use h => ?_, fun h => ?_⟩
  · obtain ⟨c, -, -, -, hk⟩ := hstd.closing_eq h
    cases hk
  · rw [hstd.separator_eq] at h
    cases h

theorem isNumber_cons (mode : Mode) (radix : Nat) {c : Char} (hc : isUpperDigit c = true)
    (cs : List Char) :
    Setting.isNumber ⟨mode.language, radix⟩ (c :: cs) = mode.startsNumber c :=
  eq_of_beq (of_all_upperDigits mode.language_words.2.2.2 hc)

end Mode

theorem upper_of_not_isDigit {c : Char} (hc : isUpperDigit c = true) (hd : c.isDigit = false) :
    'A' ≤ c ∧ c ≤ 'Z' := by
  have h : (c.isDigit || ('A' ≤ c && c ≤ 'Z')) = true :=
    of_all_upperDigits (p := fun c => c.isDigit || ('A' ≤ c && c ≤ 'Z')) (by decide) hc
  rw [hd, Bool.false_or, Bool.and_eq_true, decide_eq_true_eq, decide_eq_true_eq] at h
  exact h

theorem not_isDigit_of_upper {c : Char} (hc : isUpperDigit c = true) (h : 'A' ≤ c ∧ c ≤ 'Z') :
    c.isDigit = false := by
  have h' : (!c.isDigit || !('A' ≤ c && c ≤ 'Z')) = true :=
    of_all_upperDigits (p := fun c => !c.isDigit || !('A' ≤ c && c ≤ 'Z')) (by decide) hc
  simpa [h.1, h.2] using h'

/-! ## tokens of a parse -/

theorem Lexer.result_scan {l : Lexer} (h₀ : l.cursor ≤ l.source.length) {k : Nat} {t : Token}
    (ht : l.result k = .ok t) (hend : t.isEnding = false) :
    ∃ c cs, l.source[l.start k]? = some c ∧
      (l.rules.scan c cs).result = .ok (t.kind, t.lexeme) := by
  have hcur : (l.after k).cursor ≤ (l.after k).source.length := by
    rw [after_source]
    exact l.after_cursor_le h₀ k
  rcases (l.after k).next_cases hcur with ⟨-, hn⟩ | ⟨c, cs, stop, hdrop, -, -, hn⟩
  · unfold result at ht
    rw [hn] at ht
    cases ht
    cases hend
  · refine ⟨c, cs, ?_, ?_⟩
    · rw [after_source] at hdrop
      unfold start
      rw [← List.head?_drop, hdrop]
      rfl
    · have hcontent := congrArg content ht
      unfold result at hcontent
      rw [hn, content_placed, after_rules] at hcontent
      exact hcontent

/-- where the ending kind has no role, the tokens of a parse are the first results of the lexer,
none of them an ending token, and the next result is one -/
theorem Setting.parse_results {σ : Setting} {l : Lexer} {e : Expr} {after : Stream}
    (hkinds : Kind.ending ∉ σ.grammar.kinds) (h : σ.parse (Stream.ofLexer l) = .done e after) :
    ∃ (ts : List Token) (stop : Token),
      (l.pull (ts.length + 1)).1 = ts.map Except.ok ++ [Except.ok stop] ∧ stop.isEnding = true ∧
      e.Spelled σ.grammar ts ∧ e.Built σ ∧
      ∀ k t, ts[k]? = some t → l.result k = .ok t ∧ t.isEnding = false := by
  obtain ⟨ts, behind, stop, hpop, hpeek, hstop, hr⟩ := Setting.parse_reads h
  obtain ⟨hpull, rfl⟩ := (Stream.popMany_ofLexer l ts.length ts behind).mp hpop
  obtain ⟨hnext, -⟩ := Stream.peek_ofLexer hpeek
  refine ⟨ts, stop, ?_, hstop, hr.spelled, hr.built, fun k t ht => ⟨?_, ?_⟩⟩
  · rw [Lexer.pull_succ, hpull, hnext]
  · obtain ⟨hk, rfl⟩ := List.getElem?_eq_some_iff.mp ht
    exact Lexer.result_of_pull hpull hk
  · refine decide_eq_false fun hk => hkinds ?_
    rw [← hk]
    have hall := Expr.kinds_of_spelled hr.spelled
    exact Expr.kinds_of_built e hr.built t.kind
      (hall ▸ List.mem_map_of_mem (List.mem_of_getElem? ht))

namespace Rules

variable {ρ : Rules}

theorem name_of_reading {c : Char} {cs lexeme : List Char} {k : Kind}
    (hr : ρ.reading c = .name) (h : (ρ.scan c cs).result = .ok (k, lexeme)) :
    k = ρ.nameKind ∧ ∃ tail, lexeme = c :: tail := by
  rw [scan_eq_reading, hr] at h
  cases h
  exact ⟨rfl, _, rfl⟩

theorem numeral_of_reading {c : Char} {cs lexeme : List Char} {k : Kind}
    (hr : ρ.reading c = .numeral) (h : (ρ.scan c cs).result = .ok (k, lexeme)) :
    k = ρ.nameKind ∧ ∃ rest, ρ.numeral c cs = (.ok lexeme, rest) := by
  rw [scan_eq_reading, hr] at h
  simp only [scanNumeral] at h
  split at h
  · rename_i lexeme' rest hn
    cases h
    exact ⟨rfl, rest, hn⟩
  · cases h

end Rules

/-- in scientific mode, a lexeme that starts with a digit above nine -/
def Mode.LetterFirst (mode : Mode) (lexeme : List Char) : Prop :=
  mode = .scientific ∧ ∃ c ∈ lexeme.head?, 'A' ≤ c ∧ c ≤ 'Z'

/-- in a built-in grammar the lexeme of a numeral is taken for a number unless it starts with a
letter -/
theorem Rules.isNumber_numeral {ρ : Rules} {mode : Mode} (hρ : ρ.grammar = mode.language)
    {c : Char} {cs lexeme rest : List Char} (hc : ρ.grammar.isDigit c = true)
    (h : ρ.numeral c cs = (.ok lexeme, rest)) (radix : Nat) :
    (Setting.isNumber ⟨mode.language, radix⟩ lexeme = true ↔ ¬ mode.LetterFirst lexeme) ∧
      (mode = .programmer ∨ ρ.radix.val ≤ 10 → ¬ mode.LetterFirst lexeme) := by
  obtain ⟨first, tail, rfl, hfirst⟩ := numeral_head h
  obtain ⟨hcUpper, hcStarts⟩ : isUpperDigit c = true ∧ mode.startsNumber c = true := by
    rw [hρ] at hc
    have h := List.all_eq_true.mp mode.language_words.2.2.1 c (of_decide_eq_true hc)
    rwa [Bool.and_eq_true] at h
  have hupper : isUpperDigit first = true := by
    rcases hfirst with rfl | ⟨d, hd, rfl⟩
    · rw [toUpper_of_upperDigit hcUpper]
      exact hcUpper
    · exact isUpperDigit_digitChar (Nat.lt_of_lt_of_le hd ρ.radix.le_max)
  have hletter : mode.LetterFirst (first :: tail) ↔
      mode = .scientific ∧ 'A' ≤ first ∧ first ≤ 'Z' := by
    unfold Mode.LetterFirst
    simp
  refine ⟨?_, fun hor => ?_⟩
  · rw [mode.isNumber_cons radix hupper, hletter]
    cases mode with
    | programmer => simp [Mode.startsNumber]
    | scientific =>
      show first.isDigit = true ↔ _
      constructor
      · rintro hd ⟨-, hlet⟩
        rw [not_isDigit_of_upper hupper hlet] at hd
        cases hd
      · intro hnot
        refine Bool.of_not_eq_false fun hd => hnot ⟨rfl, upper_of_not_isDigit hupper hd⟩
  · rw [hletter]
    rintro ⟨rfl, hlet⟩
    rcases hor with hmode | hradix
    · cases hmode
    · have hdigit : first.isDigit = true := by
        rcases hfirst with rfl | ⟨d, hd, rfl⟩
        · rw [toUpper_of_upperDigit hcUpper]
          exact hcStarts
        · exact isDigit_digitChar (Nat.lt_of_lt_of_le hd hradix)
      rw [not_isDigit_of_upper hupper hlet] at hdigit
      cases hdigit

/-- **Names are names, and numerals are numbers but for one exception.**  In a successful parse of
any text by a built-in grammar, with one radix for lexing and parsing, every token before the end
starts at a character of the source, which decides how it was read.  One that was read as a name is
a name in the tree.  One that was read as a numeral is a name if its lexeme starts with a letter in
scientific mode, and a number if not; in programmer mode and in radices up to ten it always is a
number. -/
theorem leaf_iff_reading (mode : Mode) (g : Grammar) (config : Config) (text : List Char)
    (l : Lexer) (e : Expr) (after : Stream) (hg : mode.grammar = .ok g)
    (hl : Lexer.new g mode config text = .ok l)
    (h : Setting.parse ⟨g, config.radix⟩ (Stream.ofLexer l) = .done e after) :
    ∃ (ts : List Token) (stop : Token),
      (l.pull (ts.length + 1)).1 = ts.map Except.ok ++ [Except.ok stop] ∧ stop.isEnding = true ∧
      ∀ k t, ts[k]? = some t → ∃ c, l.source[l.start k]? = some c ∧
        (l.rules.reading c = .name → e.IsName t) ∧
        (l.rules.reading c = .numeral →
          (e.IsName t ↔ mode.LetterFirst t.lexeme) ∧
          (e.IsNumber t ↔ ¬ mode.LetterFirst t.lexeme) ∧
          (mode = .programmer ∨ config.radix ≤ 10 → e.IsNumber t)) := by
  have hlang : g = mode.language := Except.ok.inj (hg.symm.trans (Mode.grammar_eq _))
  subst hlang
  have hstd := Mode.grammar_standard hg
  obtain ⟨hcursor, hgrammar, -, hname, hradix⟩ := Lexer.new_eq_ok hl
  have hcur : l.cursor ≤ l.source.length := by omega
  have hword : l.rules.nameKind = Kind.word := by
    rw [hstd.words] at hname
    exact (Option.some.inj hname).symm
  have hval : l.rules.radix.val = config.radix := Radix.ofNat_eq_ok_iff.mp hradix
  obtain ⟨ts, stop, hpull, hstop, hspelled, hbuilt, htokens⟩ :=
    Setting.parse_results hstd.noEnding h
  refine ⟨ts, stop, hpull, hstop, fun k t ht => ?_⟩
  obtain ⟨hres, hend⟩ := htokens k t ht
  obtain ⟨c, cs, hc, hscan⟩ := Lexer.result_scan hcur hres hend
  have hleaf (hk : t.kind = l.rules.nameKind) :=
    Expr.leaf_of_spelled mode.leafKind hspelled hbuilt (List.mem_of_getElem? ht) (hk.trans hword)
  have hclass := l.rules.class_of_reading c
  refine ⟨c, hc, fun hread => ?_, fun hread => ?_⟩
  · rw [hread] at hclass
    obtain ⟨hk, tail, hlex⟩ := Rules.name_of_reading hread hscan
    have hnot : Setting.isNumber ⟨mode.language, config.radix⟩ t.lexeme = false := by
      rw [hlex, ← hgrammar]
      show (_ && !l.rules.grammar.isLetter c) = false
      rw [hclass, Bool.not_true, Bool.and_false]
    have := hleaf hk
    rw [hnot, if_neg Bool.false_ne_true] at this
    exact this
  · rw [hread] at hclass
    obtain ⟨hk, rest, hnum⟩ := Rules.numeral_of_reading hread hscan
    obtain ⟨hiff, hplain⟩ := Rules.isNumber_numeral hgrammar hclass.1 hnum config.radix
    have hcases := hleaf hk
    by_cases hfirst : mode.LetterFirst t.lexeme
    · rw [if_neg (fun hn => hiff.mp hn hfirst)] at hcases
      refine ⟨iff_of_true hcases hfirst,
        iff_of_false (fun hn => hn.2 hcases.1) (not_not.mpr hfirst),
        fun hor => absurd hfirst (hplain ?_)⟩
      rw [hval]
      exact hor
    · rw [if_pos (hiff.mpr hfirst)] at hcases
      exact ⟨iff_of_false (fun hn => hcases.2 hn.1) hfirst, iff_of_true hcases hfirst,
        fun _ => hcases⟩

/-- a hexadecimal lexer of a mode over 255 in decimal -/
def hexLexer (mode : Mode) : Lexer :=
  ⟨⟨mode.language, mode, Kind.word, sixteen⟩, "255_10".toList, 0⟩

theorem hexLexer_eq (mode : Mode) :
    Lexer.new mode.language mode ⟨0, none, 16⟩ "255_10".toList = .ok (hexLexer mode) := by
  unfold Lexer.new
  rw [(Mode.grammar_standard mode.grammar_eq).words]
  rfl

/-- in programmer mode the literal is the number FF -/
theorem programmer_hex_is_number :
    ∃ e after t, Setting.parse ⟨Mode.programmer.language, 16⟩
        (Stream.ofLexer (hexLexer .programmer)) = .done e after ∧
      (hexLexer .programmer).result 0 = .ok t ∧ t.lexeme = ['F', 'F'] ∧ e.IsNumber t := by
  obtain ⟨htext, hfirst, hc', hread⟩ : (Setting.parse ⟨Mode.programmer.language, 16⟩
        (Stream.ofLexer (hexLexer .programmer))).value?.map Expr.text = some ['F', 'F'] ∧
      ((hexLexer .programmer).result 0).toOption.map Token.key
        = some (Kind.word, ['F', 'F']) ∧
      (hexLexer .programmer).source[(hexLexer .programmer).start 0]? = some '2' ∧
      (hexLexer .programmer).rules.reading '2' = .numeral := by decide +kernel
  obtain ⟨e, after, he, -⟩ := Outcome.exists_done htext
  obtain ⟨ts, stop, hpull, hstop, htokens⟩ := leaf_iff_reading _ _ _ _ _ _ _
    (Mode.grammar_eq .programmer) (hexLexer_eq .programmer) he
  cases ts with
  | nil =>
    have hres : (hexLexer .programmer).result 0 = .ok stop := (List.cons.inj hpull).1
    rw [hres] at hfirst
    have hkind := congrArg Prod.fst (Option.some.inj hfirst)
    rw [show stop.key.1 = Kind.ending from of_decide_eq_true hstop] at hkind
    cases hkind
  | cons t ts =>
    have hres : (hexLexer .programmer).result 0 = .ok t := (List.cons.inj hpull).1
    rw [hres] at hfirst
    obtain ⟨c, hc, -, hnumeral⟩ := htokens 0 t rfl
    obtain rfl : '2' = c := Option.some.inj (hc'.symm.trans hc)
    exact ⟨e, after, t, he, hres, congrArg Prod.snd (Option.some.inj hfirst),
      (hnumeral hread).2.2 (Or.inl rfl)⟩

theorem Expr.exists_name {e : Expr} {t : Token} (h : e.same (.name t) = true) :
    ∃ u : Token, e = .name u ∧ u.lexeme = t.lexeme := by
  cases e with
  | name u => exact ⟨u, rfl, congrArg Prod.snd (of_decide_eq_true h)⟩
  | number | prefixed | binary | suffixed | group | call | array => cases h

/-- in scientific mode the same literal, in the same radix, is the name FF -/
theorem scientific_hex_is_name :
    Lexer.new Mode.scientific.language .scientific ⟨0, none, 16⟩ "255_10".toList
      = .ok (hexLexer .scientific) ∧
    (hexLexer .scientific).source[(hexLexer .scientific).start 0]? = some '2' ∧
    (hexLexer .scientific).rules.reading '2' = .numeral ∧
    ∃ t after, t.lexeme = ['F', 'F'] ∧
      Setting.parse ⟨Mode.scientific.language, 16⟩ (Stream.ofLexer (hexLexer .scientific))
        = .done (.name t) after := by
  obtain ⟨hsame, hstart, hread⟩ : (Setting.parse ⟨Mode.scientific.language, 16⟩
        (Stream.ofLexer (hexLexer .scientific))).value?.map
          (Expr.same · (.name ⟨Kind.word, ['F', 'F'], 0⟩)) = some true ∧
      (hexLexer .scientific).source[(hexLexer .scientific).start 0]? = some '2' ∧
      (hexLexer .scientific).rules.reading '2' = .numeral := by decide +kernel
  obtain ⟨e, after, he, hname⟩ := Outcome.exists_done hsame
  obtain ⟨t, rfl, ht⟩ := Expr.exists_name hname
  exact ⟨hexLexer_eq .scientific, hstart, hread, t, after, ht, he⟩

end Calculator
