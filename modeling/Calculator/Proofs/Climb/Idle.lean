import Calculator.Proofs.Climb.Enough
import Calculator.Proofs.Climb.Modes
import Calculator.Proofs.Grammar.Registry

/-!
# Infix roles of strength 0 are never played

A kind without an infix role binds with strength 0, and so does a kind of the lowest precedence with
one.  A parse starts at threshold 0, and an operator above a threshold that is not negative has a
positive strength, so its operand is read at a threshold that is not negative either, also when it
groups to the right and the threshold is one less.  Hence no token of strength 0 is ever taken for
an operator: the parse is the same without the infix roles of such kinds, and the failure of a token
without an infix role does not arise.

* `Grammar.withoutIdle`     the grammar without the infix roles of kinds of strength 0;
* `Setting.SameBinding`     two settings do the same, except for infix roles of strength 0;
* `Detour`                  what to do in place of a call at a negative threshold, and in place of
                            playing the infix role of a token that has no positive strength;
* `Setting.detourAt`        a parse that does so;
* `Setting.run_detour`      it is the parse itself, whatever the detour, at thresholds that are not
                            negative;
* `Lexer.result_withoutIdle`   lexers look at the kinds of a grammar, not at their roles;
* `idle_roles_dead`         whole parses by both grammars.
-/

namespace Calculator

/-! ## the grammar without idle roles -/

/-- the entry without an infix role of strength 0 -/
def Entry.withoutIdle (e : Entry) : Entry :=
  if e.kind.strength = 0 then { e with infixRole := none } else e

theorem Entry.kind_withoutIdle (e : Entry) : e.withoutIdle.kind = e.kind := by
  unfold withoutIdle
  split <;> rfl

theorem Entry.prefixRole_withoutIdle (e : Entry) : e.withoutIdle.prefixRole = e.prefixRole := by
  unfold withoutIdle
  split <;> rfl

theorem Entry.infixRole_withoutIdle (e : Entry) :
    e.withoutIdle.infixRole = if e.kind.strength = 0 then none else e.infixRole := by
  unfold withoutIdle
  split <;> rfl

namespace Grammar

/-- the grammar without the infix roles of kinds of strength 0 -/
def withoutIdle (g : Grammar) : Grammar := { g with entries := g.entries.map Entry.withoutIdle }

variable (g : Grammar)

theorem kinds_withoutIdle : g.withoutIdle.kinds = g.kinds := by
  show (g.entries.map Entry.withoutIdle).map Entry.kind = g.entries.map Entry.kind
  rw [List.map_map]
  exact List.map_congr_left fun e _ => e.kind_withoutIdle

theorem entry?_withoutIdle (k : Kind) :
    g.withoutIdle.entry? k = (g.entry? k).map Entry.withoutIdle := by
  show (g.entries.map Entry.withoutIdle).find? _ = (g.entries.find? _).map Entry.withoutIdle
  rw [List.find?_map]
  congr 2
  funext e
  show decide (e.withoutIdle.kind = k) = _
  rw [e.kind_withoutIdle]

theorem prefixRole?_withoutIdle (k : Kind) : g.withoutIdle.prefixRole? k = g.prefixRole? k := by
  unfold prefixRole?
  rw [entry?_withoutIdle]
  cases g.entry? k with
  | none => rfl
  | some e => exact e.prefixRole_withoutIdle

theorem infixRole?_withoutIdle (k : Kind) :
    g.withoutIdle.infixRole? k = if k.strength = 0 then none else g.infixRole? k := by
  unfold infixRole?
  rw [entry?_withoutIdle]
  cases he : g.entry? k with
  | none => exact (ite_self none).symm
  | some e =>
    obtain rfl : e.kind = k := g.kind_of_entry? he
    exact e.infixRole_withoutIdle

theorem kindOf_withoutIdle (c : Char) : g.withoutIdle.kindOf c = g.kindOf c := by
  unfold kindOf
  rw [kinds_withoutIdle]

theorem closing?_withoutIdle (use : Bracket) : g.withoutIdle.closing? use = g.closing? use := by
  have hpair : g.withoutIdle.pair use = g.pair use := by cases use <;> rfl
  unfold closing?
  rw [hpair, funext g.kindOf_withoutIdle]

theorem separator?_withoutIdle : g.withoutIdle.separator? = g.separator? := by
  show g.separator.bind g.withoutIdle.kindOf = g.separator.bind g.kindOf
  rw [funext g.kindOf_withoutIdle]

end Grammar

/-! ## settings that differ in idle roles alone -/

namespace Setting

/-- the settings do the same, except for the infix roles of kinds that do not bind -/
structure SameBinding (σ σ' : Setting) : Prop where
  leaf : ∀ t s, σ.leaf t s = σ'.leaf t s
  prefixRole : ∀ k, σ.grammar.prefixRole? k = σ'.grammar.prefixRole? k
  strength : ∀ k, σ.strength k = σ'.strength k
  infixRole : ∀ k, 0 < σ.strength k → σ.grammar.infixRole? k = σ'.grammar.infixRole? k
  closing : ∀ use, σ.grammar.closing? use = σ'.grammar.closing? use
  separator : σ.grammar.separator? = σ'.grammar.separator?

theorem SameBinding.refl (σ : Setting) : σ.SameBinding σ :=
  ⟨fun _ _ => rfl, fun _ => rfl, fun _ => rfl, fun _ _ => rfl, fun _ => rfl, rfl⟩

theorem sameBinding_withoutIdle (g : Grammar) (radix : Nat) :
    SameBinding ⟨g, radix⟩ ⟨g.withoutIdle, radix⟩ where
  leaf _ _ := rfl
  prefixRole k := (g.prefixRole?_withoutIdle k).symm
  strength k := by
    unfold Setting.strength
    rw [g.infixRole?_withoutIdle]
    by_cases hk : k.strength = 0
    · rw [if_pos hk, hk]
      split <;> rfl
    · rw [if_neg hk]
  infixRole k hpos := by
    have hk : k.strength ≠ 0 := by
      intro hk
      unfold Setting.strength at hpos
      split at hpos
      · exact absurd hpos (Int.lt_irrefl 0)
      · rw [hk] at hpos
        exact absurd hpos (Int.lt_irrefl 0)
    exact ((g.infixRole?_withoutIdle k).trans (if_neg hk)).symm
  closing use := (g.closing?_withoutIdle use).symm
  separator := g.separator?_withoutIdle.symm

end Setting

/-! ## detours -/

theorem Outcome.bind_congr {α β : Type} {o : Outcome α} {f f' : α → Stream → Outcome β}
    (h : ∀ a s, o = .done a s → f a s = f' a s) : o.bind f = o.bind f' := by
  cases o with
  | done a s => exact h a s rfl
  | failed e s => rfl
  | unfinished => rfl

/-- what to do in two places that a parse does not come to -/
structure Detour where
  /-- in place of an expression above a negative threshold -/
  below : Int → Stream → Outcome Expr
  /-- in place of the infix role of a token that has no positive strength, or of its failure for the
  lack of one -/
  idle : Expr → Token → Stream → Outcome Expr

namespace Setting

section
variable (σ : Setting) (δ : Detour)

/-- what the infix role of a token makes, if the token binds -/
def detourExtend (parse : Int → Stream → Outcome Expr)
    (more : Kind → Kind → Stream → Outcome (List Expr)) (left : Expr) (t : Token) (s : Stream) :
    Outcome Expr :=
  if 0 < σ.strength t.kind then σ.extend parse more left t s else δ.idle left t s

mutual

/-- `parseAt` with a detour for negative thresholds -/
def detourAt : Nat → Int → Stream → Outcome Expr
  | 0, threshold, s => if threshold < 0 then δ.below threshold s else .unfinished
  | n + 1, threshold, s =>
    if threshold < 0 then δ.below threshold s
    else
      s.pop.bind fun t s =>
        (σ.operand (fun m s => detourAt n m s) (fun k k' s => detourMore n k k' s) t s).bind
          fun left s => detourClimb n threshold left s

/-- `climb` with a detour for tokens that do not bind -/
def detourClimb : Nat → Int → Expr → Stream → Outcome Expr
  | 0, threshold, left, s =>
    (σ.bindsTighter threshold s).bind fun tighter s =>
      if tighter then .unfinished else .done left s
  | n + 1, threshold, left, s =>
    (σ.bindsTighter threshold s).bind fun tighter s =>
      if tighter then
        s.pop.bind fun t s =>
          (σ.detourExtend δ (fun m s => detourAt n m s) (fun k k' s => detourMore n k k' s) left t
            s).bind fun left s => detourClimb n threshold left s
      else .done left s

/-- `more` with the detours of its items -/
def detourMore : Nat → Kind → Kind → Stream → Outcome (List Expr)
  | 0, separator, closing, s =>
    (s.accept separator).bind fun goesOn s =>
      if goesOn then .unfinished else (s.consume closing).bind fun _ s => .done [] s
  | n + 1, separator, closing, s =>
    (s.accept separator).bind fun goesOn s =>
      if goesOn then
        (detourAt n 0 s).bind fun x s =>
          (detourMore n separator closing s).bind fun xs s => .done (x :: xs) s
      else (s.consume closing).bind fun _ s => .done [] s

end

end

variable {σ σ' : Setting} (h : σ.SameBinding σ')
include h

theorem bindsTighter_eq (m : Int) (s : Stream) : σ'.bindsTighter m s = σ.bindsTighter m s := by
  unfold bindsTighter
  rw [funext h.strength]

section
variable {parse parse' : Int → Stream → Outcome Expr}
  {more : Kind → Kind → Stream → Outcome (List Expr)}
  (hparse : ∀ m s, 0 ≤ m → parse' m s = parse m s)
include hparse

theorem items_eq (use : Bracket) (t : Token) (s : Stream) :
    σ'.items (parse' 0) more use t s = σ.items (parse 0) more use t s := by
  have hitem : parse' 0 = parse 0 := funext fun s => hparse 0 s (Int.le_refl 0)
  unfold items
  rw [hitem, h.closing, h.separator]

theorem operand_eq (t : Token) (s : Stream) :
    σ'.operand parse' more t s = σ.operand parse more t s := by
  unfold operand
  rw [← h.prefixRole]
  cases σ.grammar.prefixRole? t.kind with
  | none => rfl
  | some role =>
    cases role with
    | leaf => exact (h.leaf t s).symm
    | operator =>
      show (parse' t.kind.strength s).bind _ = _
      rw [hparse t.kind.strength s t.kind.precedence.strength_nonneg]
    | grouping => simp only [h.closing, hparse 0 s (Int.le_refl 0)]
    | array =>
      show (σ'.items (parse' 0) more .array t s).bind _ = _
      rw [items_eq h hparse]

theorem extend_eq (left : Expr) {t : Token} (ht : 0 < σ.strength t.kind) (s : Stream) :
    σ'.extend parse' more left t s = σ.extend parse more left t s := by
  unfold extend
  rw [← h.infixRole _ ht]
  cases hr : σ.grammar.infixRole? t.kind with
  | none => rfl
  | some role =>
    rw [strength_of_infixRole hr] at ht
    cases role with
    | left =>
      show (parse' t.kind.strength s).bind _ = _
      rw [hparse _ s (Int.le_of_lt ht)]
    | right =>
      show (parse' (t.kind.strength - 1) s).bind _ = _
      rw [hparse _ s (Int.le_sub_one_of_lt ht)]
    | suffix => rfl
    | call =>
      show (σ'.items (parse' 0) more .call t s).bind _ = _
      rw [items_eq h hparse]

end

/-- the three calls at thresholds that are not negative, whatever the detour -/
theorem run_detour (δ : Detour) (n : Nat) :
    (∀ m s, 0 ≤ m → σ'.detourAt δ n m s = σ.parseAt n m s) ∧
    (∀ m left s, 0 ≤ m → σ'.detourClimb δ n m left s = σ.climb n m left s) ∧
    (∀ k k' s, σ'.detourMore δ n k k' s = σ.more n k k' s) := by
  induction n with
  | zero =>
    refine ⟨fun m s hm => ?_, fun m left s _ => ?_, fun k k' s => ?_⟩
    · rw [detourAt, parseAt, if_neg (Int.not_lt.mpr hm)]
    · rw [detourClimb, climb, bindsTighter_eq h]
    · rw [detourMore, more]
  | succ n ih =>
    obtain ⟨ihparse, ihclimb, ihmore⟩ := ih
    have hmore : (fun k k' s => σ'.detourMore δ n k k' s) = fun k k' s => σ.more n k k' s :=
      funext fun k => funext fun k' => funext fun s => ihmore k k' s
    refine ⟨fun m s hm => ?_, fun m left s hm => ?_, fun k k' s => ?_⟩
    · rw [detourAt, parseAt, if_neg (Int.not_lt.mpr hm), hmore]
      refine Outcome.bind_congr fun t s₁ _ => ?_
      rw [operand_eq h ihparse]
      exact Outcome.bind_congr fun left s₂ _ => ihclimb m left s₂ hm
    · rw [detourClimb, climb, bindsTighter_eq h, hmore]
      refine Outcome.bind_congr fun tighter s₁ hb => ?_
      cases tighter with
      | false => rfl
      | true =>
        obtain ⟨t, hpeek, ht⟩ := bindsTighter_peeks hb
        refine Outcome.bind_congr fun u s₂ hpop => ?_
        -- the token that is taken is the one that binds tighter than `m`, so it has a strength
        obtain ⟨hsame, s₃, hs₃⟩ := Stream.pop_of_peek hpeek
        rw [hsame, hs₃] at hpop
        cases hpop
        have hpos : 0 < σ.strength t.kind := Int.lt_of_le_of_lt hm (of_decide_eq_true ht.symm)
        have hextend (parse more) :
            σ'.detourExtend δ parse more left t s₂ = σ'.extend parse more left t s₂ :=
          if_pos (h.strength t.kind ▸ hpos)
        rw [hextend, extend_eq h ihparse left hpos]
        exact Outcome.bind_congr fun e s₄ _ => ihclimb m e s₄ hm
    · rw [detourMore, more]
      refine Outcome.bind_congr fun goesOn s₁ _ => ?_
      cases goesOn with
      | false => rfl
      | true =>
        show (σ'.detourAt δ n 0 s₁).bind _ = _
        rw [ihparse 0 s₁ (Int.le_refl 0)]
        refine Outcome.bind_congr fun x s₂ _ => ?_
        rw [ihmore]

theorem parse_eq (s : Stream) : σ'.parse s = σ.parse s := by
  have hrun (n : Nat) : σ'.parseAt n 0 s = σ.parseAt n 0 s := by
    let δ : Detour := ⟨fun _ _ => .unfinished, fun _ _ _ => .unfinished⟩
    have hzero : (0 : Int) ≤ 0 := Int.le_refl 0
    exact ((run_detour (SameBinding.refl σ') δ n).1 0 s hzero).symm.trans
      ((run_detour h δ n).1 0 s hzero)
  unfold parse parseFrom
  rw [hrun]

end Setting

/-! ## lexers -/

theorem Grammar.kindNamed_withoutIdle (g : Grammar) (name : List Char) :
    g.withoutIdle.kindNamed name = g.kindNamed name := by
  unfold kindNamed
  rw [kinds_withoutIdle]

namespace Rules

/-- the same rules by the grammar without idle roles -/
def withoutIdle (ρ : Rules) : Rules := { ρ with grammar := ρ.grammar.withoutIdle }

variable (ρ : Rules)

theorem mantissaTail_withoutIdle (seen : Bool) (cs : List Char) :
    ρ.withoutIdle.mantissaTail seen cs = ρ.mantissaTail seen cs := by
  induction cs generalizing seen with
  | nil => rfl
  | cons c cs ih =>
    rw [mantissaTail, mantissaTail, ih, ih]
    rfl

theorem scanNumeral_withoutIdle (c : Char) (cs : List Char) :
    ρ.withoutIdle.scanNumeral c cs = ρ.scanNumeral c cs := by
  have hmantissa : ρ.withoutIdle.mantissa c cs = ρ.mantissa c cs := by
    unfold mantissa
    rw [mantissaTail_withoutIdle]
    rfl
  have hnumeral : ρ.withoutIdle.numeral c cs = ρ.numeral c cs := by
    unfold numeral
    rw [hmantissa]
    rfl
  unfold scanNumeral
  rw [hnumeral]
  rfl

theorem symbol_withoutIdle (c : Char) (cs : List Char) :
    ρ.withoutIdle.symbol c cs = ρ.symbol c cs := by
  have hsingle : ρ.withoutIdle.single c = ρ.single c := by
    have hkind : ρ.withoutIdle.grammar.kindOf c = ρ.grammar.kindOf c :=
      ρ.grammar.kindOf_withoutIdle c
    funext ds
    simp only [single, hkind]
  have hcompound (d : Char) :
      ρ.withoutIdle.mode.compound ρ.withoutIdle.grammar c d = ρ.mode.compound ρ.grammar c d := by
    show ρ.mode.compound ρ.grammar.withoutIdle c d = _
    unfold Mode.compound
    rw [Grammar.kindNamed_withoutIdle]
  cases cs with
  | nil => exact congrFun hsingle []
  | cons d cs => simp only [symbol, hcompound, hsingle]

theorem scan_withoutIdle (c : Char) (cs : List Char) :
    ρ.withoutIdle.scan c cs = ρ.scan c cs := by
  unfold scan
  rw [symbol_withoutIdle, scanNumeral_withoutIdle]
  rfl

end Rules

namespace Lexer

/-- the same lexer by the grammar without idle roles -/
def withoutIdle (l : Lexer) : Lexer := { l with rules := l.rules.withoutIdle }

theorem next_withoutIdle (l : Lexer) :
    l.withoutIdle.next.1 = l.next.1 ∧ l.withoutIdle.next.2 = l.next.2.withoutIdle := by
  have hrest : l.withoutIdle.rest.dropWhile l.withoutIdle.rules.grammar.isWhitespace
      = l.rest.dropWhile l.rules.grammar.isWhitespace := rfl
  have hscan (c : Char) (cs : List Char) :
      l.withoutIdle.rules.scan c cs = l.rules.scan c cs := l.rules.scan_withoutIdle c cs
  unfold next
  rw [hrest]
  cases l.rest.dropWhile l.rules.grammar.isWhitespace with
  | nil => exact ⟨rfl, rfl⟩
  | cons c cs =>
    simp only [hscan]
    exact ⟨rfl, rfl⟩

theorem result_withoutIdle (l : Lexer) (n : Nat) : l.withoutIdle.result n = l.result n := by
  induction n generalizing l with
  | zero => exact l.next_withoutIdle.1
  | succ n ih =>
    show l.withoutIdle.next.2.result n = l.next.2.result n
    rw [l.next_withoutIdle.2]
    exact ih l.next.2

theorem new_withoutIdle (g : Grammar) (mode : Mode) (config : Config) (text : List Char) :
    new g.withoutIdle mode config text = (new g mode config text).map withoutIdle := by
  unfold new
  cases Radix.ofNat config.radix with
  | error e => rfl
  | ok radix =>
    have hname : g.withoutIdle.nameKind = g.nameKind := rfl
    rw [hname]
    cases g.nameKind with
    | none => rfl
    | some nameKind =>
      cases config.select text with
      | error e => rfl
      | ok source => rfl

end Lexer

/-! ## whole parses -/

theorem Pairing.Related.result?_eq {stream behind : Stream → Stream → Prop} {α : Type}
    {o o' : Outcome α} (h : (Pairing.exact stream behind).Related Eq o o') :
    o.result? = o'.result? := by
  cases h with
  | done hvalue _ =>
    rw [hvalue]
    rfl
  | failed herror _ =>
    cases herror
    rfl
  | unfinished => rfl

/-- a parse does not depend on the idle roles, neither in lexing nor in parsing -/
theorem Setting.parse_withoutIdle (g : Grammar) (radix : Nat) (l : Lexer) :
    (Setting.parse ⟨g.withoutIdle, radix⟩ (.ofLexer l.withoutIdle)).result?
      = (Setting.parse ⟨g, radix⟩ (.ofLexer l)).result? := by
  have htwin : Stream.Twin (fun _ => True) (.ofLexer l.withoutIdle) (.ofLexer l) :=
    Stream.Twin.ofLexer l.result_withoutIdle fun _ _ _ => trivial
  have hagree := Setting.AgreeOn.refl ⟨g, radix⟩ fun _ => True
  rw [Setting.parse_eq (Setting.sameBinding_withoutIdle g radix)]
  exact ((Comparison.ofTwins hagree).parse_related htwin rfl).result?_eq

/-- **Infix roles of strength 0 are dead.**  In any grammar and either mode, over any text, a lexer
by the grammar without these roles is made or refused as one by the grammar is.  Whole parses by the
two grammars give the same expression, positions included, or the same error, or none of them ends;
and a parse that is not ended is one that no number of steps would end.  Whatever stands in place of
calls at negative thresholds and of what a token of strength 0 does behind an operand, in particular
its failure for the lack of an infix role, the calls of a whole parse do not come to it. -/
theorem idle_roles_dead (g : Grammar) (mode : Mode) (config : Config) (text : List Char) :
    Lexer.new g.withoutIdle mode config text
      = (Lexer.new g mode config text).map Lexer.withoutIdle ∧
    ∀ l, Lexer.new g mode config text = .ok l → ∀ radix,
      (Setting.parse ⟨g, radix⟩ (.ofLexer l)).result?
        = (Setting.parse ⟨g.withoutIdle, radix⟩ (.ofLexer l.withoutIdle)).result? ∧
      (Setting.parse ⟨g, radix⟩ (.ofLexer l) = .unfinished ↔
        ∀ n, Setting.parseAt ⟨g, radix⟩ n 0 (.ofLexer l) = .unfinished) ∧
      (Setting.parse ⟨g.withoutIdle, radix⟩ (.ofLexer l.withoutIdle) = .unfinished ↔
        ∀ n, Setting.parseAt ⟨g.withoutIdle, radix⟩ n 0 (.ofLexer l.withoutIdle) = .unfinished) ∧
      ∀ (δ : Detour) n s,
        Setting.detourAt ⟨g, radix⟩ δ n 0 s = Setting.parseAt ⟨g, radix⟩ n 0 s := by
  refine ⟨Lexer.new_withoutIdle g mode config text, fun l hl radix => ?_⟩
  have h₀ : l.cursor = 0 := (Lexer.new_eq_ok hl).1
  refine ⟨(Setting.parse_withoutIdle g radix l).symm, Setting.parse_eq_unfinished_iff _ h₀,
    Setting.parse_eq_unfinished_iff _ h₀, fun δ n s => ?_⟩
  exact (Setting.run_detour (.refl _) δ n).1 0 s (Int.le_refl 0)

/-- calls with arguments between brackets; the comma that separates them has an infix role too,
which its precedence leaves idle -/
def idleComma : Grammar :=
  Draft.grammarOf false <|
    ['[', ']', ','].map .punctuator ++ ['a', 'b', 'f'].map .letter
      ++ [.kind Kind.word, .kind ⟨['['], .postfix1⟩, .kind ⟨[']'], .lowest⟩, .kind ⟨[','], .lowest⟩,
          .nameKind Kind.word, .delimiters .call ['[', ']'], .separator ',',
          .prefixRole Kind.word .leaf, .infixRole ⟨['['], .postfix1⟩ .call,
          .infixRole ⟨[','], .lowest⟩ .right]

/-- the comma that could be an operator separates arguments, with its infix role and without it -/
theorem idle_comma_separates :
    idleComma.infixRole? ⟨[','], .lowest⟩ = some .right ∧
    idleComma.withoutIdle.infixRole? ⟨[','], .lowest⟩ = none ∧
    ∃ l e, Lexer.new idleComma .scientific Config.whole "f[a,b]".toList = .ok l ∧
      e.text = "(call f a b)".toList ∧
      (Setting.parse ⟨idleComma, 10⟩ (.ofLexer l)).result? = some (.ok e) ∧
      (Setting.parse ⟨idleComma.withoutIdle, 10⟩ (.ofLexer l.withoutIdle)).result?
        = some (.ok e) := by
  refine ⟨by decide +kernel, by decide +kernel, ?_⟩
  let l : Lexer := ⟨⟨idleComma, .scientific, Kind.word, Radix.ten⟩, "f[a,b]".toList, 0⟩
  have hl : Lexer.new idleComma .scientific Config.whole "f[a,b]".toList = .ok l := by
    have hname : idleComma.nameKind = some Kind.word := by decide +kernel
    unfold Lexer.new
    rw [hname]
    rfl
  have htext : (Setting.parse ⟨idleComma, 10⟩ (.ofLexer l)).value?.map Expr.text
      = some "(call f a b)".toList := by decide +kernel
  obtain ⟨e, after, he, htext⟩ := Outcome.exists_done htext
  have hsame := ((idle_roles_dead idleComma .scientific Config.whole "f[a,b]".toList).2 l hl 10).1
  rw [he] at hsame
  exact ⟨l, e, hl, htext, by rw [he]; rfl, hsame.symm⟩

end Calculator
