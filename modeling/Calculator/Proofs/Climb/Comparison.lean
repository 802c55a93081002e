import Calculator.Expr.Climb
import Calculator.Proofs.Token.Taking

/-!
# Two parses side by side

A parse does nothing to its stream but look at tokens and take them, and of a token it looks at the
roles of its kind and, in a leaf, at its lexeme.  So two parses, by two grammars and of two streams,
go the same way as long as their tokens do.  How close the tokens, errors and expressions are in the
end is up to the comparison: equal, equal up to positions, or less.

* `Pairing`                 which streams are in step, where failures may leave them, and which
                            errors go together;
* `Pairing.Related`         outcomes that end in the same way;
* `Comparison σ σ'`         a pairing with tokens and expressions that parses by `σ` and `σ'` keep;
* `Comparison.run_related`  the three calls, by induction on the steps;
* `Comparison.parseFrom_related`, `Comparison.parse_related`   parses with one budget;
* `Setting.AgreeOn`         two settings do the same with some tokens;
* `Comparison.exact`        the comparison by equality for settings that agree on all tokens;
* `Setting.run_keeps`       what looking and taking keep of a stream, a parse keeps.
-/

namespace Calculator

/-! ## outcomes -/

/-- which streams and errors go together -/
structure Pairing where
  /-- the streams are in step -/
  stream : Stream → Stream → Prop
  /-- failures may leave the streams so -/
  behind : Stream → Stream → Prop
  error : Error → Error → Prop

/-- the outcomes end in the same way -/
inductive Pairing.Related (p : Pairing) {α : Type} (value : α → α → Prop) :
    Outcome α → Outcome α → Prop where
  | done {a a' : α} {s s' : Stream} : value a a' → p.stream s s' →
      Related p value (.done a s) (.done a' s')
  | failed {e e' : Error} {s s' : Stream} : p.error e e' → p.behind s s' →
      Related p value (.failed e s) (.failed e' s')
  | unfinished : Related p value .unfinished .unfinished

theorem Pairing.Related.bind {p : Pairing} {α β : Type} {value : α → α → Prop}
    {value' : β → β → Prop} {o o' : Outcome α} {f f' : α → Stream → Outcome β}
    (h : p.Related value o o')
    (hf : ∀ a a' s s', value a a' → p.stream s s' → p.Related value' (f a s) (f' a' s')) :
    p.Related value' (o.bind f) (o'.bind f') := by
  cases h with
  | done hvalue hstream => exact hf _ _ _ _ hvalue hstream
  | failed herror hbehind => exact .failed herror hbehind
  | unfinished => exact .unfinished

/-- what has to be known of tokens, errors and expressions to compare parses by two settings -/
structure Comparison (σ σ' : Setting) extends Pairing where
  token : Token → Token → Prop
  expr : Expr → Expr → Prop
  exprs : List Expr → List Expr → Prop
  peek : ∀ {s s'}, stream s s' → toPairing.Related token s.peek s'.peek
  pop : ∀ {s s'}, stream s s' → toPairing.Related token s.pop s'.pop
  stream_behind : ∀ {s s'}, stream s s' → behind s s'
  kind : ∀ {t t'}, token t t' → t.kind = t'.kind
  prefixRole : ∀ {t t'}, token t t' →
    σ.grammar.prefixRole? t.kind = σ'.grammar.prefixRole? t'.kind
  infixRole : ∀ {t t'}, token t t' →
    σ.grammar.infixRole? t.kind = σ'.grammar.infixRole? t'.kind
  closing : ∀ use, σ.grammar.closing? use = σ'.grammar.closing? use
  separator : σ.grammar.separator? = σ'.grammar.separator?
  misplaced : ∀ {t t'}, token t t' → error (.misplaced t) (.misplaced t')
  missing : ∀ {t t'} label, token t t' → error (.missing label t) (.missing label t')
  unexpected : ∀ {t t'} name, token t t' →
    error ⟨.unexpectedToken name t.lexeme, t.position⟩
      ⟨.unexpectedToken name t'.lexeme, t'.position⟩
  leaf : ∀ {t t' s s'}, token t t' → stream s s' →
    toPairing.Related expr (σ.leaf t s) (σ'.leaf t' s')
  prefixed : ∀ {t t' x x'}, token t t' → expr x x' → expr (.prefixed t x) (.prefixed t' x')
  binary : ∀ {t t' x x' y y'}, token t t' → expr x x' → expr y y' →
    expr (.binary t x y) (.binary t' x' y')
  suffixed : ∀ {t t' x x'}, token t t' → expr x x' → expr (.suffixed t x) (.suffixed t' x')
  group : ∀ {t t' x x'}, token t t' → expr x x' → expr (.group t x) (.group t' x')
  call : ∀ {t t' x x' xs xs'}, token t t' → expr x x' → exprs xs xs' →
    expr (.call x t xs) (.call x' t' xs')
  array : ∀ {t t' xs xs'}, token t t' → exprs xs xs' → expr (.array t xs) (.array t' xs')
  nil : exprs [] []
  cons : ∀ {x x' xs xs'}, expr x x' → exprs xs xs' → exprs (x :: xs) (x' :: xs')

namespace Comparison

open Pairing (Related)

variable {σ σ' : Setting} (c : Comparison σ σ')

/-! ## tokens -/

section
variable {s s' : Stream} (h : c.stream s s')
include h

theorem consume_related (k : Kind) : c.Related c.token (s.consume k) (s'.consume k) := by
  refine (c.peek h).bind fun t t' s₁ s₁' ht hs => ?_
  rw [c.kind ht]
  split
  · exact c.pop hs
  · exact .failed (c.unexpected _ ht) (c.stream_behind hs)

theorem accept_related (k : Kind) : c.Related Eq (s.accept k) (s'.accept k) := by
  refine (c.peek h).bind fun t t' s₁ s₁' ht hs => ?_
  rw [c.kind ht]
  split
  · exact (c.pop hs).bind fun u u' s₂ s₂' _ hs₂ => .done rfl hs₂
  · exact .done rfl hs

theorem bindsTighter_related (m : Int) :
    c.Related Eq (σ.bindsTighter m s) (σ'.bindsTighter m s') := by
  refine (c.peek h).bind fun t t' s₁ s₁' ht hs => .done ?_ hs
  have hstrength : σ.strength t.kind = σ'.strength t'.kind := by
    unfold Setting.strength
    rw [c.infixRole ht, c.kind ht]
  rw [hstrength]

theorem close_related (k : Kind) :
    c.Related c.exprs ((s.consume k).bind fun _ s => .done [] s)
      ((s'.consume k).bind fun _ s => .done [] s) :=
  (c.consume_related h k).bind fun _ _ _ _ _ hs => .done c.nil hs

end

/-! ## roles -/

section
variable {parse parse' : Int → Stream → Outcome Expr}
  {more more' : Kind → Kind → Stream → Outcome (List Expr)}
  (hparse : ∀ m s s', c.stream s s' → c.Related c.expr (parse m s) (parse' m s'))
  (hmore : ∀ k k' s s', c.stream s s' → c.Related c.exprs (more k k' s) (more' k k' s'))
  {t t' : Token} {s s' : Stream} (ht : c.token t t') (h : c.stream s s')
include hparse hmore h

theorem cons_related (k k' : Kind) :
    c.Related c.exprs
      ((parse 0 s).bind fun x s => (more k k' s).bind fun xs s => .done (x :: xs) s)
      ((parse' 0 s').bind fun x s => (more' k k' s).bind fun xs s => .done (x :: xs) s) := by
  refine (hparse 0 s s' h).bind fun x x' s₁ s₁' hx hs₁ => ?_
  exact (hmore k k' s₁ s₁' hs₁).bind fun xs xs' s₂ s₂' hxs hs₂ => .done (c.cons hx hxs) hs₂

include ht

theorem items_related (use : Bracket) :
    c.Related c.exprs (σ.items (parse 0) more use t s) (σ'.items (parse' 0) more' use t' s') := by
  unfold Setting.items
  rw [c.closing use]
  cases σ'.grammar.closing? use with
  | none => exact .failed (c.missing _ ht) (c.stream_behind h)
  | some closing =>
    refine (c.accept_related h closing).bind fun closed closed' s₁ s₁' hc hs₁ => ?_
    subst hc
    cases closed with
    | true => exact .done c.nil hs₁
    | false =>
      rw [c.separator]
      cases σ'.grammar.separator? with
      | none => exact .failed (c.missing _ ht) (c.stream_behind hs₁)
      | some separator => exact c.cons_related hparse hmore hs₁ separator closing

theorem operand_related :
    c.Related c.expr (σ.operand parse more t s) (σ'.operand parse' more' t' s') := by
  unfold Setting.operand
  rw [c.prefixRole ht]
  cases σ'.grammar.prefixRole? t'.kind with
  | none => exact .failed (c.misplaced ht) (c.stream_behind h)
  | some role =>
    cases role with
    | leaf => exact c.leaf ht h
    | operator =>
      rw [c.kind ht]
      exact (hparse _ s s' h).bind fun x x' s₁ s₁' hx hs => .done (c.prefixed ht hx) hs
    | grouping =>
      simp only [c.closing]
      cases σ'.grammar.closing? .grouping with
      | none => exact .failed (c.missing _ ht) (c.stream_behind h)
      | some closing =>
        refine (hparse 0 s s' h).bind fun x x' s₁ s₁' hx hs₁ => ?_
        exact (c.consume_related hs₁ closing).bind
          fun _ _ s₂ s₂' _ hs₂ => .done (c.group ht hx) hs₂
    | array =>
      exact (c.items_related hparse hmore ht h .array).bind
        fun xs xs' s₁ s₁' hxs hs => .done (c.array ht hxs) hs

theorem extend_related {left left' : Expr} (hl : c.expr left left') :
    c.Related c.expr (σ.extend parse more left t s) (σ'.extend parse' more' left' t' s') := by
  have binary_related (m : Int) :
      c.Related c.expr ((parse m s).bind fun right s => .done (.binary t left right) s)
        ((parse' m s').bind fun right s => .done (.binary t' left' right) s) :=
    (hparse m s s' h).bind fun x x' s₁ s₁' hx hs => .done (c.binary ht hl hx) hs
  unfold Setting.extend
  rw [c.infixRole ht, c.kind ht]
  cases σ'.grammar.infixRole? t'.kind with
  | none => exact .failed (c.misplaced ht) (c.stream_behind h)
  | some role =>
    cases role with
    | left => exact binary_related _
    | right => exact binary_related _
    | suffix => exact .done (c.suffixed ht hl) h
    | call =>
      exact (c.items_related hparse hmore ht h .call).bind
        fun xs xs' s₁ s₁' hxs hs => .done (c.call ht hl hxs) hs

end

/-! ## every call -/

/-- the three calls keep step, whatever the number of steps -/
theorem run_related (n : Nat) :
    (∀ m s s', c.stream s s' → c.Related c.expr (σ.parseAt n m s) (σ'.parseAt n m s')) ∧
    (∀ m left left' s s', c.expr left left' → c.stream s s' →
      c.Related c.expr (σ.climb n m left s) (σ'.climb n m left' s')) ∧
    (∀ k k' s s', c.stream s s' →
      c.Related c.exprs (σ.more n k k' s) (σ'.more n k k' s')) := by
  induction n with
  | zero =>
    refine ⟨fun m s s' h => ?_, fun m left left' s s' hl h => ?_, fun k k' s s' h => ?_⟩
    · rw [Setting.parseAt, Setting.parseAt]
      exact .unfinished
    · rw [Setting.climb, Setting.climb]
      refine (c.bindsTighter_related h m).bind fun tighter tighter' s₁ s₁' hb hs₁ => ?_
      subst hb
      cases tighter with
      | true => exact .unfinished
      | false => exact .done hl hs₁
    · rw [Setting.more, Setting.more]
      refine (c.accept_related h k).bind fun goesOn goesOn' s₁ s₁' hb hs₁ => ?_
      subst hb
      cases goesOn with
      | true => exact .unfinished
      | false => exact c.close_related hs₁ k'
  | succ n ih =>
    obtain ⟨ihparse, ihclimb, ihmore⟩ := ih
    refine ⟨fun m s s' h => ?_, fun m left left' s s' hl h => ?_, fun k k' s s' h => ?_⟩
    · rw [Setting.parseAt, Setting.parseAt]
      refine (c.pop h).bind fun t t' s₁ s₁' ht hs₁ => ?_
      exact (c.operand_related ihparse ihmore ht hs₁).bind (ihclimb m)
    · rw [Setting.climb, Setting.climb]
      refine (c.bindsTighter_related h m).bind fun tighter tighter' s₁ s₁' hb hs₁ => ?_
      subst hb
      cases tighter with
      | true =>
        refine (c.pop hs₁).bind fun t t' s₂ s₂' ht hs₂ => ?_
        exact (c.extend_related ihparse ihmore ht hs₂ hl).bind (ihclimb m)
      | false => exact .done hl hs₁
    · rw [Setting.more, Setting.more]
      refine (c.accept_related h k).bind fun goesOn goesOn' s₁ s₁' hb hs₁ => ?_
      subst hb
      cases goesOn with
      | true => exact c.cons_related ihparse ihmore hs₁ k k'
      | false => exact c.close_related hs₁ k'

section
variable {s s' : Stream} (h : c.stream s s') (hbudget : s.budget = s'.budget)
include h hbudget

theorem parseFrom_related (m : Int) : c.Related c.expr (σ.parseFrom m s) (σ'.parseFrom m s') := by
  unfold Setting.parseFrom
  rw [hbudget]
  exact (c.run_related s'.budget).1 m s s' h

theorem parse_related : c.Related c.expr (σ.parse s) (σ'.parse s') := by
  refine (c.parseFrom_related h hbudget 0).bind fun e e' s₁ s₁' he hs₁ => ?_
  refine (c.peek hs₁).bind fun t t' s₂ s₂' ht hs₂ => ?_
  unfold Token.isEnding
  rw [c.kind ht]
  split
  · exact .done he hs₂
  · exact .failed (c.misplaced ht) (c.stream_behind hs₂)

end

end Comparison

/-! ## comparison by equality -/

/-- the settings do the same with these tokens -/
structure Setting.AgreeOn (σ σ' : Setting) (these : Token → Prop) : Prop where
  radix : σ.radix = σ'.radix
  prefixRole : ∀ t, these t → σ.grammar.prefixRole? t.kind = σ'.grammar.prefixRole? t.kind
  infixRole : ∀ t, these t → σ.grammar.infixRole? t.kind = σ'.grammar.infixRole? t.kind
  isNumber : ∀ t, these t → σ.isNumber t.lexeme = σ'.isNumber t.lexeme
  closing : ∀ use, σ.grammar.closing? use = σ'.grammar.closing? use
  separator : σ.grammar.separator? = σ'.grammar.separator?

theorem Setting.AgreeOn.refl (σ : Setting) (these : Token → Prop) : σ.AgreeOn σ these :=
  ⟨rfl, fun _ _ => rfl, fun _ _ => rfl, fun _ _ => rfl, fun _ => rfl, rfl⟩

/-- equal errors -/
def Pairing.exact (stream behind : Stream → Stream → Prop) : Pairing := ⟨stream, behind, Eq⟩

/-- equal tokens, errors and expressions, by settings that agree on the tokens of the streams -/
def Comparison.exact {σ σ' : Setting} {these : Token → Prop} (hagree : σ.AgreeOn σ' these)
    (stream behind : Stream → Stream → Prop)
    (peek : ∀ {s s'}, stream s s' →
      (Pairing.exact stream behind).Related (fun t t' => t = t' ∧ these t) s.peek s'.peek)
    (pop : ∀ {s s'}, stream s s' →
      (Pairing.exact stream behind).Related (fun t t' => t = t' ∧ these t) s.pop s'.pop)
    (stream_behind : ∀ {s s'}, stream s s' → behind s s') : Comparison σ σ' where
  toPairing := .exact stream behind
  token t t' := t = t' ∧ these t
  expr := Eq
  exprs := Eq
  peek := peek
  pop := pop
  stream_behind := stream_behind
  kind h := by rw [h.1]
  prefixRole := by
    rintro t t' ⟨rfl, ht⟩
    exact hagree.prefixRole t ht
  infixRole := by
    rintro t t' ⟨rfl, ht⟩
    exact hagree.infixRole t ht
  closing := hagree.closing
  separator := hagree.separator
  misplaced h := by
    rw [h.1]
    exact rfl
  missing label h := by
    rw [h.1]
    exact rfl
  unexpected name h := by
    rw [h.1]
    exact rfl
  leaf := by
    rintro t t' s s' ⟨rfl, ht⟩ hs
    unfold Setting.leaf
    rw [hagree.isNumber t ht, hagree.radix]
    split
    · split
      · exact .done rfl hs
      · exact .failed rfl (stream_behind hs)
    · exact .done rfl hs
  prefixed ht hx := by rw [ht.1, hx]
  binary ht hx hy := by rw [ht.1, hx, hy]
  suffixed ht hx := by rw [ht.1, hx]
  group ht hx := by rw [ht.1, hx]
  call ht hx hxs := by rw [ht.1, hx, hxs]
  array ht hxs := by rw [ht.1, hxs]
  nil := rfl
  cons hx hxs := by rw [hx, hxs]

/-! ## one parse -/

/-- a stream beside itself, as long as it has a property -/
def Pairing.self (I : Stream → Prop) : Pairing :=
  .exact (fun s s' => s = s' ∧ I s) (fun s s' => s = s' ∧ I s)

theorem Pairing.Related.keeps {I : Stream → Prop} {α : Type} {value : α → α → Prop}
    {o o' : Outcome α} (h : (Pairing.self I).Related value o o') : ∀ s ∈ o.after?, I s := by
  intro s hs
  cases h with
  | done _ hstream =>
    cases hs
    exact hstream.2
  | failed _ hbehind =>
    cases hs
    exact hbehind.2
  | unfinished => cases hs

theorem Pairing.related_self {I : Stream → Prop} {o : Outcome Token} (h : ∀ s ∈ o.after?, I s) :
    (Pairing.self I).Related (fun t t' => t = t' ∧ True) o o := by
  cases o with
  | done t s => exact .done ⟨rfl, trivial⟩ ⟨rfl, h s rfl⟩
  | failed e s => exact .failed rfl ⟨rfl, h s rfl⟩
  | unfinished => exact .unfinished

/-- what looking at a token and taking one keep of a stream, a parse keeps, whether it succeeds or
not -/
theorem Setting.run_keeps (σ : Setting) {I : Stream → Prop}
    (hpeek : ∀ s, I s → ∀ s' ∈ s.peek.after?, I s')
    (hpop : ∀ s, I s → ∀ s' ∈ s.pop.after?, I s') {s : Stream} (hs : I s) :
    (∀ m, ∀ s' ∈ (σ.parseFrom m s).after?, I s') ∧ ∀ s' ∈ (σ.parse s).after?, I s' := by
  let c : Comparison σ σ := Comparison.exact (AgreeOn.refl σ fun _ => True)
    (Pairing.self I).stream (Pairing.self I).behind
    (by
      rintro s s' ⟨rfl, hs⟩
      exact Pairing.related_self (hpeek s hs))
    (by
      rintro s s' ⟨rfl, hs⟩
      exact Pairing.related_self (hpop s hs))
    (fun h => h)
  have hstream : c.stream s s := ⟨rfl, hs⟩
  exact ⟨fun m => Pairing.Related.keeps ((c.run_related s.budget).1 m s s hstream),
    Pairing.Related.keeps (c.parse_related hstream rfl)⟩

end Calculator
