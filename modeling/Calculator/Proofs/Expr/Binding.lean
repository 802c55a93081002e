import Calculator.Proofs.Expr.InOrder

/-!
# Which trees precedence allows

An operator that takes a right operand reads it at a threshold and stays open at its right end:
whatever comes next is taken by the innermost open operator whose threshold it exceeds.  So a node
may stand around a left operand only if it is not above any threshold that the operand left open,
and it has to be above the threshold of its own context.

* `Grammar.rightThreshold`   where the right operand of an operator is read: at its strength, one
                             below for an operator that groups to the right;
* `Expr.openOnRight`         the thresholds still open at the right end of an expression;
* `Expr.WellBound g m e`     `e` is a tree that precedence allows above the threshold `m`;
* `Expr.Built σ e`           every node is what the role of its token's kind makes, and leaves are
                             numbers or names as their lexemes say;
* `Expr.built_unplaced`, `Expr.wellBound_unplaced`   positions do not count;
* `Expr.exists_spelled`      a row of tokens that reads like the tree spells the tree with its
                             tokens placed as they stand in the row.
-/

namespace Calculator

/-- where the right operand of a binary operator is read -/
def Grammar.rightThreshold (g : Grammar) (k : Kind) : Int :=
  match g.infixRole? k with
  | some .right => k.strength - 1
  | _ => k.strength

theorem Grammar.rightThreshold_left {g : Grammar} {k : Kind} (h : g.infixRole? k = some .left) :
    g.rightThreshold k = k.strength := by
  unfold Grammar.rightThreshold
  rw [h]

theorem Grammar.rightThreshold_right {g : Grammar} {k : Kind} (h : g.infixRole? k = some .right) :
    g.rightThreshold k = k.strength - 1 := by
  unfold Grammar.rightThreshold
  rw [h]

/-! a kind without an infix role does not bind, and one with a role binds as it says -/

theorem Setting.strength_of_infixRole {σ : Setting} {k : Kind} {r : InfixRole}
    (h : σ.grammar.infixRole? k = some r) : σ.strength k = k.strength := by
  unfold Setting.strength
  rw [h]

theorem Setting.strength_of_noInfix {σ : Setting} {k : Kind}
    (h : σ.grammar.infixRole? k = none) : σ.strength k = 0 := by
  unfold Setting.strength
  rw [h]

namespace Expr

section
variable (g : Grammar)

/-- the thresholds still open at the right end of an expression -/
def openOnRight : Expr → List Int
  | name _ => []
  | number _ _ => []
  | prefixed t x => t.kind.strength :: x.openOnRight
  | binary t _ r => g.rightThreshold t.kind :: r.openOnRight
  | suffixed _ _ => []
  | group _ _ => []
  | call _ _ _ => []
  | array _ _ => []

mutual

/-- precedence allows the tree above the threshold: a node behind an operand exceeds the threshold
and no threshold that its operand left open, and everything else is read at a threshold of its
own -/
def WellBound : Int → Expr → Prop
  | _, name _ => True
  | _, number _ _ => True
  | _, prefixed t x => WellBound t.kind.strength x
  | m, binary t l r =>
    m < t.kind.strength ∧ WellBound m l ∧ (∀ b ∈ l.openOnRight g, t.kind.strength ≤ b) ∧
      WellBound (g.rightThreshold t.kind) r
  | m, suffixed t x =>
    m < t.kind.strength ∧ WellBound m x ∧ (∀ b ∈ x.openOnRight g, t.kind.strength ≤ b)
  | _, group _ x => WellBound 0 x
  | m, call x t xs =>
    m < t.kind.strength ∧ WellBound m x ∧ (∀ b ∈ x.openOnRight g, t.kind.strength ≤ b) ∧
      WellBoundAll xs
  | _, array _ xs => WellBoundAll xs

/-- precedence allows every item of a list above threshold 0 -/
def WellBoundAll : List Expr → Prop
  | [] => True
  | x :: xs => WellBound 0 x ∧ WellBoundAll xs

end

end

section
variable (σ : Setting)

mutual

/-- every node is what the role of its token's kind makes; a bracketed node also needs the marks
of its brackets in the grammar -/
def Built : Expr → Prop
  | name t => σ.grammar.prefixRole? t.kind = some .leaf ∧ σ.isNumber t.lexeme = false
  | number t v =>
    σ.grammar.prefixRole? t.kind = some .leaf ∧ σ.isNumber t.lexeme = true ∧
      Numeral.parse t.lexeme σ.radix = .ok v
  | prefixed t x => σ.grammar.prefixRole? t.kind = some .operator ∧ x.Built
  | binary t l r =>
    (σ.grammar.infixRole? t.kind = some .left ∨ σ.grammar.infixRole? t.kind = some .right) ∧
      l.Built ∧ r.Built
  | suffixed t x => σ.grammar.infixRole? t.kind = some .suffix ∧ x.Built
  | group t x =>
    σ.grammar.prefixRole? t.kind = some .grouping ∧
      (σ.grammar.closing? .grouping).isSome = true ∧ x.Built
  | call x t xs =>
    σ.grammar.infixRole? t.kind = some .call ∧
      (σ.grammar.closing? .call).isSome = true ∧ x.Built ∧ BuiltItems xs
  | array t xs =>
    σ.grammar.prefixRole? t.kind = some .array ∧
      (σ.grammar.closing? .array).isSome = true ∧ BuiltItems xs

/-- every item is built by its role, and there is a separator unless the list is empty -/
def BuiltItems : List Expr → Prop
  | [] => True
  | x :: xs => σ.grammar.separator?.isSome = true ∧ x.Built ∧ BuiltItems xs

end

end

/-! ## positions do not count -/

theorem openOnRight_unplaced (g : Grammar) (e : Expr) :
    e.unplaced.openOnRight g = e.openOnRight g := by
  induction e using openOnRight.induct with
  | case3 t x ih => rw [unplaced, openOnRight, openOnRight, ih]; rfl
  | case4 t l r ih => rw [unplaced, openOnRight, openOnRight, ih]; rfl
  | _ => rfl

mutual

theorem wellBound_unplaced (g : Grammar) (m : Int) (e : Expr) :
    e.unplaced.WellBound g m ↔ e.WellBound g m := by
  cases e with
  | name t => exact Iff.rfl
  | number t v => exact Iff.rfl
  | prefixed t x => exact wellBound_unplaced g _ x
  | binary t l r =>
    simp only [unplaced, WellBound, Token.unplaced, openOnRight_unplaced, wellBound_unplaced g _ l,
      wellBound_unplaced g _ r]
  | suffixed t x =>
    simp only [unplaced, WellBound, Token.unplaced, openOnRight_unplaced, wellBound_unplaced g _ x]
  | group t x => exact wellBound_unplaced g _ x
  | call x t xs =>
    simp only [unplaced, WellBound, Token.unplaced, openOnRight_unplaced, wellBound_unplaced g _ x,
      wellBoundAll_unplaced g xs]
  | array t xs => exact wellBoundAll_unplaced g xs

theorem wellBoundAll_unplaced (g : Grammar) (xs : List Expr) :
    WellBoundAll g (unplacedList xs) ↔ WellBoundAll g xs := by
  cases xs with
  | nil => exact Iff.rfl
  | cons x xs =>
    simp only [unplacedList, WellBoundAll, wellBound_unplaced g 0 x, wellBoundAll_unplaced g xs]

end

mutual

theorem built_unplaced (σ : Setting) (e : Expr) : e.unplaced.Built σ ↔ e.Built σ := by
  cases e with
  | name t => exact Iff.rfl
  | number t v => exact Iff.rfl
  | prefixed t x => simp only [unplaced, Built, Token.unplaced, built_unplaced σ x]
  | binary t l r =>
    simp only [unplaced, Built, Token.unplaced, built_unplaced σ l, built_unplaced σ r]
  | suffixed t x => simp only [unplaced, Built, Token.unplaced, built_unplaced σ x]
  | group t x => simp only [unplaced, Built, Token.unplaced, built_unplaced σ x]
  | call x t xs =>
    simp only [unplaced, Built, Token.unplaced, built_unplaced σ x, builtItems_unplaced σ xs]
  | array t xs => simp only [unplaced, Built, Token.unplaced, builtItems_unplaced σ xs]

theorem builtItems_unplaced (σ : Setting) (xs : List Expr) :
    BuiltItems σ (unplacedList xs) ↔ BuiltItems σ xs := by
  cases xs with
  | nil => exact Iff.rfl
  | cons x xs =>
    simp only [unplacedList, BuiltItems, built_unplaced σ x, builtItems_unplaced σ xs]

end

/-! ## a row of tokens that reads like the tree -/

theorem closing?_eq_bind (g : Grammar) (use : Bracket) :
    g.closing? use = ((g.pair use).map Prod.snd).bind g.kindOf := by
  unfold Grammar.closing?
  cases g.pair use <;> rfl

theorem mark_of_map {g : Grammar} {o : Option Char} {cs : List Token}
    (h : (o.bind g.kindOf).isSome = true) (hcs : cs.map Token.key = g.keyMark o) :
    ∃ c, cs = [c] ∧ o.bind g.kindOf = some c.kind := by
  obtain ⟨k, hk⟩ := Option.isSome_iff_exists.mp h
  obtain ⟨d, rfl, hd⟩ := Option.bind_eq_some_iff.mp hk
  have hmark : g.keyMark (some d) = [(k, [d])] := by
    show ((g.kindOf d).map _).toList = _
    rw [hd]
    rfl
  rw [hmark] at hcs
  obtain ⟨c, ds, rfl, hc, hds⟩ := List.map_eq_cons_iff.mp hcs
  rw [List.map_eq_nil_iff.mp hds]
  have hck : c.kind = k := congrArg Prod.fst hc
  exact ⟨c, rfl, by rw [hk, hck]⟩

theorem closing_of_map {g : Grammar} {use : Bracket} {cs : List Token}
    (h : (g.closing? use).isSome = true) (hcs : cs.map Token.key = g.keyMarks.closing use) :
    ∃ c, cs = [c] ∧ g.closing? use = some c.kind := by
  rw [closing?_eq_bind] at h ⊢
  exact mark_of_map h hcs

theorem unplaced_of_key {a b : Token} (h : a.key = b.key) : a.unplaced = b.unplaced :=
  (Token.same_iff a b).mp (decide_eq_true h)

mutual

/-- a row of tokens that reads like the tree spells the tree, placed as the tokens stand -/
theorem exists_spelled {σ : Setting} (e : Expr) (ts : List Token) (hb : e.Built σ)
    (h : ts.map Token.key = e.inOrder Token.key σ.grammar.keyMarks) :
    ∃ e' : Expr, e'.unplaced = e.unplaced ∧ e'.Spelled σ.grammar ts := by
  cases e with
  | name t =>
    obtain ⟨u, us, rfl, hu, hus⟩ := List.map_eq_cons_iff.mp h
    rw [List.map_eq_nil_iff.mp hus]
    exact ⟨.name u, congrArg Expr.name (unplaced_of_key hu), rfl⟩
  | number t v =>
    obtain ⟨u, us, rfl, hu, hus⟩ := List.map_eq_cons_iff.mp h
    rw [List.map_eq_nil_iff.mp hus]
    exact ⟨.number u v, congrArg (Expr.number · v) (unplaced_of_key hu), rfl⟩
  | prefixed t x =>
    obtain ⟨u, us, rfl, hu, hus⟩ := List.map_eq_cons_iff.mp h
    obtain ⟨x', hx, hs⟩ := exists_spelled x us hb.2 hus
    exact ⟨.prefixed u x', by rw [unplaced, unplaced, unplaced_of_key hu, hx], us, hs, rfl⟩
  | binary t l r =>
    obtain ⟨us, ws, rfl, hus, hws⟩ := List.map_eq_append_iff.mp h
    obtain ⟨u, vs, rfl, hu, hvs⟩ := List.map_eq_cons_iff.mp hws
    obtain ⟨l', hl, hls⟩ := exists_spelled l us hb.2.1 hus
    obtain ⟨r', hr, hrs⟩ := exists_spelled r vs hb.2.2 hvs
    exact ⟨.binary u l' r', by rw [unplaced, unplaced, unplaced_of_key hu, hl, hr], us, vs, hls,
      hrs, rfl⟩
  | suffixed t x =>
    obtain ⟨us, ws, rfl, hus, hws⟩ := List.map_eq_append_iff.mp h
    obtain ⟨u, vs, rfl, hu, hvs⟩ := List.map_eq_cons_iff.mp hws
    rw [List.map_eq_nil_iff.mp hvs]
    obtain ⟨x', hx, hs⟩ := exists_spelled x us hb.2 hus
    exact ⟨.suffixed u x', by rw [unplaced, unplaced, unplaced_of_key hu, hx], us, hs, rfl⟩
  | group t x =>
    obtain ⟨u, ws, rfl, hu, hws⟩ := List.map_eq_cons_iff.mp h
    obtain ⟨us, vs, rfl, hus, hvs⟩ := List.map_eq_append_iff.mp hws
    obtain ⟨c, rfl, hc⟩ := closing_of_map hb.2.1 hvs
    obtain ⟨x', hx, hs⟩ := exists_spelled x us hb.2.2 hus
    exact ⟨.group u x', by rw [unplaced, unplaced, unplaced_of_key hu, hx], us, c, hs, hc, rfl⟩
  | call x t xs =>
    obtain ⟨us, ws, rfl, hus, hws⟩ := List.map_eq_append_iff.mp h
    obtain ⟨u, zs, rfl, hu, hzs⟩ := List.map_eq_cons_iff.mp hws
    obtain ⟨vs, cs, rfl, hvs, hcs⟩ := List.map_eq_append_iff.mp hzs
    obtain ⟨c, rfl, hc⟩ := closing_of_map hb.2.1 hcs
    obtain ⟨x', hx, hs⟩ := exists_spelled x us hb.2.2.1 hus
    obtain ⟨xs', hxs, hss⟩ := exists_spelledItems xs vs hb.2.2.2 hvs
    exact ⟨.call x' u xs', by rw [unplaced, unplaced, unplaced_of_key hu, hx, hxs], us, vs, c, hs,
      hss, hc, rfl⟩
  | array t xs =>
    obtain ⟨u, zs, rfl, hu, hzs⟩ := List.map_eq_cons_iff.mp h
    obtain ⟨vs, cs, rfl, hvs, hcs⟩ := List.map_eq_append_iff.mp hzs
    obtain ⟨c, rfl, hc⟩ := closing_of_map hb.2.1 hcs
    obtain ⟨xs', hxs, hss⟩ := exists_spelledItems xs vs hb.2.2 hvs
    exact ⟨.array u xs', by rw [unplaced, unplaced, unplaced_of_key hu, hxs], vs, c, hss, hc, rfl⟩

theorem exists_spelledItems {σ : Setting} (xs : List Expr) (ts : List Token)
    (hb : BuiltItems σ xs) (h : ts.map Token.key = inOrderItems Token.key σ.grammar.keyMarks xs) :
    ∃ xs' : List Expr, unplacedList xs' = unplacedList xs ∧ SpelledItems σ.grammar xs' ts := by
  cases xs with
  | nil => exact ⟨[], rfl, List.map_eq_nil_iff.mp h⟩
  | cons x xs =>
    obtain ⟨us, vs, rfl, hus, hvs⟩ := List.map_eq_append_iff.mp h
    obtain ⟨x', hx, hs⟩ := exists_spelled x us hb.2.1 hus
    obtain ⟨xs', hxs, hss⟩ := exists_spelledMore xs vs hb.2.2 hvs
    exact ⟨x' :: xs', by rw [unplacedList, unplacedList, hx, hxs], us, vs, hs, hss, rfl⟩

theorem exists_spelledMore {σ : Setting} (xs : List Expr) (ts : List Token)
    (hb : BuiltItems σ xs) (h : ts.map Token.key = inOrderMore Token.key σ.grammar.keyMarks xs) :
    ∃ xs' : List Expr, unplacedList xs' = unplacedList xs ∧ SpelledMore σ.grammar xs' ts := by
  cases xs with
  | nil => exact ⟨[], rfl, List.map_eq_nil_iff.mp h⟩
  | cons x xs =>
    obtain ⟨cs, ws, rfl, hcs, hws⟩ := List.map_eq_append_iff.mp h
    obtain ⟨c, rfl, hc⟩ := mark_of_map hb.1 hcs
    obtain ⟨us, vs, rfl, hus, hvs⟩ := List.map_eq_append_iff.mp hws
    obtain ⟨x', hx, hs⟩ := exists_spelled x us hb.2.1 hus
    obtain ⟨xs', hxs, hss⟩ := exists_spelledMore xs vs hb.2.2 hvs
    exact ⟨x' :: xs', by rw [unplacedList, unplacedList, hx, hxs], c, us, vs, hc, hs, hss, rfl⟩

end

end Expr
end Calculator
