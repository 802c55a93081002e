import Calculator.Expr.Climb

/-!
# The tokens of an expression in the order of the source

The tree of an expression keeps its own tokens and drops two kinds of marks: the closing delimiter
behind the body of a group, a call or an array, and the separator between two items of a list.
Given what stands for these marks, the tree says which tokens it was read from.

* `Marks`                what stands for the closing delimiters and for a separator;
* `Expr.inOrder f m`     the tree from left to right, each token seen through `f`;
* `Grammar.kindMarks`, `Grammar.keyMarks`   the marks of a grammar as kinds, and as kinds with
                         their lexemes;
* `Expr.Spelled`         a row of tokens spells the expression: its own tokens stand in order, and
                         the marks are tokens of the kinds that the grammar asks for;
* `Expr.map_of_spelled`  a spelling seen through `f` is the tree seen through `f`, as soon as the
                         marks in it are;
* `Expr.inOrder_unplaced`   positions do not count.
-/

set_option linter.unusedSectionVars false

namespace Calculator

/-- what stands for the closing delimiters and for a separator -/
structure Marks (α : Type) where
  closing : Bracket → List α
  separator : List α

/-- the marks of a grammar as kinds -/
def Grammar.kindMarks (g : Grammar) : Marks Kind where
  closing use := (g.closing? use).toList
  separator := g.separator?.toList

/-- a character of the grammar as a mark: its kind with its lexeme -/
def Grammar.keyMark (g : Grammar) (o : Option Char) : List (Kind × List Char) :=
  (o.bind fun c => (g.kindOf c).map (·, [c])).toList

/-- the marks of a grammar as kinds with their lexemes -/
def Grammar.keyMarks (g : Grammar) : Marks (Kind × List Char) where
  closing use := g.keyMark ((g.pair use).map Prod.snd)
  separator := g.keyMark g.separator

namespace Expr

section
variable {α : Type} (f : Token → α) (m : Marks α)

mutual

/-- the expression from left to right, each of its tokens seen through `f` -/
def inOrder : Expr → List α
  | name t => [f t]
  | number t _ => [f t]
  | prefixed t x => f t :: x.inOrder
  | binary t l r => l.inOrder ++ f t :: r.inOrder
  | suffixed t x => x.inOrder ++ [f t]
  | group t x => f t :: (x.inOrder ++ m.closing .grouping)
  | call x t xs => x.inOrder ++ f t :: (inOrderItems xs ++ m.closing .call)
  | array t xs => f t :: (inOrderItems xs ++ m.closing .array)

/-- the items of a list with separators between them -/
def inOrderItems : List Expr → List α
  | [] => []
  | x :: xs => x.inOrder ++ inOrderMore xs

/-- the items behind the first one, each after a separator -/
def inOrderMore : List Expr → List α
  | [] => []
  | x :: xs => m.separator ++ (x.inOrder ++ inOrderMore xs)

end

/-! ## positions do not count -/

variable {f} (hf : ∀ t : Token, f t.unplaced = f t)
include hf

mutual

theorem inOrder_unplaced (e : Expr) : e.unplaced.inOrder f m = e.inOrder f m := by
  cases e with
  | name t => simp only [unplaced, inOrder, hf]
  | number t v => simp only [unplaced, inOrder, hf]
  | prefixed t x => simp only [unplaced, inOrder, hf, inOrder_unplaced x]
  | binary t l r => simp only [unplaced, inOrder, hf, inOrder_unplaced l, inOrder_unplaced r]
  | suffixed t x => simp only [unplaced, inOrder, hf, inOrder_unplaced x]
  | group t x => simp only [unplaced, inOrder, hf, inOrder_unplaced x]
  | call x t xs =>
    simp only [unplaced, inOrder, hf, inOrder_unplaced x, inOrderItems_unplaced xs]
  | array t xs => simp only [unplaced, inOrder, hf, inOrderItems_unplaced xs]

theorem inOrderItems_unplaced (xs : List Expr) :
    inOrderItems f m (unplacedList xs) = inOrderItems f m xs := by
  cases xs with
  | nil => rfl
  | cons x xs =>
    simp only [unplacedList, inOrderItems, inOrder_unplaced x, inOrderMore_unplaced xs]

theorem inOrderMore_unplaced (xs : List Expr) :
    inOrderMore f m (unplacedList xs) = inOrderMore f m xs := by
  cases xs with
  | nil => rfl
  | cons x xs =>
    simp only [unplacedList, inOrderMore, inOrder_unplaced x, inOrderMore_unplaced xs]

end

end

/-! ## spellings -/

section
variable (g : Grammar)

mutual

/-- the tokens spell the expression: its own tokens in order, and marks of the right kinds -/
def Spelled : Expr → List Token → Prop
  | name t, ts => ts = [t]
  | number t _, ts => ts = [t]
  | prefixed t x, ts => ∃ us, x.Spelled us ∧ ts = t :: us
  | binary t l r, ts => ∃ us vs, l.Spelled us ∧ r.Spelled vs ∧ ts = us ++ t :: vs
  | suffixed t x, ts => ∃ us, x.Spelled us ∧ ts = us ++ [t]
  | group t x, ts =>
    ∃ us c, x.Spelled us ∧ g.closing? .grouping = some c.kind ∧ ts = t :: (us ++ [c])
  | call x t xs, ts =>
    ∃ us vs c, x.Spelled us ∧ SpelledItems xs vs ∧ g.closing? .call = some c.kind ∧
      ts = us ++ t :: (vs ++ [c])
  | array t xs, ts =>
    ∃ vs c, SpelledItems xs vs ∧ g.closing? .array = some c.kind ∧ ts = t :: (vs ++ [c])

/-- the tokens spell the items with separators between them -/
def SpelledItems : List Expr → List Token → Prop
  | [], ts => ts = []
  | x :: xs, ts => ∃ us vs, x.Spelled us ∧ SpelledMore xs vs ∧ ts = us ++ vs

/-- the tokens spell the items, each after a separator -/
def SpelledMore : List Expr → List Token → Prop
  | [], ts => ts = []
  | x :: xs, ts =>
    ∃ c us vs, g.separator? = some c.kind ∧ x.Spelled us ∧ SpelledMore xs vs ∧
      ts = c :: (us ++ vs)

end

variable {g} {α : Type} {f : Token → α} {m : Marks α} {p : Token → Prop}
  (hc : ∀ use c, p c → g.closing? use = some c.kind → m.closing use = [f c])
  (hs : ∀ c, p c → g.separator? = some c.kind → m.separator = [f c])
include hc hs

mutual

/-- a spelling seen through `f` is the tree seen through `f`, if the marks in it are -/
theorem map_of_spelled (e : Expr) (ts : List Token) (h : e.Spelled g ts) (hp : ∀ t ∈ ts, p t) :
    ts.map f = e.inOrder f m := by
  cases e with
  | name t => rw [show ts = [t] from h]; rfl
  | number t v => rw [show ts = [t] from h]; rfl
  | prefixed t x =>
    obtain ⟨us, hx, rfl⟩ := h
    have ih := map_of_spelled x us hx (fun u hu => hp u (by simp [hu]))
    rw [List.map_cons, ih, inOrder]
  | binary t l r =>
    obtain ⟨us, vs, hl, hr, rfl⟩ := h
    have ihl := map_of_spelled l us hl (fun u hu => hp u (by simp [hu]))
    have ihr := map_of_spelled r vs hr (fun u hu => hp u (by simp [hu]))
    rw [List.map_append, List.map_cons, ihl, ihr, inOrder]
  | suffixed t x =>
    obtain ⟨us, hx, rfl⟩ := h
    have ih := map_of_spelled x us hx (fun u hu => hp u (by simp [hu]))
    rw [List.map_append, ih, inOrder, List.map_cons, List.map_nil]
  | group t x =>
    obtain ⟨us, c, hx, hk, rfl⟩ := h
    have ih := map_of_spelled x us hx (fun u hu => hp u (by simp [hu]))
    have hm := hc .grouping c (hp c (by simp)) hk
    rw [List.map_cons, List.map_append, ih, inOrder, hm, List.map_cons, List.map_nil]
  | call x t xs =>
    obtain ⟨us, vs, c, hx, hxs, hk, rfl⟩ := h
    have ihx := map_of_spelled x us hx (fun u hu => hp u (by simp [hu]))
    have ihs := map_of_spelledItems xs vs hxs (fun u hu => hp u (by simp [hu]))
    have hm := hc .call c (hp c (by simp)) hk
    rw [List.map_append, List.map_cons, List.map_append, ihx, ihs, inOrder, hm, List.map_cons,
      List.map_nil]
  | array t xs =>
    obtain ⟨vs, c, hxs, hk, rfl⟩ := h
    have ihs := map_of_spelledItems xs vs hxs (fun u hu => hp u (by simp [hu]))
    have hm := hc .array c (hp c (by simp)) hk
    rw [List.map_cons, List.map_append, ihs, inOrder, hm, List.map_cons, List.map_nil]

theorem map_of_spelledItems (xs : List Expr) (ts : List Token) (h : SpelledItems g xs ts)
    (hp : ∀ t ∈ ts, p t) : ts.map f = inOrderItems f m xs := by
  cases xs with
  | nil => rw [show ts = [] from h]; rfl
  | cons x xs =>
    obtain ⟨us, vs, hx, hxs, rfl⟩ := h
    have ihx := map_of_spelled x us hx (fun u hu => hp u (by simp [hu]))
    have ihs := map_of_spelledMore xs vs hxs (fun u hu => hp u (by simp [hu]))
    rw [List.map_append, ihx, ihs, inOrderItems]

theorem map_of_spelledMore (xs : List Expr) (ts : List Token) (h : SpelledMore g xs ts)
    (hp : ∀ t ∈ ts, p t) : ts.map f = inOrderMore f m xs := by
  cases xs with
  | nil => rw [show ts = [] from h]; rfl
  | cons x xs =>
    obtain ⟨c, us, vs, hk, hx, hxs, rfl⟩ := h
    have ihx := map_of_spelled x us hx (fun u hu => hp u (by simp [hu]))
    have ihs := map_of_spelledMore xs vs hxs (fun u hu => hp u (by simp [hu]))
    have hm := hs c (hp c (by simp)) hk
    rw [List.map_cons, List.map_append, ihx, ihs, inOrderMore, hm, List.singleton_append]

end

omit hc hs in
theorem kinds_of_spelled {e : Expr} {ts : List Token} (h : e.Spelled g ts) :
    ts.map Token.kind = e.inOrder Token.kind g.kindMarks := by
  refine map_of_spelled (p := fun _ => True) (fun use c _ hk => ?_) (fun c _ hk => ?_) e ts h
    (fun _ _ => trivial)
  · show (g.closing? use).toList = [c.kind]
    rw [hk, Option.toList_some]
  · show g.separator?.toList = [c.kind]
    rw [hk, Option.toList_some]

end

end Expr
end Calculator
