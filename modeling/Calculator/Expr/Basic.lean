import Calculator.Numeral.Basic
import Calculator.Token.Basic

/-!
# Expressions

The tree of an expression keeps the tokens it was made from: the name or number, the operator, or
the delimiter that opens a group, a call or an array.

* `Expr.token`, `Expr.children`   the token of a node, and the expressions below it;
* `Expr.position`   where the text of the expression starts, which for a node behind its first
                    operand is where that operand starts;
* `Expr.text`       the expression with a bracket around every node;
* `Expr.preorder`   the node and then the nodes below it, from left to right;
* `Expr.same`       equality that does not look at positions (`Expr.same_iff`).
-/

namespace Calculator

inductive Expr where
  | name (token : Token)
  | number (token : Token) (value : Numeral)
  | prefixed (operator : Token) (operand : Expr)
  | binary (operator : Token) (left right : Expr)
  | suffixed (operator : Token) (operand : Expr)
  | group (opening : Token) (inner : Expr)
  | call (function : Expr) (opening : Token) (arguments : List Expr)
  | array (opening : Token) (elements : List Expr)

namespace Expr

/-- the token of the node itself -/
def token : Expr → Token
  | name t => t
  | number t _ => t
  | prefixed t _ => t
  | binary t _ _ => t
  | suffixed t _ => t
  | group t _ => t
  | call _ t _ => t
  | array t _ => t

/-- the expressions right below a node, from left to right -/
def children : Expr → List Expr
  | name _ => []
  | number _ _ => []
  | prefixed _ x => [x]
  | binary _ l r => [l, r]
  | suffixed _ x => [x]
  | group _ x => [x]
  | call f _ xs => f :: xs
  | array _ xs => xs

/-- where the text of the expression starts -/
def position : Expr → Position
  | name t => t.position
  | number t _ => t.position
  | prefixed t _ => t.position
  | binary _ l _ => l.position
  | suffixed _ x => x.position
  | group t _ => t.position
  | call f _ _ => f.position
  | array t _ => t.position

/-! ## bracketed text -/

/-- words between brackets -/
def bracketed (words : List (List Char)) : List Char :=
  '(' :: List.intercalate [' '] words ++ [')']

mutual

/-- the expression with a bracket around every node -/
def text : Expr → List Char
  | name t => t.lexeme
  | number t _ => t.lexeme
  | prefixed t x => bracketed [t.lexeme, x.text]
  | binary t l r => bracketed [t.lexeme, l.text, r.text]
  | suffixed t x => bracketed ["postfix".toList, t.lexeme, x.text]
  | group _ x => bracketed ["group".toList, x.text]
  | call f _ xs => bracketed ("call".toList :: f.text :: texts xs)
  | array _ xs => bracketed ("array".toList :: texts xs)

def texts : List Expr → List (List Char)
  | [] => []
  | x :: xs => x.text :: texts xs

end

theorem texts_eq_map (xs : List Expr) : texts xs = xs.map text := by
  induction xs with
  | nil => rfl
  | cons x xs ih => rw [texts, ih, List.map_cons]

/-! ## all nodes -/

mutual

/-- the node and then the nodes below it, from left to right -/
def preorder : Expr → List Expr
  | name t => [name t]
  | number t v => [number t v]
  | prefixed t x => prefixed t x :: x.preorder
  | binary t l r => binary t l r :: (l.preorder ++ r.preorder)
  | suffixed t x => suffixed t x :: x.preorder
  | group t x => group t x :: x.preorder
  | call f t xs => call f t xs :: (f.preorder ++ preorders xs)
  | array t xs => array t xs :: preorders xs

def preorders : List Expr → List Expr
  | [] => []
  | x :: xs => x.preorder ++ preorders xs

end

/-! ## equality without positions -/

mutual

/-- are the expressions the same wherever they stand -/
def same : Expr → Expr → Bool
  | name t, name t' => t.same t'
  | number t v, number t' v' => t.same t' && decide (v = v')
  | prefixed t x, prefixed t' x' => t.same t' && x.same x'
  | binary t l r, binary t' l' r' => t.same t' && l.same l' && r.same r'
  | suffixed t x, suffixed t' x' => t.same t' && x.same x'
  | group t x, group t' x' => t.same t' && x.same x'
  | call f t xs, call f' t' xs' => f.same f' && t.same t' && sameList xs xs'
  | array t xs, array t' xs' => t.same t' && sameList xs xs'
  | _, _ => false

def sameList : List Expr → List Expr → Bool
  | [], [] => true
  | x :: xs, y :: ys => x.same y && sameList xs ys
  | _, _ => false

end

mutual

/-- the expression with all its tokens at the start of the source -/
def unplaced : Expr → Expr
  | name t => name t.unplaced
  | number t v => number t.unplaced v
  | prefixed t x => prefixed t.unplaced x.unplaced
  | binary t l r => binary t.unplaced l.unplaced r.unplaced
  | suffixed t x => suffixed t.unplaced x.unplaced
  | group t x => group t.unplaced x.unplaced
  | call f t xs => call f.unplaced t.unplaced (unplacedList xs)
  | array t xs => array t.unplaced (unplacedList xs)

def unplacedList : List Expr → List Expr
  | [] => []
  | x :: xs => x.unplaced :: unplacedList xs

end

mutual

/-- expressions are the same when they differ in positions alone -/
theorem same_iff (a b : Expr) : a.same b = true ↔ a.unplaced = b.unplaced := by
  cases a <;> cases b <;>
    simp only [same, unplaced, Bool.and_eq_true, decide_eq_true_eq, Token.same_iff, reduceCtorEq,
      Bool.false_eq_true, name.injEq, number.injEq, prefixed.injEq, binary.injEq, suffixed.injEq,
      group.injEq, call.injEq, array.injEq]
  case prefixed.prefixed t x t' x' => rw [same_iff x x']
  case binary.binary t l r t' l' r' => rw [same_iff l l', same_iff r r', and_assoc]
  case suffixed.suffixed t x t' x' => rw [same_iff x x']
  case group.group t x t' x' => rw [same_iff x x']
  case call.call f t xs f' t' xs' => rw [same_iff f f', sameList_iff xs xs', and_assoc]
  case array.array t xs t' xs' => rw [sameList_iff xs xs']

theorem sameList_iff (xs ys : List Expr) :
    sameList xs ys = true ↔ unplacedList xs = unplacedList ys := by
  cases xs <;> cases ys <;>
    simp only [sameList, unplacedList, Bool.and_eq_true, reduceCtorEq, Bool.false_eq_true,
      List.cons.injEq]
  case cons.cons x xs y ys => rw [same_iff x y, sameList_iff xs ys]

end

end Expr
end Calculator
