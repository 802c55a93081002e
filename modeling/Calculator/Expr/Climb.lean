import Calculator.Expr.Basic
import Calculator.Token.Stream

/-!
# Precedence climbing

An expression is an operand followed by everything that binds tighter than a threshold.  The first
token is taken and its kind's prefix role makes the operand; then, as long as the next token binds
tighter than the threshold, it is taken and its infix role makes a larger expression around what
there is.  A token without an infix role binds with strength 0, which is how the ending token
stops every parse.

Every call of `parseAt`, `climb` and `more` that goes on takes a token first, so the steps allowed
count tokens on a path of calls.  `Stream.budget` allows one for each character that is left, one
for each waiting token, and three for the ending token: a grammar can make it an operand, an
operator above a negative threshold, and an operand of that operator.

* `Setting`            the grammar, and the radix in which numbers are read;
* `Setting.operand`    what a prefix role makes of its token;
* `Setting.extend`     what an infix role makes of the expression before its token;
* `Setting.parseAt`    an expression whose operators bind tighter than a threshold;
* `Setting.parse`      a whole expression, which the ending token has to follow.
-/

namespace Calculator

/-- the grammar to parse by, and the radix of numbers without a suffix -/
structure Setting where
  grammar : Grammar
  radix : Nat

namespace Setting

variable (σ : Setting)

/-- does the lexeme start with a digit that is not also a letter -/
def isNumber (lexeme : List Char) : Bool :=
  match lexeme with
  | [] => false
  | c :: _ => σ.grammar.isDigit c && !σ.grammar.isLetter c

/-- a name, or a number that can be read -/
def leaf (t : Token) (s : Stream) : Outcome Expr :=
  if σ.isNumber t.lexeme then
    match Numeral.parse t.lexeme σ.radix with
    | .ok value => .done (.number t value) s
    | .error _ => .failed ⟨.unreadableNumber t.lexeme σ.radix, t.position⟩ s
  else .done (.name t) s

/-- the items of a list up to its closing delimiter, given how to read one item and how to read
what follows it -/
def items (item : Stream → Outcome Expr) (more : Kind → Kind → Stream → Outcome (List Expr))
    (use : Bracket) (opening : Token) (s : Stream) : Outcome (List Expr) :=
  match σ.grammar.closing? use with
  | none => .failed (.missing use.label opening) s
  | some closing =>
    (s.accept closing).bind fun closed s =>
      if closed then .done [] s
      else
        match σ.grammar.separator? with
        | none => .failed (.missing "argument separator" opening) s
        | some separator =>
          (item s).bind fun x s => (more separator closing s).bind fun xs s => .done (x :: xs) s

/-- what a prefix role makes of its token -/
def operand (parse : Int → Stream → Outcome Expr)
    (more : Kind → Kind → Stream → Outcome (List Expr)) (t : Token) (s : Stream) : Outcome Expr :=
  match σ.grammar.prefixRole? t.kind with
  | none => .failed (.misplaced t) s
  | some .leaf => σ.leaf t s
  | some .operator => (parse t.kind.strength s).bind fun x s => .done (.prefixed t x) s
  | some .grouping =>
    match σ.grammar.closing? .grouping with
    | none => .failed (.missing Bracket.grouping.label t) s
    | some closing =>
      (parse 0 s).bind fun x s => (s.consume closing).bind fun _ s => .done (.group t x) s
  | some .array =>
    (σ.items (parse 0) more .array t s).bind fun xs s => .done (.array t xs) s

/-- what an infix role makes of the expression before its token -/
def extend (parse : Int → Stream → Outcome Expr)
    (more : Kind → Kind → Stream → Outcome (List Expr)) (left : Expr) (t : Token) (s : Stream) :
    Outcome Expr :=
  match σ.grammar.infixRole? t.kind with
  | none => .failed (.misplaced t) s
  | some .left => (parse t.kind.strength s).bind fun right s => .done (.binary t left right) s
  | some .right =>
    (parse (t.kind.strength - 1) s).bind fun right s => .done (.binary t left right) s
  | some .suffix => .done (.suffixed t left) s
  | some .call =>
    (σ.items (parse 0) more .call t s).bind fun xs s => .done (.call left t xs) s

/-- how tightly a kind binds behind an operand -/
def strength (k : Kind) : Int :=
  match σ.grammar.infixRole? k with
  | none => 0
  | some _ => k.strength

/-- does the next token bind tighter than the threshold -/
def bindsTighter (threshold : Int) (s : Stream) : Outcome Bool :=
  s.peek.bind fun t s => .done (decide (threshold < σ.strength t.kind)) s

mutual

/-- an expression whose operators bind tighter than the threshold -/
def parseAt : Nat → Int → Stream → Outcome Expr
  | 0, _, _ => .unfinished
  | n + 1, threshold, s =>
    s.pop.bind fun t s =>
      (σ.operand (fun m s => parseAt n m s) (fun k k' s => more n k k' s) t s).bind fun left s =>
        climb n threshold left s

/-- the expression so far with everything behind it that binds tighter than the threshold -/
def climb : Nat → Int → Expr → Stream → Outcome Expr
  | 0, threshold, left, s =>
    (σ.bindsTighter threshold s).bind fun tighter s =>
      if tighter then .unfinished else .done left s
  | n + 1, threshold, left, s =>
    (σ.bindsTighter threshold s).bind fun tighter s =>
      if tighter then
        s.pop.bind fun t s =>
          (σ.extend (fun m s => parseAt n m s) (fun k k' s => more n k k' s) left t s).bind
            fun left s => climb n threshold left s
      else .done left s

/-- the items behind the first one, each after a separator, up to the closing delimiter -/
def more : Nat → Kind → Kind → Stream → Outcome (List Expr)
  | 0, separator, closing, s =>
    (s.accept separator).bind fun goesOn s =>
      if goesOn then .unfinished else (s.consume closing).bind fun _ s => .done [] s
  | n + 1, separator, closing, s =>
    (s.accept separator).bind fun goesOn s =>
      if goesOn then
        (parseAt n 0 s).bind fun x s =>
          (more n separator closing s).bind fun xs s => .done (x :: xs) s
      else (s.consume closing).bind fun _ s => .done [] s

end

end Setting

/-- steps that are enough for every token that can still come -/
def Stream.budget (s : Stream) : Nat := s.waiting.length + s.lexer.rest.length + 3

namespace Setting

variable (σ : Setting)

/-- an expression whose operators bind tighter than the threshold; the steps are enough for all that
is left -/
def parseFrom (threshold : Int) (s : Stream) : Outcome Expr := σ.parseAt s.budget threshold s

/-- a whole expression, which the ending token has to follow -/
def parse (s : Stream) : Outcome Expr :=
  (σ.parseFrom 0 s).bind fun e s =>
    s.peek.bind fun t s => if t.isEnding then .done e s else .failed (.misplaced t) s

end Setting
end Calculator
