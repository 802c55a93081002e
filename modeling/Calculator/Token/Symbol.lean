import Calculator.Ordered
import Calculator.Token.Basic

/-!
# The symbols of the two calculators

A calculator works in one of two modes.  Each mode gives a kind to the symbols that it knows; the
bang stands behind its operand in scientific mode and before it in programmer mode, and shifts and
bit operators belong to programmer mode alone.

* `Symbol.kind? mode`   the kind of a symbol in a mode;
* `Mode.kinds`          all kinds of a mode;
* `sortByName`          kinds in the order of their names, kinds of one name as they came.
-/

namespace Calculator

inductive Mode where
  | scientific
  | programmer
deriving DecidableEq

inductive Symbol where
  | plus | minus | asterisk | forwardSlash | percent | caret | comma | period
  | leftParenthesis | rightParenthesis | leftBracket | rightBracket | leftBrace | rightBrace
  | bang | quote | rightLambda | leftShift | rightShift
  | tilde | negation | logicalOr | logicalAnd | or | and
deriving DecidableEq

namespace Symbol

/-- every symbol once -/
def all : List Symbol :=
  [plus, minus, asterisk, forwardSlash, percent, caret, comma, period,
    leftParenthesis, rightParenthesis, leftBracket, rightBracket, leftBrace, rightBrace,
    bang, quote, rightLambda, leftShift, rightShift,
    tilde, negation, logicalOr, logicalAnd, or, and]

/-- the key of a symbol in the tables -/
def key : Symbol → String
  | plus => "plus"
  | minus => "minus"
  | asterisk => "asterisk"
  | forwardSlash => "forwardSlash"
  | percent => "percent"
  | caret => "caret"
  | comma => "comma"
  | period => "period"
  | leftParenthesis => "leftParenthesis"
  | rightParenthesis => "rightParenthesis"
  | leftBracket => "leftBracket"
  | rightBracket => "rightBracket"
  | leftBrace => "leftBrace"
  | rightBrace => "rightBrace"
  | bang => "bang"
  | quote => "quote"
  | rightLambda => "rightLambda"
  | leftShift => "leftShift"
  | rightShift => "rightShift"
  | tilde => "tilde"
  | negation => "negation"
  | logicalOr => "logicalOr"
  | logicalAnd => "logicalAnd"
  | or => "or"
  | and => "and"

/-- the symbol with a key -/
def ofKey? (s : String) : Option Symbol := all.find? (·.key = s)

/-- the kind of a symbol that only programmer mode knows -/
def programmerOnly (k : Kind) : Mode → Option Kind
  | .scientific => none
  | .programmer => some k

/-- the kind of a symbol in a mode -/
def kind? (mode : Mode) : Symbol → Option Kind
  | plus => some ⟨['+'], .infix3⟩
  | minus => some ⟨['-'], .infix3⟩
  | asterisk => some ⟨['*'], .infix2⟩
  | forwardSlash => some ⟨['/'], .infix2⟩
  | percent => programmerOnly ⟨['%'], .infix2⟩ mode
  | caret => some ⟨['^'], .infix1⟩
  | comma => some ⟨[','], .lowest⟩
  | period => some ⟨['.'], .prefix1⟩
  | leftParenthesis => some ⟨['('], .highest⟩
  | rightParenthesis => some ⟨[')'], .lowest⟩
  | leftBracket => some ⟨['['], .highest⟩
  | rightBracket => some ⟨[']'], .lowest⟩
  | leftBrace => some ⟨['\x7b'], .highest⟩
  | rightBrace => some ⟨['\x7d'], .lowest⟩
  | bang =>
    match mode with
    | .scientific => some ⟨['!'], .postfix1⟩
    | .programmer => some ⟨['!'], .prefix1⟩
  | quote => some ⟨['\x27'], .postfix2⟩
  | rightLambda => some ⟨['-', '>'], .infix4⟩
  | leftShift => programmerOnly ⟨['<', '<'], .caretLowest⟩ mode
  | rightShift => programmerOnly ⟨['>', '>'], .caretLowest⟩ mode
  | tilde => programmerOnly ⟨['~'], .prefix1⟩ mode
  | negation => programmerOnly ⟨['¬'], .prefix1⟩ mode
  | logicalOr => programmerOnly ⟨['∨'], .infix1⟩ mode
  | logicalAnd => programmerOnly ⟨['∧'], .infix2⟩ mode
  | or => programmerOnly ⟨['|'], .infix1⟩ mode
  | and => programmerOnly ⟨['&'], .infix2⟩ mode

theorem mem_all (s : Symbol) : s ∈ all := by cases s <;> decide

end Symbol

/-- all kinds of a mode -/
def Mode.kinds (mode : Mode) : List Kind := Symbol.all.filterMap (Symbol.kind? mode)

/-! ## kinds in order of their names -/

/-- the name of `a` does not come behind the one of `b` -/
def Kind.NotAfter (a b : Kind) : Prop := Ordered.before b.name a.name = false

instance : DecidableRel Kind.NotAfter := fun a b =>
  inferInstanceAs (Decidable (Ordered.before b.name a.name = false))

/-- the kinds in the order of their names by code points -/
def sortByName (ks : List Kind) : List Kind := ks.mergeSort (·.NotAfter ·)

end Calculator
