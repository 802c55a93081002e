import Calculator.Text.Quoted

/-!
# Tokens

A token is a piece of the source together with its kind.  A kind is a name and a level of
precedence; two kinds are the same only if both agree, so the kind that ends a stream and the kind
of words can both have an empty name.

* `Precedence.strength`   how tightly a level binds.  Levels compare by strength alone, and
                          `caretLowest` shares its strength with `infix4`;
* `Kind.ending`           the kind of the token that a lexer gives once its source is used up;
* `Kind.word`             the kind of names and numerals in the built-in grammars;
* `Token.key`             what counts when tokens are compared: the position does not.
-/

namespace Calculator

inductive Precedence where
  | caretHighest
  | highest
  | postfix1
  | postfix2
  | prefix1
  | prefix2
  | infix1
  | infix2
  | infix3
  | infix4
  | lowest
  | caretLowest
deriving DecidableEq

namespace Precedence

/-- how tightly a level binds -/
def strength : Precedence → Int
  | caretHighest => 11
  | highest => 10
  | postfix1 => 8
  | postfix2 => 7
  | prefix1 => 6
  | prefix2 => 5
  | infix1 => 4
  | infix2 => 3
  | infix3 => 2
  | infix4 => 1
  | lowest => 0
  | caretLowest => 1

/-- every level once -/
def all : List Precedence :=
  [caretHighest, highest, postfix1, postfix2, prefix1, prefix2, infix1, infix2, infix3, infix4,
    lowest, caretLowest]

/-- the name of a level in descriptions -/
def label : Precedence → String
  | caretHighest => "CaretHighest"
  | highest => "Highest"
  | postfix1 => "Postfix1"
  | postfix2 => "Postfix2"
  | prefix1 => "Prefix1"
  | prefix2 => "Prefix2"
  | infix1 => "Infix1"
  | infix2 => "Infix2"
  | infix3 => "Infix3"
  | infix4 => "Infix4"
  | lowest => "Lowest"
  | caretLowest => "CaretLowest"

/-- the level with a name -/
def ofLabel? (s : String) : Option Precedence := all.find? (·.label = s)

theorem mem_all (p : Precedence) : p ∈ all := by cases p <;> decide

theorem strength_nonneg (p : Precedence) : 0 ≤ p.strength := by cases p <;> decide

end Precedence

structure Kind where
  name : List Char
  precedence : Precedence
deriving DecidableEq

namespace Kind

/-- the kind that ends a stream -/
def ending : Kind := ⟨[], .lowest⟩

/-- the kind of names and numerals in the built-in grammars -/
def word : Kind := ⟨[], .highest⟩

def strength (k : Kind) : Int := k.precedence.strength

/-- a kind with its fields, as descriptions show it -/
def describe (k : Kind) : String :=
  "Type \x7b name: " ++ Text.quote k.name ++ ", precedence: " ++ k.precedence.label ++ " \x7d"

end Kind

/-- where something starts in the source, counted in characters as a 32-bit word -/
abbrev Position := UInt32

structure Token where
  kind : Kind
  lexeme : List Char
  position : Position
deriving DecidableEq

namespace Token

/-- what counts when tokens are compared -/
def key (t : Token) : Kind × List Char := (t.kind, t.lexeme)

/-- are the tokens the same wherever they stand -/
def same (a b : Token) : Bool := a.key = b.key

def isEnding (t : Token) : Bool := t.kind = Kind.ending

/-- the token at the start of the source -/
def unplaced (t : Token) : Token := { t with position := 0 }

/-- lexeme, name of the kind and strength -/
def text (t : Token) : String :=
  String.ofList t.lexeme ++ ":" ++ String.ofList t.kind.name ++ s!":{t.kind.strength}"

theorem same_iff (a b : Token) : a.same b = true ↔ a.unplaced = b.unplaced := by
  obtain ⟨k, l, p⟩ := a
  obtain ⟨k', l', p'⟩ := b
  simp [same, key, unplaced]

end Token
end Calculator
