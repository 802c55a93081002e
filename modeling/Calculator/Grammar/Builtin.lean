import Calculator.Grammar.Draft
import Calculator.Token.Symbol

/-!
# The two built-in grammars

Scientific mode has decimal digits and names of letters of either case.  Programmer mode has
digits up to `Z`, so only lower-case letters are left for names.  Both know the same delimiters.

* `Mode.prefixRoles`, `Mode.infixRoles`   what the symbols of a mode do;
* `Mode.roles`                            their registrations;
* `Mode.listing`                          everything a mode registers, its kinds as they are listed;
* `Mode.registrations`                    the same, its kinds by name;
* `Mode.grammar`                          the grammar of a mode.
-/

namespace Calculator

/-- the characters from `lo` to `hi` -/
def charRange (lo hi : Char) : List Char :=
  (List.range (hi.toNat + 1 - lo.toNat)).map fun i => Char.ofNat (lo.toNat + i)

namespace Mode

/-- what symbols do where an operand is expected -/
def prefixRoles : Mode → List (Symbol × PrefixRole)
  | scientific =>
    [(.leftParenthesis, .grouping), (.leftBrace, .array), (.plus, .operator), (.minus, .operator),
      (.period, .operator)]
  | programmer =>
    [(.leftParenthesis, .grouping), (.leftBrace, .array), (.plus, .operator), (.minus, .operator),
      (.period, .operator), (.bang, .operator), (.tilde, .operator), (.negation, .operator)]

/-- what symbols do behind an operand -/
def infixRoles : Mode → List (Symbol × InfixRole)
  | scientific =>
    [(.plus, .left), (.minus, .left), (.asterisk, .left), (.forwardSlash, .left),
      (.caret, .right), (.rightLambda, .right),
      (.bang, .suffix), (.quote, .suffix), (.leftBracket, .call)]
  | programmer =>
    [(.plus, .left), (.minus, .left), (.asterisk, .left), (.forwardSlash, .left), (.percent, .left),
      (.or, .left), (.and, .left), (.logicalOr, .left), (.logicalAnd, .left),
      (.caret, .right), (.rightLambda, .right), (.leftShift, .right), (.rightShift, .right),
      (.quote, .suffix), (.leftBracket, .call)]

/-- the registrations that attach a mode's roles to its kinds -/
def roles (mode : Mode) : List Registration :=
  .prefixRole Kind.word .leaf
    :: mode.prefixRoles.filterMap (fun (s, role) => (s.kind? mode).map (.prefixRole · role))
    ++ mode.infixRoles.filterMap (fun (s, role) => (s.kind? mode).map (.infixRole · role))

def punctuators : Mode → List Char
  | scientific =>
    ['(', ')', '[', ']', '\x7b', '\x7d', '.', ',', '+', '-', '*', '/', '^', '!', '\x27', '>']
  | programmer =>
    ['(', ')', '[', ']', '\x7b', '\x7d', '.', ',', '+', '-', '*', '/', '^', '\x27', '>', '~', '¬',
      '∧', '∨', '|', '&', '%', '<', '!']

def letters : Mode → List Char
  | scientific => charRange 'A' 'Z' ++ charRange 'a' 'z'
  | programmer => charRange 'a' 'z'

def digits : Mode → List Char
  | scientific => charRange '0' '9'
  | programmer => charRange '0' '9' ++ charRange 'A' 'Z'

/-- does the mode take letters as digits -/
def nonDecimal : Mode → Bool
  | scientific => false
  | programmer => true

/-- everything a mode registers; the kinds go in as they are listed -/
def listing (mode : Mode) (kinds : List Kind) : List Registration :=
  [' ', '\t', '\r', '\n'].map .whitespace
    ++ mode.punctuators.map .punctuator
    ++ mode.letters.map .letter
    ++ mode.digits.map .digit
    ++ kinds.map .kind
    ++ [.kind Kind.word, .nameKind Kind.word,
        .delimiters .grouping ['(', ')'],
        .delimiters .call ['[', ']'],
        .delimiters .array ['\x7b', '\x7d'],
        .separator ',']
    ++ mode.roles

/-- everything a mode registers; the kinds go in by name, in whatever order they are given -/
def registrations (mode : Mode) (kinds : List Kind) : List Registration :=
  mode.listing (sortByName kinds)

/-- the grammar of a mode -/
def grammar (mode : Mode) : Except Error Grammar :=
  Draft.build mode.nonDecimal (mode.registrations mode.kinds)

end Mode
end Calculator
