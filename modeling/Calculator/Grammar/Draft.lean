import Calculator.Error
import Calculator.Grammar.Basic
import Calculator.Text.Alphabetic
import Calculator.Text.Blank
import Calculator.Text.Numeric

/-!
# Putting a grammar together

A grammar is assembled by registrations.  Each one is checked against what is there: a character
has to belong to its class, roles need a registered kind, delimiters need registered punctuators,
and the delimiters, the separator and the kind of names can be set only once.

* `Registration`     one thing to register;
* `Draft.register`   checks and registers it;
* `Draft.batch`      several registrations that succeed or fail as one;
* `Draft.run`        batch after batch: a batch that fails leaves the draft as it was;
* `Draft.build`      the grammar, if every registration succeeds.
-/

namespace Calculator

/-- one thing to register -/
inductive Registration where
  | whitespace (c : Char)
  | punctuator (c : Char)
  | letter (c : Char)
  | digit (c : Char)
  | keyword (word : List Char)
  | kind (k : Kind)
  | prefixRole (k : Kind) (role : PrefixRole)
  | infixRole (k : Kind) (role : InfixRole)
  | delimiters (use : Bracket) (characters : List Char)
  | separator (c : Char)
  | nameKind (k : Kind)
deriving DecidableEq

/-- a grammar in the making; letters of any script may be digits when `nonDecimal` is set -/
structure Draft where
  grammar : Grammar
  nonDecimal : Bool

namespace Draft

/-- the draft to start from -/
def start (nonDecimal : Bool) : Draft := ⟨.empty, nonDecimal⟩

/-- the classes that a punctuator must not belong to -/
def isReserved (c : Char) : Bool := Text.isBlank c || Text.isAlphabetic c || Text.isNumeric c

/-- can the character be registered as a digit -/
def acceptsDigit (d : Draft) (c : Char) : Bool :=
  if d.nonDecimal then Text.isAlphabetic c || Text.isNumeric c else c.isDigit

variable (d : Draft)

def changeAlphabet (f : Alphabet → Alphabet) : Draft :=
  { d with grammar := { d.grammar with alphabet := f d.grammar.alphabet } }

/-- goes on when the check holds -/
def require (check : Bool) (cause : Cause) (next : Draft) : Except Error Draft :=
  if check then .ok next else .error (.assembly cause)

/-- a role and the kind of names need a registered kind -/
def requireKind (k : Kind) (next : Draft) : Except Error Draft :=
  require (d.grammar.isKind k) (.unknownKind k.describe.toList) next

/-- delimiters and the separator have to be punctuators -/
def requirePunctuator (c : Char) (next : Except Error Draft) : Except Error Draft :=
  if d.grammar.isPunctuator c then next else .error (.assembly (.unregisteredDelimiter c))

/-- the fields that can be set only once -/
def requireUnset {α : Type} (current : Option α) (field : String)
    (next : Except Error Draft) : Except Error Draft :=
  if current.isSome then .error (.assembly (.fieldAlreadySet field)) else next

/-- sets a pair of delimiters: first time, two characters, both punctuators -/
def setDelimiters (use : Bracket) (characters : List Char) : Except Error Draft :=
  requireUnset (d.grammar.pair use) use.label <|
    match characters with
    | [opening, closing] =>
      d.requirePunctuator opening <| d.requirePunctuator closing <|
        .ok { d with grammar := d.grammar.setPair (opening, closing) use }
    | _ => .error (.assembly (.delimiterCount characters.length))

/-- checks one registration and makes it -/
def register : Registration → Except Error Draft
  | .whitespace c =>
    require (Text.isBlank c) (.charNotWhitespace c)
      (d.changeAlphabet fun a => { a with whitespace := a.whitespace.insert c })
  | .punctuator c =>
    require (!isReserved c) (.charNotPunctuator c)
      (d.changeAlphabet fun a => { a with punctuators := a.punctuators.insert c })
  | .letter c =>
    require (Text.isAlphabetic c) (.charNotLetter c)
      (d.changeAlphabet fun a => { a with letters := a.letters.insert c })
  | .digit c =>
    require (d.acceptsDigit c) (.charNotDigit c)
      (d.changeAlphabet fun a => { a with digits := a.digits.insert c })
  | .keyword word =>
    .ok (d.changeAlphabet fun a => { a with keywords := a.keywords.insert word })
  | .kind k => .ok { d with grammar := d.grammar.addKind k }
  | .prefixRole k role =>
    d.requireKind k
      { d with grammar := d.grammar.update k fun e => { e with prefixRole := some role } }
  | .infixRole k role =>
    d.requireKind k
      { d with grammar := d.grammar.update k fun e => { e with infixRole := some role } }
  | .delimiters use characters => d.setDelimiters use characters
  | .separator c =>
    requireUnset d.grammar.separator "argument separator" <|
      d.requirePunctuator c (.ok { d with grammar := { d.grammar with separator := some c } })
  | .nameKind k =>
    requireUnset d.grammar.nameKind "name type" <|
      d.requireKind k { d with grammar := { d.grammar with nameKind := some k } }

/-- makes registrations in turn; the first refusal is the result -/
def batch (d : Draft) : List Registration → Except Error Draft
  | [] => .ok d
  | r :: rs =>
    match d.register r with
    | .error e => .error e
    | .ok d' => batch d' rs

/-- makes batches in turn and tells how each one went; a batch that fails changes nothing -/
def run (d : Draft) : List (List Registration) → Draft × List (Option Error)
  | [] => (d, [])
  | rs :: rest =>
    match d.batch rs with
    | .error e => let after := run d rest; (after.1, some e :: after.2)
    | .ok d' => let after := run d' rest; (after.1, none :: after.2)

/-- the grammar of registrations that all succeed -/
def build (nonDecimal : Bool) (rs : List Registration) : Except Error Grammar :=
  match (start nonDecimal).batch rs with
  | .error e => .error e
  | .ok d => .ok d.grammar

theorem batch_append (rs ss : List Registration) :
    d.batch (rs ++ ss) =
      match d.batch rs with
      | .error e => .error e
      | .ok d' => d'.batch ss := by
  induction rs generalizing d with
  | nil => rfl
  | cons r rs ih =>
    rw [List.cons_append, batch, batch]
    cases d.register r with
    | error e => rfl
    | ok d' => exact ih d'

end Draft
end Calculator
