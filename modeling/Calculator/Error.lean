import Calculator.Numeral.Fault
import Calculator.Token.Basic

/-!
# Errors

An error is a cause and the position it points at.  A cause has a name, a category that callers
can branch on, a message, and mostly a tip.

* `Cause`            what went wrong, with the data that the texts show;
* `Cause.name`, `Cause.category`, `Cause.message`, `Cause.tip`   its four faces;
* `Error.message`    the message with the position;
* `Error.assembly`   an error raised while a grammar is put together, which has no position.
-/

namespace Calculator

inductive Cause where
  | charNotWhitespace (character : Char)
  | charNotPunctuator (character : Char)
  | charNotLetter (character : Char)
  | charNotDigit (character : Char)
  | unknownKind (description : List Char)
  | fieldAlreadySet (field : String)
  | delimiterCount (received : Nat)
  | unregisteredDelimiter (character : Char)
  | missingRole (role : String)
  | unknownToken (token : Char)
  | malformedNumeral (numeral : List Char) (fault : Fault)
  | unparseableToken (lexeme : List Char)
  | unexpectedToken (expected found : List Char)
  | unreadableNumber (lexeme : List Char) (radix : Nat)
  | invalidRadix (radix : Nat)
  | invalidRange (start stop length : Nat)
deriving DecidableEq

/-- the categories that callers can branch on -/
inductive Category where
  /-- a registration broke a rule of the grammar -/
  | illFormedGrammar
  /-- a character belongs to no class of the grammar -/
  | unknownToken
  /-- a part of a numeral was empty or out of range -/
  | malformedNumeral
  /-- a token stands where no expression can start or go on -/
  | unparseableToken
  /-- one token was required and another one found -/
  | unexpectedToken
  /-- a setting of the lexer or the parser was refused -/
  | configuration
deriving DecidableEq

namespace Cause

/-- the name of the cause in reports -/
def name : Cause → String
  | charNotWhitespace _ => "CharNotWhitespace"
  | charNotPunctuator _ => "CharNotPunctuator"
  | charNotLetter _ => "CharNotLetter"
  | charNotDigit _ => "CharNotDigit"
  | unknownKind _ => "UnknownType"
  | fieldAlreadySet _ => "FieldAlreadySet"
  | delimiterCount _ => "DelimiterCount"
  | unregisteredDelimiter _ => "UnregisteredDelimiter"
  | missingRole _ => "MissingSyntaxRole"
  | unknownToken _ => "UnknownToken"
  | malformedNumeral _ _ => "MalformedNumeral"
  | unparseableToken _ => "UnparseableToken"
  | unexpectedToken _ _ => "UnexpectedToken"
  | unreadableNumber _ _ => "NumberParseError"
  | invalidRadix _ => "InvalidRadix"
  | invalidRange _ _ _ => "InvalidRange"

def category : Cause → Category
  | charNotWhitespace _ | charNotPunctuator _ | charNotLetter _ | charNotDigit _
  | unknownKind _ | fieldAlreadySet _ | delimiterCount _ | unregisteredDelimiter _
  | missingRole _ => .illFormedGrammar
  | unknownToken _ => .unknownToken
  | malformedNumeral _ _ => .malformedNumeral
  | unparseableToken _ => .unparseableToken
  | unexpectedToken _ _ => .unexpectedToken
  | unreadableNumber _ _ | invalidRadix _ | invalidRange _ _ _ => .configuration

/-- the wording of the cause -/
def message : Cause → String
  | charNotWhitespace c => Text.quoteChar c ++ " is not whitespace"
  | charNotPunctuator c => Text.quoteChar c ++ " is not a punctuator or delimiter"
  | charNotLetter c => Text.quoteChar c ++ " is not a letter"
  | charNotDigit c => Text.quoteChar c ++ " is not a digit"
  | unknownKind d => "unknown type " ++ Text.quote d
  | fieldAlreadySet field => field ++ " has already been set"
  | delimiterCount n => s!"expected 2 delimiters, received {n}"
  | unregisteredDelimiter c => "delimiter " ++ Text.quoteChar c ++ " is not a registered punctuator"
  | missingRole role => "missing " ++ role
  | unknownToken c => "the token " ++ Text.quoteChar c ++ " is unknown"
  | malformedNumeral n fault => "malformed numeral " ++ Text.quote n ++ ": " ++ fault.message
  | unparseableToken t => "unable to parse " ++ Text.quote t
  | unexpectedToken expected found =>
    "unexpected token: expected " ++ Text.quote expected ++ ", found " ++ Text.quote found
  | unreadableNumber t radix => "error parsing number " ++ Text.quote t ++ s!" in radix {radix}"
  | invalidRadix radix => s!"invalid radix {radix}"
  | invalidRange start stop length =>
    s!"invalid source range {start}..{stop} for length {length}"

/-- both kinds of quotes, escaped where a tip sets a character between backticks -/
def bothQuotes : List Char := ['\x27', '"']

/-- text between backticks -/
def ticked (s : List Char) : String := "\x60" ++ String.ofList s ++ "\x60"

/-- advice to the user, if there is any -/
def tip : Cause → Option String
  | charNotWhitespace c =>
    some (ticked (Text.escape bothQuotes c) ++ " cannot be registered as whitespace")
  | charNotPunctuator c =>
    some (ticked (Text.escape bothQuotes c)
      ++ " is a letter, digit or whitespace and cannot be a punctuator")
  | charNotLetter c => some (ticked [c] ++ " is not alphabetic")
  | charNotDigit c =>
    some (ticked [c]
      ++ " is not a decimal digit, build the syntax with non-decimal digits allowed")
  | unknownKind d =>
    some ("Type " ++ ticked d ++ " must be registered before a handler can be attached to it")
  | fieldAlreadySet field => some ("The " ++ field ++ " can only be set once")
  | delimiterCount n => some s!"Expected an open and a close character, received {n}"
  | unregisteredDelimiter c => some ("Register " ++ ticked [c] ++ " as a punctuator first")
  | missingRole role => some ("The syntax does not define a " ++ role)
  | unknownToken _ => none
  | malformedNumeral n fault => some ("Invalid numeral " ++ ticked n ++ ": " ++ fault.message)
  | unparseableToken [] => some "Unexpected end of input"
  | unparseableToken t => some ("Unable to parse " ++ ticked t ++ ", is a delimiter unbalanced?")
  | unexpectedToken expected found =>
    some ("Expected " ++ ticked expected ++ ", found " ++ ticked found)
  | unreadableNumber t radix => some (ticked t ++ s!" is not a number in radix {radix}")
  | invalidRadix radix => some s!"Radix {radix} is outside of the range 2 to 36"
  | invalidRange start stop length =>
    some s!"Range {start}..{stop} does not fit a source of {length} characters"

end Cause

structure Error where
  cause : Cause
  position : Position
deriving DecidableEq

namespace Error

/-- an error without a position in the source -/
def assembly (cause : Cause) : Error := ⟨cause, 0⟩

/-- the error of a token that fits nowhere -/
def misplaced (t : Token) : Error := ⟨.unparseableToken t.lexeme, t.position⟩

/-- the error of a token that needs a delimiter or separator which the grammar does not have -/
def missing (role : String) (t : Token) : Error := ⟨.missingRole role, t.position⟩

/-- the wording of the cause and where it is -/
def message (e : Error) : String := e.cause.message ++ s!" at {e.position}"

end Error
end Calculator
