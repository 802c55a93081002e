import Calculator.Text.Extending
import Calculator.Text.Hidden
import Calculator.Text.Ignorable

/-!
# Quoted text

How messages show a character or a text taken from the input: between quotes, with escapes for
whatever would not be seen or would end the quotation.

* `isUnseen`          the characters that are written by their code points;
* `escape quotes c`   the written form of one character; `quotes` are the quote characters that
                      need a backslash;
* `quoteChar`         a character between single quotes, the double quote left alone;
* `quote`             a text between double quotes, the single quote left alone.
-/

namespace Calculator.Text

/-- would the character not be seen by itself: it attaches to another one, is shown as nothing, or
has no shape -/
def isUnseen (c : Char) : Bool := isExtending c || isIgnorable c || isHidden c

/-- the form that names the code point, as in `\u{301}` -/
def codePoint (c : Char) : List Char :=
  ['\\', 'u', '\x7b'] ++ Nat.toDigits 16 c.toNat ++ ['\x7d']

/-- the written form of a character, with a backslash before the quotes that are asked for -/
def escape (quotes : List Char) (c : Char) : List Char :=
  if c = '\x00' then ['\\', '0']
  else if c = '\t' then ['\\', 't']
  else if c = '\r' then ['\\', 'r']
  else if c = '\n' then ['\\', 'n']
  else if c = '\\' || quotes.contains c then ['\\', c]
  else if isUnseen c then codePoint c
  else [c]

/-- the character between single quotes -/
def quoteChar (c : Char) : String :=
  String.ofList (['\x27'] ++ escape ['\x27'] c ++ ['\x27'])

/-- the text between double quotes -/
def quote (s : List Char) : String :=
  String.ofList (['"'] ++ s.flatMap (escape ['"']) ++ ['"'])

end Calculator.Text
