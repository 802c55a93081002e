import Calculator.Grammar.Draft

/-!
# Descriptions of grammars

The text of a grammar and of a draft on one line, field by field: sets between braces, lists
between brackets, a field that is not set as `None`.  Kinds stand in registration order.
-/

namespace Calculator

/-- items with commas between them -/
def commaSeparated (items : List String) : String := String.intercalate ", " items

def describeSet (items : List String) : String := "\x7b" ++ commaSeparated items ++ "\x7d"

def describeList (items : List String) : String := "[" ++ commaSeparated items ++ "]"

def describeOption : Option String → String
  | none => "None"
  | some s => "Some(" ++ s ++ ")"

def describePair (p : Char × Char) : String :=
  "(" ++ Text.quoteChar p.1 ++ ", " ++ Text.quoteChar p.2 ++ ")"

/-- a record: its name and its fields -/
def describeRecord (name : String) (fields : List (String × String)) : String :=
  name ++ " \x7b " ++ commaSeparated (fields.map fun f => f.1 ++ ": " ++ f.2) ++ " \x7d"

/-- a set of characters -/
def describeChars (s : OrdSet Char) : String := describeSet (s.toList.map Text.quoteChar)

/-- the fields of a grammar -/
def Grammar.describe (g : Grammar) : String :=
  describeRecord "Syntax"
    [("whitespace", describeChars g.alphabet.whitespace),
      ("punctuators", describeChars g.alphabet.punctuators),
      ("letters", describeChars g.alphabet.letters),
      ("digits", describeChars g.alphabet.digits),
      ("keywords", describeSet (g.alphabet.keywords.toList.map Text.quote)),
      ("types", describeSet (g.kinds.map Kind.describe)),
      ("prefix_types", describeList (g.prefixKinds.map Kind.describe)),
      ("infix_types", describeList (g.infixKinds.map Kind.describe)),
      ("grouping", describeOption (g.grouping.map describePair)),
      ("function_delimiters", describeOption (g.callDelimiters.map describePair)),
      ("array_delimiters", describeOption (g.arrayDelimiters.map describePair)),
      ("argument_separator", describeOption (g.separator.map Text.quoteChar)),
      ("name_type", describeOption (g.nameKind.map Kind.describe))]

/-- the fields of a draft -/
def Draft.describe (d : Draft) : String :=
  describeRecord "SyntaxBuilder"
    [("syntax", d.grammar.describe),
      ("non_decimal_digits", if d.nonDecimal then "true" else "false")]

end Calculator
