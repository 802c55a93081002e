import Calculator.Error
import Calculator.Source.Line
import Calculator.Text.Blank

/-!
# An error shown in its source

    Error: UnknownToken
      |
    1 | 2 + # 3
      | ----^

The line of the error is shown without the spaces in front of it and without the blanks behind it.
The bars of the last three lines stand below each other, and the dashes put the caret below the
character that the error points at.

* `Excerpt`           what is shown: the heading, the number and text of the line, the dashes;
* `Excerpt.lines`     the four lines;
* `Error.render`      the text against a source.
-/

namespace Calculator

structure Excerpt where
  heading : List Char
  number : List Char
  text : List Char
  dashes : Nat
deriving DecidableEq

namespace Excerpt

/-- the text without the blanks at its end -/
def trimEnd (text : List Char) : List Char := (text.reverse.dropWhile Text.isBlank).reverse

/-- the first line: name of the error, and its tip between parentheses -/
def headingOf (cause : Cause) : String :=
  "Error: " ++ cause.name ++
    (match cause.tip with
     | none => ""
     | some tip => " (" ++ tip ++ ")")

/-- what is shown of an error at a place -/
def ofPlace (cause : Cause) (p : Source.Place) : Excerpt where
  heading := (headingOf cause).toList
  number := Nat.toDigits 10 p.number
  text := trimEnd (p.line.dropWhile (· == ' '))
  dashes := p.column - (p.line.takeWhile (· == ' ')).length

/-- the blanks below the number and the bar -/
def gutter (x : Excerpt) : List Char := List.replicate (x.number.length + 1) ' ' ++ ['|']

/-- the four lines -/
def lines (x : Excerpt) : List (List Char) :=
  [x.heading,
    x.gutter,
    x.number ++ [' ', '|', ' '] ++ x.text,
    x.gutter ++ [' '] ++ List.replicate x.dashes '-' ++ ['^']]

/-- the four lines, each with a newline -/
def render (x : Excerpt) : List Char := x.lines.flatMap (· ++ ['\n'])

end Excerpt

/-- an error shown against its source -/
def Error.render (e : Error) (source : List Char) : List Char :=
  (Excerpt.ofPlace e.cause (Source.lineAt source e.position.toNat)).render

end Calculator
