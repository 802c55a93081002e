/-!
# Lines of a source

A line ends with its newline, which belongs to it; the last line may have none.  A position is
looked up by walking over the lines; a position past the end points at the end of the last line,
before its newline.

* `lines`            the lines of a text;
* `lines_flatten`    together they are the text;
* `lineAt`           number, text and column of a position.
-/

namespace Calculator.Source

/-- the lines of a text, each with its newline -/
def lines : List Char → List (List Char)
  | [] => []
  | c :: cs =>
    if c = '\n' then [c] :: lines cs
    else
      match lines cs with
      | [] => [[c]]
      | l :: ls => (c :: l) :: ls

theorem lines_flatten (text : List Char) : (lines text).flatten = text := by
  induction text with
  | nil => rfl
  | cons c cs ih =>
    unfold lines
    split
    · simp [ih]
    · split
      · rename_i h
        rw [h] at ih
        simp [← ih]
      · rename_i l ls h
        rw [h] at ih
        simp [← ih]

/-- number of a line counted from one, its text, and a column in it -/
structure Place where
  number : Nat
  line : List Char
  column : Nat
deriving DecidableEq

/-- looks a position up in lines that are numbered from `number` on -/
def place (number position : Nat) : List (List Char) → Place
  | [] => ⟨number, [], 0⟩
  | [l] => ⟨number, l, if position < l.length then position else (l.takeWhile (· ≠ '\n')).length⟩
  | l :: m :: ls =>
    if position < l.length then ⟨number, l, position⟩
    else place (number + 1) (position - l.length) (m :: ls)

/-- the line of a position -/
def lineAt (text : List Char) (position : Nat) : Place := place 1 position (lines text)

end Calculator.Source
