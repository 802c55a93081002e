import Calculator.Token.Scan

/-!
# Lexers

A lexer is a source with a cursor.  Each pull skips the whitespace of the grammar and gives the
next token or error, with the position where it starts; a lexer never runs dry, since behind the
end it gives the ending token again and again.  After an error lexing goes on behind what the
failed piece had read.

* `Config`, `Lexer.new`   a lexer over a part of a text, its settings checked;
* `Lexer.next`            one pull;
* `Lexer.pull`            several pulls;
* `Lexer.toEnd`           pulls up to the first ending token.
-/

namespace Calculator

/-- which part of a text to lex, and the radix of numerals -/
structure Config where
  start : Nat
  stop : Option Nat
  radix : Nat
deriving DecidableEq

/-- the whole text in decimal -/
def Config.whole : Config := ⟨0, none, 10⟩

/-- the part of a text that the settings select -/
def Config.select (config : Config) (text : List Char) : Except Error (List Char) :=
  let stop := config.stop.getD text.length
  if config.start ≤ stop ∧ stop ≤ text.length then
    .ok ((text.take stop).drop config.start)
  else .error (.assembly (.invalidRange config.start stop text.length))

structure Lexer where
  rules : Rules
  source : List Char
  cursor : Nat

namespace Lexer

/-- a lexer at the start of its text; the radix is checked first, the range last -/
def new (grammar : Grammar) (mode : Mode) (config : Config) (text : List Char) :
    Except Error Lexer :=
  match Radix.ofNat config.radix with
  | .error _ => .error (.assembly (.invalidRadix config.radix))
  | .ok radix =>
    match grammar.nameKind with
    | none => .error (.assembly (.missingRole "name type"))
    | some nameKind =>
      match config.select text with
      | .error e => .error e
      | .ok source => .ok ⟨⟨grammar, mode, nameKind, radix⟩, source, 0⟩

/-- the same lexer at the start of another text -/
def setSource (l : Lexer) (text : List Char) : Lexer := { l with source := text, cursor := 0 }

/-- the same lexer with another radix for what follows -/
def setRadix (l : Lexer) (radix : Nat) : Except Error Lexer :=
  match Radix.ofNat radix with
  | .error _ => .error ⟨.invalidRadix radix, UInt32.ofNat l.cursor⟩
  | .ok r => .ok { l with rules := { l.rules with radix := r } }

/-- the text from the cursor on -/
def rest (l : Lexer) : List Char := l.source.drop l.cursor

/-- the whitespace at the cursor -/
def blanks (l : Lexer) : List Char := l.rest.takeWhile l.rules.grammar.isWhitespace

/-- where the next piece starts -/
def startOfNext (l : Lexer) : Nat := l.cursor + l.blanks.length

/-- puts a position to what a scan gave -/
def placed (start : Nat) : Except Cause (Kind × List Char) → Except Error Token
  | .ok (kind, lexeme) => .ok ⟨kind, lexeme, UInt32.ofNat start⟩
  | .error cause => .error ⟨cause, UInt32.ofNat start⟩

/-- the ending token of a lexer that has nothing left -/
def endingAt (start : Nat) : Token := ⟨Kind.ending, [], UInt32.ofNat start⟩

/-- the next token or error, and the lexer behind it -/
def next (l : Lexer) : Except Error Token × Lexer :=
  match l.rest.dropWhile l.rules.grammar.isWhitespace with
  | [] => (.ok (endingAt l.startOfNext), { l with cursor := l.startOfNext })
  | c :: cs =>
    let scan := l.rules.scan c cs
    (placed l.startOfNext scan.result,
      { l with cursor := l.startOfNext + ((c :: cs).length - scan.rest.length) })

/-- the results of so many pulls, and the lexer behind them -/
def pull (l : Lexer) : Nat → List (Except Error Token) × Lexer
  | 0 => ([], l)
  | n + 1 =>
    let step := l.next
    let after := step.2.pull n
    (step.1 :: after.1, after.2)

/-- is this result the ending token -/
def isEnding : Except Error Token → Bool
  | .ok t => t.isEnding
  | .error _ => false

/-- pulls up to and including the first ending token, `n` times at most -/
def pullToEnd (l : Lexer) : Nat → List (Except Error Token)
  | 0 => []
  | n + 1 =>
    let step := l.next
    step.1 :: if isEnding step.1 then [] else step.2.pullToEnd n

/-- pulls up to and including the first ending token; every pull before it takes a character -/
def toEnd (l : Lexer) : List (Except Error Token) := l.pullToEnd (l.rest.length + 1)

theorem next_rules (l : Lexer) : l.next.2.rules = l.rules := by
  unfold next
  split <;> rfl

theorem next_source (l : Lexer) : l.next.2.source = l.source := by
  unfold next
  split <;> rfl

end Lexer
end Calculator
