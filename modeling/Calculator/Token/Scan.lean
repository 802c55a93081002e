import Calculator.Grammar.Basic
import Calculator.Error
import Calculator.Numeral.Literal
import Calculator.Numeral.Rebase
import Calculator.Token.Symbol

/-!
# Scanning one piece of text

`Rules.scan` reads the piece that starts with a given character: a symbol of one or two
characters, a name, or a numeral.  It knows nothing about positions; it gives the kind and lexeme
of the piece, or the cause of its failure, together with the text that is left.

A numeral is written `digits[.digits][_radix][marker[sign]digits[_radix]]`.  A part with a radix
behind it is re-expressed in the lexer's own radix, so the lexeme has no suffixes any more.

* `Mode.markers`, `Mode.signedMarkers`   what starts an exponent, always or only before a sign;
* `exponentStarts`      does an exponent start here;
* `Rules.mantissa`, `Rules.exponent`, `Rules.numeral`   the parts of a numeral;
* `Rules.symbol`, `Rules.name`                          symbols and names;
* `Rules.scan`          which of them it is;
* `Rules.scan_rest`     a scan takes at least one character and leaves an end of the text.
-/

namespace Calculator

namespace Mode

/-- characters that start an exponent wherever they stand -/
def markers : Mode → List Char
  | scientific => ['e']
  | programmer => ['e', 'p']

/-- characters that start an exponent before a sign -/
def signedMarkers : Mode → List Char
  | scientific => ['E']
  | programmer => ['E', 'P']

/-- programmer mode keeps its markers from starting a name -/
def reserves (mode : Mode) (c : Char) : Bool :=
  match mode with
  | scientific => false
  | programmer => mode.markers.contains c

/-- the kind of two characters that are one symbol: any kind in programmer mode, the arrow alone
in scientific mode -/
def compound (mode : Mode) (g : Grammar) (c d : Char) : Option Kind :=
  match mode with
  | scientific => if c = '-' && d = '>' then g.kindNamed [c, d] else none
  | programmer => g.kindNamed [c, d]

end Mode

def isSign (c : Char) : Bool := c = '+' || c = '-'

/-- does an exponent start here -/
def exponentStarts (mode : Mode) : List Char → Bool
  | [] => false
  | [c] => mode.markers.contains c
  | c :: d :: _ => mode.markers.contains c || (mode.signedMarkers.contains c && isSign d)

/-- what a lexer goes by -/
structure Rules where
  grammar : Grammar
  mode : Mode
  nameKind : Kind
  radix : Radix

/-- what came of a piece of text, and the text left -/
structure Scan where
  result : Except Cause (Kind × List Char)
  rest : List Char

/-- the part of a text that is gone when `rest` is left -/
def used (text rest : List Char) : List Char := text.take (text.length - rest.length)

theorem used_append (gone rest : List Char) : used (gone ++ rest) rest = gone := by
  simp [used]

namespace Rules

variable (ρ : Rules)

/-! ## numerals -/

/-- the characters of a mantissa behind its first digit: digits and one point, up to an exponent -/
def mantissaTail (seenPoint : Bool) : List Char → List Char
  | [] => []
  | c :: cs =>
    if exponentStarts ρ.mode (c :: cs) then []
    else if ρ.grammar.isDigit c then c :: mantissaTail seenPoint cs
    else if c = '.' && !seenPoint then c :: mantissaTail true cs
    else []

/-- the mantissa that starts with digit `c`, in the lexer's radix if it has a suffix -/
def mantissa (c : Char) (cs : List Char) : Except Fault (List Char) × List Char :=
  let digits := (c :: ρ.mantissaTail false cs).map Char.toUpper
  match takeSuffix (cs.drop (ρ.mantissaTail false cs).length) with
  | (none, rest) => (.ok digits, rest)
  | (some suffix, rest) =>
    (do
      let old ← Radix.parse suffix
      rebase old ρ.radix digits, rest)

/-- the exponent that starts with a marker, in the lexer's radix if it has a suffix -/
def exponent (marker : Char) (cs : List Char) : Except Fault (List Char) × List Char :=
  let unsigned := (takeSign cs).2
  let digits := unsigned.takeWhile ρ.grammar.isDigit
  let rest := unsigned.dropWhile ρ.grammar.isDigit
  if digits.isEmpty then (.error .missingExponent, rest)
  else
    let written := (takeSign cs).1 ++ digits.map Char.toUpper
    match takeSuffix rest with
    | (none, rest) => (.ok (marker.toLower :: written), rest)
    | (some suffix, rest) =>
      (do
        let old ← Radix.parse suffix
        let value ← old.readExponent written
        return marker.toLower :: ρ.radix.writeExponent value, rest)

/-- the lexeme of the numeral that starts with digit `c` -/
def numeral (c : Char) (cs : List Char) : Except Fault (List Char) × List Char :=
  match ρ.mantissa c cs with
  | (.error fault, rest) => (.error fault, rest)
  | (.ok m, []) => (.ok m, [])
  | (.ok m, k :: rest) =>
    if exponentStarts ρ.mode (k :: rest) then
      match ρ.exponent k rest with
      | (.error fault, rest) => (.error fault, rest)
      | (.ok x, rest) => (.ok (m ++ x), rest)
    else (.ok m, k :: rest)

/-- a numeral as a piece of text; a fault shows all that was read of it -/
def scanNumeral (c : Char) (cs : List Char) : Scan :=
  match ρ.numeral c cs with
  | (.ok lexeme, rest) => ⟨.ok (ρ.nameKind, lexeme), rest⟩
  | (.error fault, rest) => ⟨.error (.malformedNumeral (used (c :: cs) rest) fault), rest⟩

/-! ## symbols and names -/

/-- a symbol of one character -/
def single (c : Char) (cs : List Char) : Scan :=
  match ρ.grammar.kindOf c with
  | some k => ⟨.ok (k, [c]), cs⟩
  | none => ⟨.error (.unknownToken c), cs⟩

/-- a symbol, of two characters where they have a kind -/
def symbol (c : Char) : List Char → Scan
  | [] => ρ.single c []
  | d :: cs =>
    match ρ.mode.compound ρ.grammar c d with
    | some k => ⟨.ok (k, [c, d]), cs⟩
    | none => ρ.single c (d :: cs)

/-- the longest run of letters -/
def name (c : Char) (cs : List Char) : Scan :=
  ⟨.ok (ρ.nameKind, c :: cs.takeWhile ρ.grammar.isLetter), cs.dropWhile ρ.grammar.isLetter⟩

/-- the piece that starts with `c` -/
def scan (c : Char) (cs : List Char) : Scan :=
  if ρ.grammar.isPunctuator c then ρ.symbol c cs
  else if ρ.mode.reserves c then ⟨.error (.unknownToken c), cs⟩
  else if ρ.grammar.isLetter c then ρ.name c cs
  else if ρ.grammar.isDigit c then ρ.scanNumeral c cs
  else ⟨.error (.unknownToken c), cs⟩

/-! ## what is left is an end of the text -/

theorem mantissa_rest (c : Char) (cs : List Char) : (ρ.mantissa c cs).2 <:+ cs := by
  have h := (takeSuffix_rest (cs.drop (ρ.mantissaTail false cs).length)).trans
    (List.drop_suffix _ cs)
  simp only [mantissa]
  split
  · rename_i rest heq
    rw [heq] at h
    exact h
  · rename_i suffix rest heq
    rw [heq] at h
    exact h

theorem exponent_rest (marker : Char) (cs : List Char) : (ρ.exponent marker cs).2 <:+ cs := by
  have h1 := (List.dropWhile_suffix (l := (takeSign cs).2) ρ.grammar.isDigit).trans
    (takeSign_rest cs)
  have h2 := (takeSuffix_rest _).trans h1
  simp only [exponent]
  split
  · exact h1
  · split
    · rename_i rest heq
      rw [heq] at h2
      exact h2
    · rename_i suffix rest heq
      rw [heq] at h2
      exact h2

theorem numeral_rest (c : Char) (cs : List Char) : (ρ.numeral c cs).2 <:+ cs := by
  have h := ρ.mantissa_rest c cs
  unfold numeral
  split
  · rename_i fault rest heq
    rw [heq] at h
    exact h
  · rename_i m heq
    rw [heq] at h
    exact h
  · rename_i m k rest heq
    rw [heq] at h
    have hk : rest <:+ cs := (List.suffix_cons k rest).trans h
    split
    · have h' := (ρ.exponent_rest k rest).trans hk
      split
      · rename_i fault rest' heq'
        rw [heq'] at h'
        exact h'
      · rename_i x rest' heq'
        rw [heq'] at h'
        exact h'
    · exact h

theorem symbol_rest (c : Char) (cs : List Char) : (ρ.symbol c cs).rest <:+ cs := by
  have single_rest : ∀ ds, (ρ.single c ds).rest = ds := by
    intro ds
    unfold single
    split <;> rfl
  cases cs with
  | nil => exact ⟨[], single_rest []⟩
  | cons d cs =>
    simp only [symbol]
    split
    · exact List.suffix_cons d cs
    · exact ⟨[], single_rest (d :: cs)⟩

/-- a scan takes its first character at least and leaves an end of the text behind it -/
theorem scan_rest (c : Char) (cs : List Char) : (ρ.scan c cs).rest <:+ cs := by
  unfold scan
  split
  · exact ρ.symbol_rest c cs
  · split
    · exact List.suffix_refl _
    · split
      · exact List.dropWhile_suffix _
      · split
        · have h := ρ.numeral_rest c cs
          unfold scanNumeral
          split
          · rename_i lexeme rest heq
            rw [heq] at h
            exact h
          · rename_i fault rest heq
            rw [heq] at h
            exact h
        · exact List.suffix_refl _

end Rules
end Calculator
