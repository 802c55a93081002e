import Calculator.Numeral.Exponent

/-!
# The parts of a numeral literal

A literal is written `digits[.digits][_radix][marker[sign]digits[_radix]]` with upper-case digits
and the markers `e` and `p`.  `Literal.read` cuts a text into these parts without looking at
values: no two parts that follow each other share a character they could both take, so taking as
much as possible for each part is the only way to cut.

* `Marker`           `e`, a power of the mantissa's radix, or `p`, a power of two;
* `takeSuffix`       the digits behind an underscore;
* `Literal.read`     the parts of a text, if it has the form;
* `Literal.write`    the text of the parts.
-/

namespace Calculator

/-- the marker `e` scales by the mantissa's radix, the marker `p` by two -/
inductive Marker where
  | radix
  | binary
deriving DecidableEq

def Marker.char : Marker → Char
  | .radix => 'e'
  | .binary => 'p'

/-- the marker of a character -/
def Marker.ofChar? (c : Char) : Option Marker :=
  if c = 'e' then some .radix else if c = 'p' then some .binary else none

/-- the digits `0` to `9` and `A` to `Z` -/
def isUpperDigit (c : Char) : Bool := ('0' ≤ c && c ≤ '9') || ('A' ≤ c && c ≤ 'Z')

/-- the decimal digits behind an underscore, if there is one, and the text left -/
def takeSuffix : List Char → Option (List Char) × List Char
  | '_' :: cs => (some (cs.takeWhile Char.isDigit), cs.dropWhile Char.isDigit)
  | cs => (none, cs)

/-- the digits behind a point, if there is one, and the text left -/
def takeFraction : List Char → Option (List Char) × List Char
  | '.' :: cs => (some (cs.takeWhile isUpperDigit), cs.dropWhile isUpperDigit)
  | cs => (none, cs)

/-- a sign, if there is one, and the text left -/
def takeSign : List Char → List Char × List Char
  | '+' :: cs => (['+'], cs)
  | '-' :: cs => (['-'], cs)
  | cs => ([], cs)

/-- the exponent part of a literal, the sign kept with the digits -/
structure ExponentPart where
  marker : Marker
  digits : List Char
  radix : Option (List Char)
deriving DecidableEq

/-- the exponent part, if the text starts with a marker, and the text left -/
def takeExponent : List Char → Option ExponentPart × List Char
  | [] => (none, [])
  | c :: cs =>
    match Marker.ofChar? c with
    | none => (none, c :: cs)
    | some marker =>
      let unsigned := (takeSign cs).2
      let suffix := takeSuffix (unsigned.dropWhile isUpperDigit)
      (some ⟨marker, (takeSign cs).1 ++ unsigned.takeWhile isUpperDigit, suffix.1⟩, suffix.2)

structure Literal where
  integer : List Char
  fraction : Option (List Char)
  radix : Option (List Char)
  exponent : Option ExponentPart
deriving DecidableEq

namespace Literal

/-- the parts of a text that has the form of a literal -/
def read (text : List Char) : Option Literal :=
  let fraction := takeFraction (text.dropWhile isUpperDigit)
  let radix := takeSuffix fraction.2
  let exponent := takeExponent radix.2
  if exponent.2.isEmpty then
    some ⟨text.takeWhile isUpperDigit, fraction.1, radix.1, exponent.1⟩
  else none

/-- an underscore and what stands behind it -/
def writeSuffix : Option (List Char) → List Char
  | none => []
  | some digits => '_' :: digits

def writeFraction : Option (List Char) → List Char
  | none => []
  | some digits => '.' :: digits

def writeExponent : Option ExponentPart → List Char
  | none => []
  | some x => x.marker.char :: (x.digits ++ writeSuffix x.radix)

/-- the text of the parts -/
def write (l : Literal) : List Char :=
  l.integer ++ writeFraction l.fraction ++ writeSuffix l.radix ++ writeExponent l.exponent

end Literal

/-! ## reading keeps the text -/

theorem writeSuffix_takeSuffix (cs : List Char) :
    Literal.writeSuffix (takeSuffix cs).1 ++ (takeSuffix cs).2 = cs := by
  unfold takeSuffix
  split
  · simp [Literal.writeSuffix, List.takeWhile_append_dropWhile]
  · rfl

theorem writeFraction_takeFraction (cs : List Char) :
    Literal.writeFraction (takeFraction cs).1 ++ (takeFraction cs).2 = cs := by
  unfold takeFraction
  split
  · simp [Literal.writeFraction, List.takeWhile_append_dropWhile]
  · rfl

theorem takeSign_append (cs : List Char) : (takeSign cs).1 ++ (takeSign cs).2 = cs := by
  unfold takeSign
  split <;> rfl

theorem takeSuffix_rest (cs : List Char) : (takeSuffix cs).2 <:+ cs :=
  ⟨Literal.writeSuffix (takeSuffix cs).1, writeSuffix_takeSuffix cs⟩

theorem takeSign_rest (cs : List Char) : (takeSign cs).2 <:+ cs :=
  ⟨(takeSign cs).1, takeSign_append cs⟩

theorem Marker.char_of_ofChar? {c : Char} {m : Marker} (h : Marker.ofChar? c = some m) :
    m.char = c := by
  unfold Marker.ofChar? at h
  split at h
  · rename_i hc; cases h; exact hc.symm
  · split at h
    · rename_i hc; cases h; exact hc.symm
    · cases h

theorem writeExponent_takeExponent (cs : List Char) :
    Literal.writeExponent (takeExponent cs).1 ++ (takeExponent cs).2 = cs := by
  cases cs with
  | nil => rfl
  | cons c cs =>
    simp only [takeExponent]
    split
    · rfl
    · rename_i m hm
      have h1 := writeSuffix_takeSuffix ((takeSign cs).2.dropWhile isUpperDigit)
      have h2 := takeSign_append cs
      have h3 := List.takeWhile_append_dropWhile (p := isUpperDigit) (l := (takeSign cs).2)
      show m.char :: ((takeSign cs).1 ++ (takeSign cs).2.takeWhile isUpperDigit ++ _) ++ _ = _
      rw [Marker.char_of_ofChar? hm, List.cons_append, List.append_assoc, List.append_assoc, h1, h3,
        h2]

/-- a literal that was read is written back as the text it came from -/
theorem Literal.write_of_read {text : List Char} {l : Literal} (h : Literal.read text = some l) :
    l.write = text := by
  have hi := List.takeWhile_append_dropWhile (p := isUpperDigit) (l := text)
  have hf := writeFraction_takeFraction (text.dropWhile isUpperDigit)
  have hs := writeSuffix_takeSuffix (takeFraction (text.dropWhile isUpperDigit)).2
  have he := writeExponent_takeExponent
    (takeSuffix (takeFraction (text.dropWhile isUpperDigit)).2).2
  unfold Literal.read at h
  simp only at h
  split at h
  · rename_i hr
    cases h
    rw [List.isEmpty_iff.mp hr, List.append_nil] at he
    simp only [Literal.write, List.append_assoc]
    rw [he, hs, hf, hi]
  · cases h

end Calculator
