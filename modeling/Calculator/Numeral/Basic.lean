import Calculator.Numeral.Literal

/-!
# Numerals

A numeral is a literal whose parts have been checked: the digits belong to the radix, and the
exponent is a number.  A part without a radix of its own takes the default radix, the exponent
included, whatever radix the mantissa has.

* `Numeral.ofLiteral`   checks the parts in the order radix, digits, radix of the exponent,
                        exponent;
* `Numeral.parse`       reads a text with a default radix that is itself checked first;
* `Numeral.write`       the text with every radix spelled out, the exponent in decimal;
* `Numeral.isInteger`   nothing but zeros behind the point and no exponent;
* `Numeral.approx`      the value in floating point, digit by digit.
-/

namespace Calculator

structure Exponent where
  marker : Marker
  value : Int
deriving DecidableEq

structure Numeral where
  integer : List Char
  fraction : List Char
  radix : Radix
  exponent : Option Exponent
deriving DecidableEq

/-- what the marker scales by, in floating point -/
def Marker.base (radix : Radix) : Marker → Float
  | .radix => Float.ofNat radix.val
  | .binary => 2.0

/-- the radix of a suffix, or the default one -/
def suffixRadix (default : Radix) : Option (List Char) → Except Fault Radix
  | none => .ok default
  | some digits => Radix.parse digits

/-- the value of an exponent part -/
def ExponentPart.read (default : Radix) (x : ExponentPart) : Except Fault Exponent := do
  let radix ← suffixRadix default x.radix
  let value ← radix.readExponent x.digits
  return ⟨x.marker, value⟩

namespace Numeral

/-- the value of the exponent part, if there is one -/
def readExponent (default : Radix) : Option ExponentPart → Except Fault (Option Exponent)
  | none => .ok none
  | some x => do
    let exponent ← x.read default
    return some exponent

/-- the numeral of a literal -/
def ofLiteral (default : Radix) (l : Literal) : Except Fault Numeral :=
  if l.integer.isEmpty && (l.fraction.getD []).isEmpty then .error .notANumeral
  else do
    let radix ← suffixRadix default l.radix
    let _ ← digitsOf radix.val (l.integer ++ l.fraction.getD [])
    let exponent ← readExponent default l.exponent
    return ⟨l.integer, l.fraction.getD [], radix, exponent⟩

/-- the numeral of a text, parts without a suffix in the default radix -/
def parse (text : List Char) (default : Nat) : Except Fault Numeral := do
  let default ← Radix.ofNat default
  match Literal.read text with
  | none => .error .notANumeral
  | some l => ofLiteral default l

/-- the text of an exponent, in decimal -/
def writeExponent : Option Exponent → List Char
  | none => []
  | some x => x.marker.char :: (Radix.ten.writeExponent x.value ++ ['_', '1', '0'])

/-- the text of a numeral with every radix spelled out -/
def write (n : Numeral) : List Char :=
  n.integer ++ (if n.fraction.isEmpty then [] else '.' :: n.fraction)
    ++ '_' :: Radix.ten.write n.radix.val ++ writeExponent n.exponent

/-- is the numeral an integer on the face of it -/
def isInteger (n : Numeral) : Bool := n.fraction.all (· == '0') && n.exponent.isNone

/-! ## the value in floating point -/

/-- the digit in floating point, zero for a character that is none -/
def digitFloat (radix : Radix) (c : Char) : Float :=
  match digitValue c radix.val with
  | .ok d => Float.ofNat d
  | .error _ => 0.0

/-- the integer digits, each one added to the radix times the value so far -/
def approxInteger (radix : Radix) (digits : List Char) : Float :=
  digits.foldl (fun value c => value * Float.ofNat radix.val + digitFloat radix c) 0.0

/-- the fraction digits, added to the value at a scale that shrinks by the radix -/
def approxFraction (radix : Radix) (value scale : Float) : List Char → Float
  | [] => value
  | c :: cs =>
    approxFraction radix (value + digitFloat radix c * (scale / Float.ofNat radix.val))
      (scale / Float.ofNat radix.val) cs

/-- the value in floating point -/
def approx (n : Numeral) : Float :=
  let mantissa := approxFraction n.radix (approxInteger n.radix n.integer) 1.0 n.fraction
  match n.exponent with
  | none => mantissa
  | some x => mantissa * (x.marker.base n.radix).pow (Float.ofInt x.value)

end Numeral
end Calculator
