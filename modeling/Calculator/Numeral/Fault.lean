import Calculator.Text.Quoted

/-!
# What can be wrong with a numeral

A fault names the part of a numeral literal that could not be read.  The same faults are raised
by the radix, the digits and the exponent, whoever reads them.
-/

namespace Calculator

inductive Fault where
  | notANumeral
  | missingRadix
  | radixOutOfRange (radix : Nat)
  | digitNotInRadix (digit : Char) (radix : Nat)
  | missingExponent
  | exponentOverflow
deriving DecidableEq

/-- the wording of a fault -/
def Fault.message : Fault → String
  | .notANumeral => "not a numeral"
  | .missingRadix => "no radix value was found"
  | .radixOutOfRange radix => s!"radix {radix} is outside of the range 2 to 36"
  | .digitNotInRadix digit radix =>
    "digit " ++ Text.quoteChar digit ++ s!" is not valid in radix {radix}"
  | .missingExponent => "no exponent value was found"
  | .exponentOverflow => "exponent does not fit in 64 bits"

end Calculator
