import Calculator.Numeral.Radix

/-!
# Exponents

An exponent is a signed number written in some radix.  Its magnitude is read digit by digit and
has to stay below `2 ^ 63`, whatever the sign.  The written form always shows the sign, `+` for
zero.

* `signed`             cuts the sign off;
* `readMagnitude`      reads digits onto the magnitude so far;
* `parseExponent`, `formatExponent`   for a radix that still has to be checked.
-/

namespace Calculator

/-- is the exponent negative, and its digits; one sign at most is cut off -/
def signed : List Char → Bool × List Char
  | '-' :: cs => (true, cs)
  | '+' :: cs => (false, cs)
  | cs => (false, cs)

/-- magnitudes stay below `2 ^ 63` -/
def exponentLimit : Nat := Nat.pow 2 63

/-- reads digits onto the magnitude so far, which never reaches the limit -/
def readMagnitude (radix : Nat) (value : Nat) : List Char → Except Fault Nat
  | [] => .ok value
  | c :: cs => do
    let d ← digitValue c radix
    if value * radix + d < exponentLimit then readMagnitude radix (value * radix + d) cs
    else .error .exponentOverflow

namespace Radix

/-- an exponent, its sign optional -/
def readExponent (r : Radix) (text : List Char) : Except Fault Int :=
  if (signed text).2.isEmpty then .error .missingExponent
  else do
    let magnitude ← readMagnitude r.val 0 (signed text).2
    return if (signed text).1 then -(magnitude : Int) else magnitude

/-- an exponent with its sign -/
def writeExponent (r : Radix) (value : Int) : List Char :=
  (if value < 0 then '-' else '+') :: r.write value.natAbs

end Radix

/-- an exponent in a radix that still has to be checked -/
def parseExponent (text : List Char) (radix : Nat) : Except Fault Int := do
  let r ← Radix.ofNat radix
  r.readExponent text

/-- the written form of an exponent in a radix that still has to be checked -/
def formatExponent (value : Int) (radix : Nat) : Except Fault (List Char) := do
  let r ← Radix.ofNat radix
  return r.writeExponent value

end Calculator
