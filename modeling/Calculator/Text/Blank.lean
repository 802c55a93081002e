import Calculator.Text.Ranges

/-!
# Blank characters

The characters with the Unicode property `White_Space`.  They may be registered as whitespace of
a grammar, and they are cut from the end of a quoted source line.
-/

namespace Calculator.Text

/-- the ranges of the property `White_Space` -/
def blankRanges : List (Nat × Nat) :=
  [(0x9, 0xD), (0x20, 0x20), (0x85, 0x85), (0xA0, 0xA0), (0x1680, 0x1680), (0x2000, 0x200A),
   (0x2028, 0x2029), (0x202F, 0x202F), (0x205F, 0x205F), (0x3000, 0x3000)]

/-- is the character white space -/
def isBlank (c : Char) : Bool := inRanges blankRanges c.toNat

theorem blankRanges_ascending : ascending 0 blankRanges = true := by decide +kernel

end Calculator.Text
