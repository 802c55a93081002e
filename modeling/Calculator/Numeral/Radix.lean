import Calculator.Numeral.Fault

/-!
# Radices and digits

A radix is a number from 2 to 36.  Its digits are `0` to `9` and then the letters, which are read
in either case and written in upper case.

* `Radix`, `Radix.ofNat`   a radix, and the check that a number is one;
* `digitValue`, `digitsOf` the value of a digit, of a row of digits;
* `digitChar`              the digit of a value;
* `number b ds`            the number that the digits `ds` denote in base `b`;
* `Radix.digits`           the digits of a number, no zero in front;
* `Radix.parse`            the radix written in decimal behind an underscore.  The running value
                           stays below `2 ^ 32`: beyond that the radix is out of range whatever
                           follows.
-/

namespace Calculator

structure Radix where
  val : Nat
  two_le : 2 ≤ val
  le_max : val ≤ 36
deriving DecidableEq

namespace Radix

/-- the check that a number is a radix -/
def ofNat (n : Nat) : Except Fault Radix :=
  if h : 2 ≤ n ∧ n ≤ 36 then .ok ⟨n, h.1, h.2⟩ else .error (.radixOutOfRange n)

/-- radix ten -/
def ten : Radix := ⟨10, by decide, by decide⟩

theorem ofNat_val (r : Radix) : ofNat r.val = .ok r := by
  obtain ⟨n, h2, h36⟩ := r
  exact dif_pos ⟨h2, h36⟩

theorem ofNat_eq_ok_iff {n : Nat} {r : Radix} : ofNat n = .ok r ↔ r.val = n := by
  constructor
  · intro h
    unfold ofNat at h
    split at h
    · cases h; rfl
    · cases h
  · rintro rfl
    exact ofNat_val r

end Radix

/-! ## digits -/

/-- the value of a digit in the largest radix -/
def digitValue? (c : Char) : Option Nat :=
  if '0' ≤ c ∧ c ≤ '9' then some (c.toNat - 48)
  else if 'A' ≤ c ∧ c ≤ 'Z' then some (c.toNat - 55)
  else if 'a' ≤ c ∧ c ≤ 'z' then some (c.toNat - 87)
  else none

/-- the value of a digit, which has to be below the radix -/
def digitValue (c : Char) (radix : Nat) : Except Fault Nat :=
  match digitValue? c with
  | some v => if v < radix then .ok v else .error (.digitNotInRadix c radix)
  | none => .error (.digitNotInRadix c radix)

/-- the values of a row of digits; the first bad digit decides the fault -/
def digitsOf (radix : Nat) : List Char → Except Fault (List Nat)
  | [] => .ok []
  | c :: cs => do
    let d ← digitValue c radix
    let ds ← digitsOf radix cs
    return d :: ds

/-- the digit of a value below 36, letters in upper case -/
def digitChar (v : Nat) : Char :=
  if v < 10 then Char.ofNat (48 + v) else Char.ofNat (55 + v)

theorem digitValue?_digitChar {v : Nat} (h : v < 36) : digitValue? (digitChar v) = some v := by
  have all : ∀ u ∈ List.range 36, digitValue? (digitChar u) = some u := by decide
  exact all v (List.mem_range.mpr h)

theorem digitValue_digitChar {v radix : Nat} (h : v < radix) (h36 : radix ≤ 36) :
    digitValue (digitChar v) radix = .ok v := by
  unfold digitValue
  rw [digitValue?_digitChar (Nat.lt_of_lt_of_le h h36)]
  exact if_pos h

theorem digitValue_lt {c : Char} {radix v : Nat} (h : digitValue c radix = .ok v) : v < radix := by
  unfold digitValue at h
  split at h
  · split at h
    · cases h; assumption
    · cases h
  · cases h

/-! ## numbers -/

/-- the number that digits denote in base `b`, most significant digit first -/
def number (b : Nat) (ds : List Nat) : Nat := ds.foldl (fun n d => n * b + d) 0

theorem number_nil (b : Nat) : number b [] = 0 := rfl

theorem number_concat (b : Nat) (ds : List Nat) (d : Nat) :
    number b (ds ++ [d]) = number b ds * b + d := by
  simp [number]

theorem number_zero_cons (b : Nat) (ds : List Nat) : number b (0 :: ds) = number b ds := by
  simp [number]

theorem le_foldl_digits {b : Nat} (h : 0 < b) (ds : List Nat) (n : Nat) :
    n ≤ ds.foldl (fun n d => n * b + d) n := by
  induction ds generalizing n with
  | nil => exact Nat.le_refl n
  | cons d ds ih =>
    have h1 := Nat.le_mul_of_pos_right n h
    have h2 := ih (n * b + d)
    rw [List.foldl_cons]
    omega

/-- the first digit is not above the number -/
theorem head_le_number {b : Nat} (h : 0 < b) (d : Nat) (ds : List Nat) :
    d ≤ number b (d :: ds) := by
  have := le_foldl_digits h ds (0 * b + d)
  rw [Nat.zero_mul, Nat.zero_add] at this
  simpa [number] using this

namespace Radix

/-- the digits of a number, no zero in front except for zero itself -/
def digits (r : Radix) (n : Nat) : List Nat :=
  if n < r.val then [n] else r.digits (n / r.val) ++ [n % r.val]
termination_by n
decreasing_by
  have := r.two_le
  exact Nat.div_lt_self (by omega) this

theorem number_digits (r : Radix) (n : Nat) : number r.val (r.digits n) = n := by
  induction n using Nat.strongRecOn with
  | _ n ih =>
    rw [digits]
    split
    · simp [number]
    · have h2 := r.two_le
      rw [number_concat, ih _ (Nat.div_lt_self (by omega) h2)]
      exact Nat.div_add_mod' n r.val

/-- a number written in the radix -/
def write (r : Radix) (n : Nat) : List Char := (r.digits n).map digitChar

/-! ## the radix behind an underscore -/

/-- a radix that is being read stays below `2 ^ 32` -/
def parseLimit : Nat := Nat.pow 2 32

/-- reads decimal digits onto the value so far, which never reaches the limit -/
def parseFrom (value : Nat) : List Char → Except Fault Nat
  | [] => .ok value
  | c :: cs => do
    let d ← digitValue c 10
    if value * 10 + d < parseLimit then parseFrom (value * 10 + d) cs
    else .error (.radixOutOfRange (parseLimit - 1))

/-- the radix written in decimal -/
def parse (text : List Char) : Except Fault Radix :=
  if text.isEmpty then .error .missingRadix
  else do
    let n ← parseFrom 0 text
    ofNat n

end Radix
end Calculator
