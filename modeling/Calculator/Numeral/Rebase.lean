import Calculator.Numeral.Radix

/-!
# A numeral in another radix

`rebase` re-expresses digits `i.f` of one radix in another.  The integer part is exact: it is
divided by the new radix again and again, and the remainders are its new digits.  The fraction is
multiplied by the new radix again and again, and the carries that come out in front are its new
digits; it gets as many places as the written digits had precision for, and one digit more decides
the rounding.

* `dividends`          the running dividends of a long division, each one the last remainder
                       followed by the next digit;
* `quotient`, `remainder`  what the division leaves;
* `number_quotient`    the quotient denotes the number divided by the new radix, which is also
                       why `rebaseInteger` ends;
* `scale`              a fraction times the new radix: the carry and the fraction that is left;
* `bump`               one more in the last place, with the carry that ran out in front;
* `Expansion.round`    drops the extra digit, up when it is at least half of the radix;
* `rebaseTo`           the whole re-expression for a given number of places;
* `fractionPlaces`     the number of places, a floating-point estimate.
-/

namespace Calculator

/-! ## the integer part -/

/-- the running dividends when the digits are divided by `new`, `rest` being left from before -/
def dividends (old new : Nat) (rest : Nat) : List Nat → List Nat
  | [] => []
  | d :: ds => (rest * old + d) :: dividends old new ((rest * old + d) % new) ds

/-- the digits of the quotient, no zero in front -/
def quotient (old new : Nat) (ds : List Nat) : List Nat :=
  ((dividends old new 0 ds).map (· / new)).dropWhile (· == 0)

/-- the remainder of the division -/
def remainder (old new : Nat) (ds : List Nat) : Nat :=
  (dividends old new 0 ds).getLastD 0 % new

theorem dividends_length (old new rest : Nat) (ds : List Nat) :
    (dividends old new rest ds).length = ds.length := by
  induction ds generalizing rest with
  | nil => rfl
  | cons d ds ih => simp [dividends, ih]

theorem number_dropWhile_zero (b : Nat) (ds : List Nat) :
    number b (ds.dropWhile (· == 0)) = number b ds := by
  induction ds with
  | nil => rfl
  | cons d ds ih =>
    rw [List.dropWhile_cons]
    split
    · rename_i h
      rw [ih, beq_iff_eq.mp h, number_zero_cons]
    · rfl

private theorem getLastD_cons_mod (a new : Nat) (as : List Nat) (x : Nat) :
    (a :: as).getLastD x % new = as.getLastD (a % new) % new := by
  cases as with
  | nil => simp
  | cons b bs => simp [List.getLastD]

/-- the law of long division, with a quotient so far in front -/
theorem foldl_dividends (old new q rest : Nat) (ds : List Nat) :
    ds.foldl (fun n d => n * old + d) (q * new + rest) =
      ((dividends old new rest ds).map (· / new)).foldl (fun n d => n * old + d) q * new
        + (match ds with
           | [] => rest
           | _ :: _ => (dividends old new rest ds).getLastD rest % new) := by
  induction ds generalizing q rest with
  | nil => rfl
  | cons d ds ih =>
    have e : (q * new + rest) * old + d =
        (q * old + (rest * old + d) / new) * new + (rest * old + d) % new := by
      have h := Nat.div_add_mod' (rest * old + d) new
      have h1 : (q * new + rest) * old = q * old * new + rest * old := by
        rw [Nat.add_mul, Nat.mul_right_comm]
      rw [h1, Nat.add_mul]
      omega
    rw [List.foldl_cons, e, ih, dividends, List.map_cons, List.foldl_cons, getLastD_cons_mod]
    cases ds with
    | nil => simp [dividends]
    | cons d' ds' => rfl

/-- dividing and putting the remainder back gives the number again -/
theorem number_quotient_mul_add (old new : Nat) (ds : List Nat) :
    number old (quotient old new ds) * new + remainder old new ds = number old ds := by
  have h := foldl_dividends old new 0 0 ds
  rw [Nat.zero_mul] at h
  unfold quotient remainder
  rw [number_dropWhile_zero]
  unfold number
  rw [h]
  cases ds with
  | nil => simp [dividends]
  | cons d ds => rfl

/-- the quotient denotes the number divided by the new radix -/
theorem number_quotient (old new : Nat) (h : 0 < new) (ds : List Nat) :
    number old (quotient old new ds) = number old ds / new := by
  have e := number_quotient_mul_add old new ds
  have hr : remainder old new ds < new := Nat.mod_lt _ h
  rw [← e, Nat.mul_comm, Nat.mul_add_div h, Nat.div_eq_of_lt hr, Nat.add_zero]

theorem quotient_length_le (old new : Nat) (ds : List Nat) :
    (quotient old new ds).length ≤ ds.length := by
  have h :=
    (List.dropWhile_sublist (l := (dividends old new 0 ds).map (· / new)) (· == 0)).length_le
  rw [List.length_map, dividends_length] at h
  exact h

/-- digits that denote zero are zeros -/
theorem dropWhile_zero_eq_nil {b : Nat} (hb : 0 < b) {ds : List Nat} (h : number b ds = 0) :
    ds.dropWhile (· == 0) = [] := by
  cases hd : ds.dropWhile (· == 0) with
  | nil => rfl
  | cons q qs =>
    have hne : (q == 0) = false := by
      have := List.head?_dropWhile_not (· == 0) ds
      rw [hd] at this
      simpa using this
    have hle := head_le_number hb q qs
    rw [← hd, number_dropWhile_zero, h] at hle
    rw [Nat.le_zero.mp hle] at hne
    cases hne

/-- a quotient that denotes zero has no digits left -/
theorem quotient_eq_nil {old new : Nat} (ho : 0 < old) {ds : List Nat}
    (h : number old (quotient old new ds) = 0) : quotient old new ds = [] := by
  unfold quotient at h ⊢
  rw [number_dropWhile_zero] at h
  exact dropWhile_zero_eq_nil ho h

/-- the measure of a number whose digits are divided away: each division makes it smaller -/
theorem quotient_measure (old new : Radix) {ds : List Nat} (h : ds ≠ []) :
    number old.val (quotient old.val new.val ds) + (quotient old.val new.val ds).length
      < number old.val ds + ds.length := by
  have hn := new.two_le
  have ho := old.two_le
  have hq := number_quotient old.val new.val (by omega) ds
  have hl := quotient_length_le old.val new.val ds
  have hpos : 0 < ds.length := List.length_pos_iff.mpr h
  by_cases h0 : number old.val ds = 0
  · rw [h0, Nat.zero_div] at hq
    rw [quotient_eq_nil (by omega) hq, h0]
    simpa [number] using hpos
  · have := Nat.div_lt_self (Nat.pos_of_ne_zero h0) hn
    omega

/-- the digits of an integer in the new radix, none for zero -/
def rebaseInteger (old new : Radix) (ds : List Nat) : List Nat :=
  if _h : ds = [] then []
  else rebaseInteger old new (quotient old.val new.val ds) ++ [remainder old.val new.val ds]
termination_by number old.val ds + ds.length
decreasing_by exact quotient_measure old new _h

/-! ## the fraction -/

/-- a fraction times `new`: what comes out in front of the point, and the fraction left -/
def scale (old new : Nat) : List Nat → Nat × List Nat
  | [] => (0, [])
  | d :: ds =>
    let (carry, rest) := scale old new ds
    ((d * new + carry) / old, (d * new + carry) % old :: rest)

/-- at most `places` digits of a fraction, none after the fraction has come out even -/
def rebaseFraction (old new : Nat) : Nat → List Nat → List Nat
  | 0, _ => []
  | places + 1, ds =>
    if ds.all (· == 0) then []
    else (scale old new ds).1 :: rebaseFraction old new places (scale old new ds).2

/-! ## rounding -/

/-- one more in the last place; `true` when the carry ran out in front -/
def bump (b : Nat) : List Nat → Bool × List Nat
  | [] => (true, [])
  | d :: ds =>
    match bump b ds with
    | (false, ds') => (false, d :: ds')
    | (true, ds') => if d + 1 < b then (false, (d + 1) :: ds') else (true, 0 :: ds')

/-- the digits before and after the point -/
structure Expansion where
  integer : List Nat
  fraction : List Nat
deriving DecidableEq

namespace Expansion

/-- one more in the last place of the fraction; a carry goes on into the integer -/
def up (b : Nat) (x : Expansion) : Expansion :=
  match bump b x.fraction with
  | (false, f) => ⟨x.integer, f⟩
  | (true, f) =>
    match bump b x.integer with
    | (false, i) => ⟨i, f⟩
    | (true, i) => ⟨1 :: i, f⟩

/-- drops the digit behind the last place, upwards when it is at least half of the radix -/
def round (b places : Nat) (x : Expansion) : Expansion :=
  if places < x.fraction.length then
    let kept : Expansion := ⟨x.integer, x.fraction.dropLast⟩
    if b ≤ x.fraction.getLastD 0 * 2 then kept.up b else kept
  else x

/-- drops the zeros at the end of the fraction -/
def trim (x : Expansion) : Expansion :=
  ⟨x.integer, (x.fraction.reverse.dropWhile (· == 0)).reverse⟩

/-- the digits as text, a lone zero for an empty integer, no point without a fraction -/
def write (x : Expansion) : List Char :=
  (if x.integer.isEmpty then ['0'] else x.integer.map digitChar)
    ++ (if x.fraction.isEmpty then [] else '.' :: x.fraction.map digitChar)

end Expansion

/-! ## the whole numeral -/

/-- the text before the first point, and the text behind it -/
def splitPoint (text : List Char) : List Char × List Char :=
  (text.takeWhile (· ≠ '.'), (text.dropWhile (· ≠ '.')).drop 1)

/-- digits in the new radix, the fraction to the given number of places -/
def expand (old new : Radix) (places : Nat) (x : Expansion) : Expansion :=
  let guarded : Expansion :=
    ⟨rebaseInteger old new (x.integer.dropWhile (· == 0)),
      rebaseFraction old.val new.val (places + 1) x.fraction⟩
  (guarded.round new.val places).trim

/-- how many places a fraction of `n` digits has precision for in the new radix -/
def fractionPlaces (n : Nat) (old new : Radix) : Nat :=
  if old.val = new.val then n
  else
    (Float.ofNat n * (Float.ofNat old.val).log / (Float.ofNat new.val).log).ceil.toUInt64.toNat

/-- reads `i` or `i.f` in a radix -/
def readExpansion (radix : Radix) (text : List Char) : Except Fault Expansion := do
  let integer ← digitsOf radix.val (splitPoint text).1
  let fraction ← digitsOf radix.val (splitPoint text).2
  return ⟨integer, fraction⟩

/-- re-expresses a numeral in the new radix, with the places chosen by `places` from the number
of written fraction digits -/
def rebaseTo (places : Nat → Nat) (old new : Radix) (text : List Char) :
    Except Fault (List Char) := do
  let x ← readExpansion old text
  return (expand old new (places x.fraction.length) x).write

/-- re-expresses a numeral in the new radix -/
def rebase (old new : Radix) (text : List Char) : Except Fault (List Char) :=
  rebaseTo (fractionPlaces · old new) old new text

/-- `rebase` for numbers that still have to be checked, the old radix first -/
def convert (text : List Char) (old new : Nat) : Except Fault (List Char) := do
  let old ← Radix.ofNat old
  let new ← Radix.ofNat new
  rebase old new text

end Calculator
