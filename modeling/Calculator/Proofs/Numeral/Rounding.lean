import Calculator.Proofs.Numeral.Canonical
import Calculator.Proofs.Numeral.Readable
import Calculator.Proofs.Numeral.Value
import Mathlib.Data.List.DropRight
import Mathlib.Data.Nat.Digits.Defs
import Mathlib.Data.Rat.Floor
import Mathlib.Tactic.FieldSimp
import Mathlib.Tactic.Linarith

/-!
# How a fraction is rounded

A fraction that is re-expressed in another radix keeps a given number of places.  Repeated
multiplication gives the digits of the floor at one place more, and the digit of that last place
decides alone whether the floor at the places that are kept goes up by one.  Counted in units of the
last place all of this is arithmetic of natural numbers (`expand_units`).

An even radix has a digit for one half, so there the decision is the one of rounding half up.  In an
odd radix one half has digits without end, all of them the middle digit: a number that is above the
floor by one half, or by a little more, has the middle digit behind the last place and goes down.

* `number_scale`            a fraction times the new radix: the carry, and what is left;
* `number_rebaseFraction`   the digits that come out are those of the floor;
* `number_bump`, `Expansion.number_up`   one more in the last place, with all carries;
* `Expansion.units`         an expansion in units of the last of so many places;
* `expand_units`            re-expressed digits, in units;
* `Radix.guard`, `Radix.rounded`   the digit that decides, and what it decides;
* `Radix.HidesHalf`         the numbers for which the digit does not show that half is reached;
* `rebaseTo_rounds`         re-expressing a text, for any number of places;
* `convert_rounds_half_up_iff`   the result is rounded half up except for such numbers.
-/

namespace Calculator

/-! ## numbers of digits -/

theorem number_eq_ofDigits (b : Nat) (ds : List Nat) : number b ds = Nat.ofDigits b ds.reverse := by
  induction ds using List.reverseRecOn with
  | nil => rfl
  | append_singleton ds d ih =>
    rw [number_concat, ih, List.reverse_append, List.reverse_singleton, List.singleton_append,
      Nat.ofDigits_cons]
    ring

theorem number_append (b : Nat) (xs ys : List Nat) :
    number b (xs ++ ys) = number b xs * b ^ ys.length + number b ys := by
  rw [number_eq_ofDigits, number_eq_ofDigits, number_eq_ofDigits, List.reverse_append,
    Nat.ofDigits_append, List.length_reverse]
  ring

theorem number_cons (b d : Nat) (ds : List Nat) :
    number b (d :: ds) = d * b ^ ds.length + number b ds := by
  have h : number b [d] = d := by simp [number]
  rw [← List.singleton_append, number_append, h]

theorem number_of_zeros (b : Nat) {ds : List Nat} (h : ∀ d ∈ ds, d = 0) : number b ds = 0 := by
  induction ds with
  | nil => rfl
  | cons d ds ih =>
    obtain ⟨rfl, hds⟩ := List.forall_mem_cons.mp h
    rw [number_zero_cons, ih hds]

theorem number_lt {b : Nat} (hb : 1 < b) {ds : List Nat} (h : ∀ d ∈ ds, d < b) :
    number b ds < b ^ ds.length := by
  rw [number_eq_ofDigits, ← List.length_reverse]
  exact Nat.ofDigits_lt_base_pow_length hb fun d hd => h d (List.mem_reverse.mp hd)

/-! ## the digits of a fraction -/

theorem length_scale (old new : Nat) (ds : List Nat) :
    (scale old new ds).2.length = ds.length := by
  induction ds with
  | nil => rfl
  | cons d ds ih =>
    show (scale old new ds).2.length + 1 = ds.length + 1
    rw [ih]

theorem number_scale (old new : Nat) (ds : List Nat) :
    (scale old new ds).1 * old ^ ds.length + number old (scale old new ds).2
      = number old ds * new := by
  induction ds with
  | nil => simp [scale, number]
  | cons d ds ih =>
    set carry := (scale old new ds).1
    have hdigit := Nat.div_add_mod' (d * new + carry) old
    show (d * new + carry) / old * old ^ (ds.length + 1)
      + number old ((d * new + carry) % old :: (scale old new ds).2) = _
    rw [number_cons, number_cons, length_scale, pow_succ]
    calc (d * new + carry) / old * (old ^ ds.length * old)
          + ((d * new + carry) % old * old ^ ds.length + number old (scale old new ds).2)
        = ((d * new + carry) / old * old + (d * new + carry) % old) * old ^ ds.length
          + number old (scale old new ds).2 := by ring
      _ = d * new * old ^ ds.length
          + (carry * old ^ ds.length + number old (scale old new ds).2) := by rw [hdigit]; ring
      _ = (d * old ^ ds.length + number old ds) * new := by rw [ih]; ring

theorem length_rebaseFraction_le (old new places : Nat) (ds : List Nat) :
    (rebaseFraction old new places ds).length ≤ places := by
  induction places generalizing ds with
  | zero => exact Nat.le_refl 0
  | succ places ih =>
    unfold rebaseFraction
    split
    · exact Nat.zero_le _
    · exact Nat.succ_le_succ (ih _)

/-- the digits that come out of a fraction are those of the floor; places that are not written are
zeros -/
theorem number_rebaseFraction {old new : Nat} (ho : 1 < old) (hn : 0 < new) (places : Nat)
    {ds : List Nat} (h : ∀ d ∈ ds, d < old) :
    number new (rebaseFraction old new places ds)
        * new ^ (places - (rebaseFraction old new places ds).length)
      = number old ds * new ^ places / old ^ ds.length := by
  have hpow : 0 < old ^ ds.length := Nat.pow_pos (by omega)
  induction places generalizing ds with
  | zero =>
    rw [rebaseFraction, number_nil, Nat.zero_mul, pow_zero, Nat.mul_one,
      Nat.div_eq_of_lt (number_lt ho h)]
  | succ places ih =>
    obtain ⟨-, hrest⟩ := scale_lt (by omega) hn h
    have hle := length_rebaseFraction_le old new places (scale old new ds).2
    have hlen := length_scale old new ds
    have hscale := number_scale old new ds
    have ih := ih hrest (by rwa [hlen])
    unfold rebaseFraction
    split
    · rename_i hzero
      have hnumber : number old ds = 0 := by
        refine number_of_zeros old fun d hd => ?_
        exact beq_iff_eq.mp (List.all_eq_true.mp hzero d hd)
      rw [hnumber, number_nil, Nat.zero_mul, Nat.zero_mul, Nat.zero_div]
    · generalize rebaseFraction old new places (scale old new ds).2 = qs at *
      generalize (scale old new ds).1 = carry at *
      rw [hlen] at ih
      have hplaces : new ^ qs.length * new ^ (places - qs.length) = new ^ places := by
        rw [← pow_add, Nat.add_sub_cancel' hle]
      rw [number_cons, List.length_cons, Nat.add_sub_add_right]
      calc (carry * new ^ qs.length + number new qs) * new ^ (places - qs.length)
          = carry * (new ^ qs.length * new ^ (places - qs.length))
            + number new qs * new ^ (places - qs.length) := by ring
        _ = (carry * new ^ places * old ^ ds.length
            + number old (scale old new ds).2 * new ^ places) / old ^ ds.length := by
          rw [hplaces, ih, Nat.add_comm, Nat.add_comm (_ * _ * _), Nat.add_mul_div_right _ _ hpow]
        _ = number old ds * new ^ (places + 1) / old ^ ds.length := by
          congr 1
          calc carry * new ^ places * old ^ ds.length
                + number old (scale old new ds).2 * new ^ places
              = (carry * old ^ ds.length + number old (scale old new ds).2) * new ^ places := by
                ring
            _ = number old ds * new ^ (places + 1) := by rw [hscale]; ring

/-! ## one more in the last place -/

theorem length_bump (b : Nat) (ds : List Nat) : (bump b ds).2.length = ds.length := by
  induction ds with
  | nil => rfl
  | cons d ds ih =>
    unfold bump
    split
    · rename_i ds' he
      rw [he] at ih
      rw [List.length_cons, ih, List.length_cons]
    · rename_i ds' he
      rw [he] at ih
      split
      · rw [List.length_cons, ih, List.length_cons]
      · rw [List.length_cons, ih, List.length_cons]

theorem number_bump {b : Nat} {ds : List Nat} (h : ∀ d ∈ ds, d < b) :
    number b (bump b ds).2 + (if (bump b ds).1 then b ^ ds.length else 0) = number b ds + 1 := by
  induction ds with
  | nil => rfl
  | cons d ds ih =>
    obtain ⟨hd, hds⟩ := List.forall_mem_cons.mp h
    have ih := ih hds
    have hlen := length_bump b ds
    rw [number_cons]
    unfold bump
    split
    · rename_i ds' he
      rw [he] at ih hlen
      simp only [Bool.false_eq_true, if_false, Nat.add_zero] at ih hlen ⊢
      rw [number_cons, hlen, ih]
      omega
    · rename_i ds' he
      rw [he] at ih hlen
      simp only [if_true] at ih hlen
      split
      · simp only [Bool.false_eq_true, if_false, Nat.add_zero]
        rw [number_cons, hlen, Nat.succ_mul]
        omega
      · -- the digit was the largest one, and its place carries over
        obtain rfl : b = d + 1 := by omega
        simp only [if_true]
        rw [number_zero_cons, List.length_cons, pow_succ, Nat.mul_succ, Nat.mul_comm _ d]
        omega

namespace Expansion

variable {b : Nat} {x : Expansion}

theorem length_up : (x.up b).fraction.length = x.fraction.length := by
  have hlen := length_bump b x.fraction
  unfold up
  split
  · rename_i f he
    rw [he] at hlen
    exact hlen
  · rename_i f he
    rw [he] at hlen
    split
    · exact hlen
    · exact hlen

theorem number_up (h : x.Below b) :
    number b ((x.up b).integer ++ (x.up b).fraction) = number b (x.integer ++ x.fraction) + 1 := by
  have hlen := length_up (b := b) (x := x)
  have hf := number_bump h.fraction
  have hi := number_bump h.integer
  rw [number_append, number_append, hlen, Nat.add_assoc]
  have hli := length_bump b x.integer
  unfold up
  split
  · rename_i f he
    rw [he] at hf
    simp only [Bool.false_eq_true, if_false, Nat.add_zero] at hf
    rw [← hf]
  · rename_i f he
    rw [he] at hf
    simp only [if_true] at hf
    rw [← hf, Nat.add_comm (number b f), ← Nat.add_assoc, ← Nat.succ_mul]
    split
    · rename_i i hi'
      rw [hi'] at hi
      simp only [Bool.false_eq_true, if_false, Nat.add_zero] at hi
      rw [hi]
    · rename_i i hi'
      rw [hi'] at hi hli
      simp only [if_true] at hi hli
      rw [number_cons, hli, Nat.one_mul, Nat.add_comm (b ^ _), hi]

/-! ## units of the last place -/

/-- the number in units of the last of so many places -/
def units (b places : Nat) (x : Expansion) : Nat :=
  number b (x.integer ++ x.fraction) * b ^ (places - x.fraction.length)

theorem units_trim {places : Nat} (h : x.fraction.length ≤ places) :
    x.trim.units b places = x.units b places := by
  have hsplit := List.rdropWhile_append_rtakeWhile (p := (· == 0)) (l := x.fraction)
  set kept := x.fraction.rdropWhile (· == 0)
  set zeros := x.fraction.rtakeWhile (· == 0)
  have hnumber : number b zeros = 0 := by
    refine number_of_zeros b fun d hd => ?_
    exact beq_iff_eq.mp (List.mem_rtakeWhile_imp (p := (· == 0)) hd)
  have hlen : kept.length + zeros.length = x.fraction.length := by
    rw [← hsplit, List.length_append]
  show number b (x.integer ++ kept) * b ^ (places - kept.length) = _
  unfold units
  rw [← hsplit, ← List.append_assoc, number_append b (x.integer ++ kept), hnumber, Nat.add_zero,
    Nat.mul_assoc, ← pow_add, List.length_append]
  congr 2
  omega

/-- rounding looks at the last digit of one place more, and at nothing else -/
theorem units_round (hb : 2 ≤ b) {places : Nat} (hlen : x.fraction.length ≤ places + 1)
    (h : x.Below b) :
    (x.round b places).units b places = x.units b (places + 1) / b
      + if b ≤ x.units b (places + 1) % b * 2 then 1 else 0 := by
  obtain ⟨i, f⟩ := x
  by_cases hfull : places < f.length
  · -- the last digit is the one behind the last place
    obtain ⟨init, d, rfl⟩ : ∃ init d, f = init ++ [d] := by
      rcases List.eq_nil_or_concat' f with rfl | h
      · exact absurd hfull (Nat.not_lt_zero _)
      · exact h
    have hd : d < b := h.fraction d (by simp)
    have hkept : Below b ⟨i, init⟩ :=
      ⟨h.integer, fun e he => h.fraction e (List.mem_append_left _ he)⟩
    have hinit : init.length = places := by
      have hle : (init ++ [d]).length ≤ places + 1 := hlen
      rw [List.length_append, List.length_singleton] at hle hfull
      omega
    have hunits : units b (places + 1) ⟨i, init ++ [d]⟩ = d + b * number b (i ++ init) := by
      unfold units
      rw [← List.append_assoc, number_concat, List.length_append, hinit, List.length_singleton,
        Nat.sub_self, pow_zero]
      ring
    have hdiv : (d + b * number b (i ++ init)) / b = number b (i ++ init) := by
      rw [Nat.add_mul_div_left _ _ (by omega), Nat.div_eq_of_lt hd, Nat.zero_add]
    have hmod : (d + b * number b (i ++ init)) % b = d := by
      rw [Nat.add_mul_mod_self_left, Nat.mod_eq_of_lt hd]
    rw [hunits, hdiv, hmod]
    unfold round
    rw [if_pos hfull]
    simp only [List.dropLast_concat, List.getLastD_concat]
    split
    · unfold units
      rw [length_up, number_up hkept, hinit, Nat.sub_self, pow_zero, Nat.mul_one]
    · unfold units
      rw [hinit, Nat.sub_self, pow_zero, Nat.mul_one, Nat.add_zero]
  · -- nothing behind the last place
    have hsub : places + 1 - f.length = places - f.length + 1 := by omega
    have hmore : units b (places + 1) ⟨i, f⟩ = units b places ⟨i, f⟩ * b := by
      unfold units
      rw [hsub, pow_succ, Nat.mul_assoc]
    unfold round
    rw [if_neg hfull, hmore, Nat.mul_div_cancel _ (by omega), Nat.mul_mod_left, if_neg (by omega),
      Nat.add_zero]

theorem length_round_le {places : Nat} (hlen : x.fraction.length ≤ places + 1) :
    (x.round b places).fraction.length ≤ places := by
  unfold round
  split
  · have hkept : x.fraction.dropLast.length ≤ places := by
      rw [List.length_dropLast]
      omega
    simp only
    split
    · rw [length_up]
      exact hkept
    · exact hkept
  · omega

theorem length_trim_le : x.trim.fraction.length ≤ x.fraction.length :=
  (List.rdropWhile_prefix (· == 0) (l := x.fraction)).length_le

end Expansion

/-! ## re-expressed digits -/

theorem number_rebaseInteger (old new : Radix) (ds : List Nat) :
    number new.val (rebaseInteger old new (ds.dropWhile (· == 0))) = number old.val ds := by
  rw [rebaseInteger_dropWhile]
  by_cases h0 : number old.val ds = 0
  · rw [if_pos h0, h0, number_nil]
  · rw [if_neg h0, new.number_digits]

theorem length_expand_le (old new : Radix) (places : Nat) (x : Expansion) :
    (expand old new places x).fraction.length ≤ places :=
  Nat.le_trans Expansion.length_trim_le
    (Expansion.length_round_le (length_rebaseFraction_le _ _ _ _))

/-- the digits at one place more than is kept are those of the floor, and the last of them decides
whether the floor at the places that are kept goes up -/
theorem expand_units (old new : Radix) (places : Nat) {x : Expansion} (h : x.Below old.val) :
    let floor := number old.val (x.integer ++ x.fraction) * new.val ^ (places + 1)
      / old.val ^ x.fraction.length
    (expand old new places x).units new.val places
      = floor / new.val + if new.val ≤ floor % new.val * 2 then 1 else 0 := by
  intro floor
  have ho := old.two_le
  have hn := new.two_le
  have hpow : 0 < old.val ^ x.fraction.length := Nat.pow_pos (by omega)
  have hfraction := number_rebaseFraction ho (by omega : 0 < new.val) (places + 1) h.fraction
  have hinteger := number_rebaseInteger old new x.integer
  have hlen := length_rebaseFraction_le old.val new.val (places + 1) x.fraction
  have hbelow := rebaseFraction_lt (by omega) (by omega : 0 < new.val) (places + 1) h.fraction
  have hi := rebaseInteger_lt old new (x.integer.dropWhile (· == 0))
  unfold expand
  generalize rebaseFraction old.val new.val (places + 1) x.fraction = qs at *
  generalize rebaseInteger old new (x.integer.dropWhile (· == 0)) = is at *
  have hguarded : Expansion.units new.val (places + 1) ⟨is, qs⟩ = floor := by
    have hplaces : new.val ^ qs.length * new.val ^ (places + 1 - qs.length)
        = new.val ^ (places + 1) := by
      rw [← pow_add, Nat.add_sub_cancel' hlen]
    show number new.val (is ++ qs) * new.val ^ (places + 1 - qs.length)
      = number old.val (x.integer ++ x.fraction) * new.val ^ (places + 1)
        / old.val ^ x.fraction.length
    rw [number_append, number_append, hinteger]
    calc (number old.val x.integer * new.val ^ qs.length + number new.val qs)
          * new.val ^ (places + 1 - qs.length)
        = number old.val x.integer * (new.val ^ qs.length * new.val ^ (places + 1 - qs.length))
          + number new.val qs * new.val ^ (places + 1 - qs.length) := by ring
      _ = (number old.val x.fraction * new.val ^ (places + 1)
          + number old.val x.integer * new.val ^ (places + 1) * old.val ^ x.fraction.length)
          / old.val ^ x.fraction.length := by
        rw [hplaces, hfraction, Nat.add_mul_div_right _ _ hpow, Nat.add_comm]
      _ = _ := by
        congr 1
        ring
  have hround := Expansion.units_round (x := ⟨is, qs⟩) hn hlen ⟨hi, hbelow⟩
  rw [hguarded] at hround
  show (Expansion.trim (Expansion.round new.val places ⟨is, qs⟩)).units new.val places = _
  rw [Expansion.units_trim (Expansion.length_round_le hlen), hround]

/-! ## the digit that decides -/

namespace Radix

variable (r : Radix) (s : ℚ)

/-- the digit behind the last place of a number in units of that place -/
def guard : ℤ := ⌊s * r.val⌋ % r.val

/-- a number in units of the last place, up by one when the digit behind is at least half of the
radix -/
def rounded : ℤ := ⌊s⌋ + if (r.val : ℤ) ≤ r.guard s * 2 then 1 else 0

/-- one half or more is left behind the last place, but less than the next digit shows: a number
that only an odd radix has -/
def HidesHalf : Prop :=
  Odd r.val ∧ 1 / 2 ≤ Int.fract s ∧ Int.fract s < 1 / 2 + 1 / (2 * r.val)

theorem cast_pos : (0 : ℚ) < r.val :=
  Nat.cast_pos.mpr (Nat.lt_of_lt_of_le Nat.two_pos r.two_le)

theorem floor_mul_div : ⌊s * r.val⌋ / (r.val : ℤ) = ⌊s⌋ := by
  have hne : (r.val : ℚ) ≠ 0 := r.cast_pos.ne'
  rw [← Int.floor_div_natCast, mul_div_assoc, div_self hne, mul_one]

theorem guard_bounds :
    (r.guard s : ℚ) ≤ Int.fract s * r.val ∧ Int.fract s * r.val < r.guard s + 1 := by
  have hsplit : (r.val : ℤ) * ⌊s⌋ + r.guard s = ⌊s * r.val⌋ := by
    rw [← r.floor_mul_div s]
    exact Int.mul_ediv_add_emod _ _
  have hcast : (r.val : ℚ) * ⌊s⌋ + r.guard s = ⌊s * r.val⌋ := by exact_mod_cast hsplit
  have hle := Int.floor_le (s * r.val)
  have hlt := Int.lt_floor_add_one (s * r.val)
  have hfract : Int.fract s * r.val = s * r.val - r.val * ⌊s⌋ := by
    unfold Int.fract
    ring
  rw [hfract]
  constructor
  · linarith
  · linarith

/-- the digit is at least half of the radix when one half or more is left, unless it hides that -/
theorem half_le_guard_iff :
    (r.val : ℤ) ≤ r.guard s * 2 ↔ 1 / 2 ≤ Int.fract s ∧ ¬ r.HidesHalf s := by
  obtain ⟨hle, hlt⟩ := r.guard_bounds s
  have hpos : (0 : ℚ) < 2 * r.val := by
    have := r.cast_pos
    linarith
  have hhalf : 1 / 2 ≤ Int.fract s ↔ (r.val : ℚ) ≤ 2 * (Int.fract s * r.val) := by
    rw [← mul_le_mul_iff_left₀ hpos]
    constructor <;> intro h <;> linarith
  have hbound : Int.fract s < 1 / 2 + 1 / (2 * r.val)
      ↔ 2 * (Int.fract s * r.val) < r.val + 1 := by
    have hmul : (1 / 2 + 1 / (2 * (r.val : ℚ))) * (2 * r.val) = r.val + 1 := by
      have := r.cast_pos.ne'
      field_simp
    rw [← mul_lt_mul_iff_left₀ hpos, hmul]
    constructor <;> intro h <;> linarith
  unfold HidesHalf
  rw [hhalf, hbound]
  generalize r.guard s = g at *
  generalize Int.fract s * r.val = left at *
  constructor
  · intro hup
    have hup' : (r.val : ℚ) ≤ g * 2 := by exact_mod_cast hup
    refine ⟨by linarith, ?_⟩
    rintro ⟨⟨k, hk⟩, -, hhidden⟩
    -- twice a digit is even, so it is above an odd radix by one
    have hodd : (r.val : ℤ) + 1 ≤ g * 2 := by omega
    have hodd' : (r.val : ℚ) + 1 ≤ g * 2 := by exact_mod_cast hodd
    linarith
  · rintro ⟨hreached, hshown⟩
    by_contra hdown
    rcases Nat.even_or_odd r.val with ⟨k, hk⟩ | hodd
    · -- twice a digit below an even radix is below it by two
      have heven : g * 2 + 2 ≤ (r.val : ℤ) := by omega
      have heven' : (g : ℚ) * 2 + 2 ≤ r.val := by exact_mod_cast heven
      linarith
    · have hnext : g * 2 + 1 ≤ (r.val : ℤ) := by omega
      have hnext' : (g : ℚ) * 2 + 1 ≤ r.val := by exact_mod_cast hnext
      exact hshown ⟨hodd, hreached, by linarith⟩

theorem floor_add_half : ⌊s + 1 / 2⌋ = ⌊s⌋ + if 1 / 2 ≤ Int.fract s then 1 else 0 := by
  have hsplit := Int.floor_add_fract s
  have hnonneg := Int.fract_nonneg s
  have hlt := Int.fract_lt_one s
  rw [Int.floor_eq_iff]
  split
  · push_cast
    constructor <;> linarith
  · push_cast
    constructor <;> linarith

/-- half up, except for the numbers that hide their half -/
theorem rounded_eq_iff : r.rounded s = ⌊s + 1 / 2⌋ ↔ ¬ r.HidesHalf s := by
  have hguard := r.half_le_guard_iff s
  unfold rounded
  rw [floor_add_half]
  by_cases hhides : r.HidesHalf s
  · rw [if_neg fun h => (hguard.mp h).2 hhides, if_pos hhides.2.1]
    simp [hhides]
  · by_cases hhalf : 1 / 2 ≤ Int.fract s
    · rw [if_pos (hguard.mpr ⟨hhalf, hhides⟩), if_pos hhalf]
      simp [hhides]
    · rw [if_neg fun h => hhalf (hguard.mp h).1, if_neg hhalf]
      simp [hhides]

theorem rounded_of_hidesHalf {r : Radix} {s : ℚ} (h : r.HidesHalf s) : r.rounded s = ⌊s⌋ := by
  unfold rounded
  rw [if_neg fun hup => ((r.half_le_guard_iff s).mp hup).2 h, add_zero]

end Radix

/-! ## the value of re-expressed digits -/

/-- the number that digits before and behind the point denote -/
def Expansion.value (b : ℕ) (x : Expansion) : ℚ :=
  (number b (x.integer ++ x.fraction) : ℚ) / (b : ℚ) ^ x.fraction.length

theorem Expansion.value_eq_units {b : ℕ} (hb : 0 < b) {x : Expansion} {places : ℕ}
    (h : x.fraction.length ≤ places) : x.value b = (x.units b places : ℚ) / (b : ℚ) ^ places := by
  have hne : (b : ℚ) ≠ 0 := Nat.cast_ne_zero.mpr (by omega)
  have hplaces : (b : ℚ) ^ places = b ^ (places - x.fraction.length) * b ^ x.fraction.length := by
    rw [← pow_add, Nat.sub_add_cancel h]
  unfold value units
  rw [hplaces, Nat.cast_mul, Nat.cast_pow, mul_comm (b ^ (places - x.fraction.length) : ℚ),
    mul_div_mul_right _ _ (pow_ne_zero _ hne)]

/-- re-expressed digits denote the number that the old ones denote, rounded -/
theorem expand_value (old new : Radix) (places : ℕ) {x : Expansion} (h : x.Below old.val) :
    (expand old new places x).value new.val
      = new.rounded (x.value old.val * new.val ^ places) / new.val ^ places := by
  have hpos : 0 < new.val := Nat.lt_of_lt_of_le Nat.two_pos new.two_le
  have hunits := expand_units old new places h
  simp only at hunits
  have hfloor : ⌊x.value old.val * (new.val : ℚ) ^ places * new.val⌋
      = ((number old.val (x.integer ++ x.fraction) * new.val ^ (places + 1)
        / old.val ^ x.fraction.length : ℕ) : ℤ) := by
    have hvalue : x.value old.val * (new.val : ℚ) ^ places * new.val
        = ((number old.val (x.integer ++ x.fraction) * new.val ^ (places + 1) : ℕ) : ℚ)
          / ((old.val ^ x.fraction.length : ℕ) : ℚ) := by
      unfold Expansion.value
      push_cast
      ring
    rw [hvalue, Rat.floor_natCast_div_natCast, Int.natCast_div]
  rw [Expansion.value_eq_units hpos (length_expand_le old new places x), hunits]
  congr 1
  unfold Radix.rounded Radix.guard
  rw [← new.floor_mul_div, hfloor]
  generalize number old.val (x.integer ++ x.fraction) * new.val ^ (places + 1)
    / old.val ^ x.fraction.length = floor
  norm_cast

/-! ## texts -/

/-- the number that digits before and behind a point denote -/
def Radix.value (r : Radix) (integer fraction : List Char) : ℚ :=
  Numeral.mantissa ⟨integer, fraction, r, none⟩

theorem map_digitNumber_digitChar {r : Radix} {ds : List Nat} (h : ∀ d ∈ ds, d < r.val) :
    (ds.map digitChar).map digitNumber = ds := by
  have hmap : ds.map (digitNumber ∘ digitChar) = ds.map id := by
    apply List.map_congr_left
    intro d hd
    exact Radix.digitNumber_digitChar (Nat.lt_of_lt_of_le (h d hd) r.le_max)
  rw [List.map_map, hmap, List.map_id]

namespace Expansion

variable {x : Expansion}

theorem Below.text_digits {r : Radix} (h : x.Below r.val) :
    ∀ c ∈ x.integerText ++ x.fractionText.getD [], ∃ d, digitValue c r.val = .ok d := by
  obtain ⟨is, htext, -, hbelow, -⟩ := h.exists_digits
  intro c hc
  rw [htext, getD_fractionText, ← List.map_append] at hc
  obtain ⟨d, hd, rfl⟩ := List.mem_map.mp hc
  exact ⟨d, digitValue_digitChar (hbelow d hd) r.le_max⟩

theorem Below.value_text {r : Radix} (h : x.Below r.val) :
    r.value x.integerText (x.fractionText.getD []) = x.value r.val := by
  obtain ⟨is, htext, -, hbelow, hnumber⟩ := h.exists_digits
  unfold Radix.value Numeral.mantissa value
  rw [htext, getD_fractionText, ← List.map_append]
  simp only [map_digitNumber_digitChar hbelow, List.length_map, hnumber]

/-- the digits of a text -/
def ofText (integer fraction : List Char) : Expansion :=
  ⟨integer.map digitNumber, fraction.map digitNumber⟩

theorem value_ofText (r : Radix) (integer fraction : List Char) :
    (ofText integer fraction).value r.val = r.value integer fraction := by
  unfold Radix.value Numeral.mantissa value ofText
  simp only [List.map_append, List.length_map]

end Expansion

/-! ## reading and re-expressing -/

theorem splitPoint_write {i : List Char} (hi : '.' ∉ i) (f : Option (List Char)) :
    splitPoint (i ++ Literal.writeFraction f) = (i, f.getD []) := by
  cases f with
  | none =>
    show splitPoint (i ++ []) = (i, [])
    rw [List.append_nil, splitPoint_of_no_point hi]
  | some fs =>
    have hall : ∀ c ∈ i, decide (c ≠ '.') = true := by
      intro c hc
      apply decide_eq_true
      intro e
      exact hi (e ▸ hc)
    have hstop : Stops (fun c => decide (c ≠ '.')) ('.' :: fs) := stops_cons (by decide)
    obtain ⟨htake, hdrop⟩ := takeWhile_append_stops hall hstop
    show ((i ++ '.' :: fs).takeWhile _, ((i ++ '.' :: fs).dropWhile _).drop 1) = (i, fs)
    rw [htake, hdrop]
    rfl

theorem convert_val (old new : Radix) (text : List Char) :
    convert text old.val new.val = rebase old new text := by
  unfold convert
  rw [old.ofNat_val, new.ofNat_val]
  rfl

section
variable (old new : Radix) {i : List Char} {f : Option (List Char)}
  (h : ∀ c ∈ i ++ f.getD [], ∃ d, digitValue c old.val = .ok d)
include h

theorem readExpansion_text :
    readExpansion old (i ++ Literal.writeFraction f) = .ok (.ofText i (f.getD [])) := by
  obtain ⟨hi, hf⟩ := List.forall_mem_append.mp h
  have hpoint : '.' ∉ i := by
    intro hmem
    obtain ⟨d, hd⟩ := hi '.' hmem
    cases hd
  unfold readExpansion
  rw [splitPoint_write hpoint]
  show (digitsOf old.val i >>= fun _ => digitsOf old.val (f.getD []) >>= _) = _
  rw [digitsOf_of_digits hi, digitsOf_of_digits hf]
  rfl

theorem ofText_below : (Expansion.ofText i (f.getD [])).Below old.val := by
  obtain ⟨hi, hf⟩ := List.forall_mem_append.mp h
  exact ⟨(digitsOf_ok (digitsOf_of_digits hi)).2, (digitsOf_ok (digitsOf_of_digits hf)).2⟩

theorem rebaseTo_text (places : ℕ → ℕ) :
    rebaseTo places old new (i ++ Literal.writeFraction f)
      = .ok (expand old new (places (f.getD []).length) (.ofText i (f.getD []))).write := by
  unfold rebaseTo
  rw [readExpansion_text old h]
  show Except.ok (expand old new (places ((f.getD []).map digitNumber).length) _).write = _
  rw [List.length_map]

theorem convert_text :
    convert (i ++ Literal.writeFraction f) old.val new.val
      = .ok (expand old new (fractionPlaces (f.getD []).length old new)
          (.ofText i (f.getD []))).write := by
  rw [convert_val]
  exact rebaseTo_text old new h _

/-- re-expressing a text rounds its number by the digit behind the last place -/
theorem rebaseTo_rounds (places : ℕ) :
    ∃ x : Expansion, x = expand old new places (.ofText i (f.getD [])) ∧ x.Below new.val ∧
      rebaseTo (fun _ => places) old new (i ++ Literal.writeFraction f)
        = .ok (x.integerText ++ Literal.writeFraction x.fractionText) ∧
      (places = fractionPlaces (f.getD []).length old new →
        convert (i ++ Literal.writeFraction f) old.val new.val
          = .ok (x.integerText ++ Literal.writeFraction x.fractionText)) ∧
      new.value x.integerText (x.fractionText.getD [])
        = new.rounded (old.value i (f.getD []) * new.val ^ places) / new.val ^ places := by
  have hold := ofText_below old h
  have hnew := expand_below old new places hold.fraction
  refine ⟨_, rfl, hnew, ?_, ?_, ?_⟩
  · rw [rebaseTo_text old new h, Expansion.write_eq_text]
  · rintro rfl
    rw [convert_text old new h, Expansion.write_eq_text]
  · rw [hnew.value_text, expand_value old new places hold, Expansion.value_ofText]

end

/-- **A fraction is rounded half up, unless an odd radix hides the half.**  Digits of a radix,
before and behind a point, are re-expressed in any other radix with any given number of places, and
converting takes the number of places from the estimate.  The result has digits of the new radix. It
denotes the number rounded half up to these places if and only if it is not so that the radix is odd
and the number is above the floor by one half or more, but by less than half a digit more; and such
a number is rounded down. -/
theorem convert_rounds_half_up_iff (old new : Radix) (i f : List Char)
    (h : ∀ c ∈ i ++ f, ∃ d, digitValue c old.val = .ok d) (places : ℕ) :
    ∃ (i' : List Char) (f' : Option (List Char)),
      rebaseTo (fun _ => places) old new (i ++ '.' :: f) = .ok (i' ++ Literal.writeFraction f') ∧
      (places = fractionPlaces f.length old new →
        convert (i ++ '.' :: f) old.val new.val = .ok (i' ++ Literal.writeFraction f')) ∧
      (∀ c ∈ i' ++ f'.getD [], ∃ d, digitValue c new.val = .ok d) ∧
      (new.value i' (f'.getD [])
          = ⌊old.value i f * new.val ^ places + 1 / 2⌋ / new.val ^ places ↔
        ¬ new.HidesHalf (old.value i f * new.val ^ places)) ∧
      (new.HidesHalf (old.value i f * new.val ^ places) →
        new.value i' (f'.getD []) = ⌊old.value i f * new.val ^ places⌋ / new.val ^ places) := by
  obtain ⟨x, -, hbelow, hrebase, hconvert, hvalue⟩ :=
    rebaseTo_rounds old new (f := some f) h places
  have hpow : (new.val : ℚ) ^ places ≠ 0 := pow_ne_zero _ new.cast_pos.ne'
  rw [Option.getD_some] at hvalue
  refine ⟨_, _, hrebase, hconvert, hbelow.text_digits, ?_, ?_⟩
  · rw [hvalue, div_left_inj' hpow, Int.cast_inj]
    exact new.rounded_eq_iff _
  · intro hhides
    rw [hvalue, Radix.rounded_of_hidesHalf hhides]

/-- the largest radix -/
def thirtySix : Radix := ⟨36, by decide, by decide⟩

/-- a carry that runs through the fraction and on into the integer -/
theorem carried_fraction_rounds :
    (∀ c ∈ "Z".toList ++ "ZZ".toList, ∃ d, digitValue c thirtySix.val = .ok d) ∧
    ∃ (i' : List Char) (f' : Option (List Char)),
      rebaseTo (fun _ => 1) thirtySix Radix.ten "Z.ZZ".toList
        = .ok (i' ++ Literal.writeFraction f') ∧
      i' ++ Literal.writeFraction f' = "36".toList ∧
      Radix.ten.value i' (f'.getD [])
        = ⌊thirtySix.value "Z".toList "ZZ".toList * 10 ^ 1 + 1 / 2⌋ / 10 ^ 1 := by
  have hdigits : ∀ c ∈ "Z".toList ++ "ZZ".toList, ∃ d, digitValue c thirtySix.val = .ok d := by
    intro c hc
    obtain rfl : c = 'Z' := by simpa using hc
    exact ⟨35, rfl⟩
  have hresult : rebaseTo (fun _ => 1) thirtySix Radix.ten "Z.ZZ".toList = .ok "36".toList := by
    decide +kernel
  obtain ⟨i', f', hrebase, -, -, hiff, -⟩ :=
    convert_rounds_half_up_iff thirtySix Radix.ten _ _ hdigits 1
  refine ⟨hdigits, i', f', hrebase, Except.ok.inj (hrebase.symm.trans hresult), hiff.mpr ?_⟩
  rintro ⟨hodd, -⟩
  exact absurd hodd (by decide)

/-- radix two -/
def two : Radix := ⟨2, by decide, by decide⟩

/-- radix three -/
def three : Radix := ⟨3, by decide, by decide⟩

/-- one half never shows in radix three, however many places are kept -/
theorem three_hidesHalf (places : ℕ) : three.HidesHalf (1 / 2 * three.val ^ places) := by
  obtain ⟨k, hk⟩ : Odd (three.val ^ places) := Odd.pow (by decide)
  have hcast : (three.val : ℚ) ^ places = 2 * k + 1 := by exact_mod_cast hk
  have hvalue : (1 / 2 : ℚ) * three.val ^ places = k + 1 / 2 := by
    rw [hcast]
    ring
  have hfract : Int.fract ((1 / 2 : ℚ) * three.val ^ places) = 1 / 2 := by
    rw [hvalue, Int.fract_natCast_add, Int.fract_eq_self]
    norm_num
  have hpos := three.cast_pos
  refine ⟨by decide, ?_, ?_⟩
  · rw [hfract]
  · rw [hfract, lt_add_iff_pos_right]
    positivity

/-- one half in radix three comes out one unit of the last place too low, whatever the number of
places; with one place it is one third, where half up gives two thirds -/
theorem ternary_half_goes_down :
    (∃ (i' : List Char) (f' : Option (List Char)) (places : ℕ),
      places = fractionPlaces 1 two three ∧
      convert "0.1".toList two.val three.val = .ok (i' ++ Literal.writeFraction f') ∧
      three.value i' (f'.getD [])
        ≠ ⌊two.value ['0'] ['1'] * three.val ^ places + 1 / 2⌋ / three.val ^ places) ∧
    rebaseTo (fun _ => 1) two three "0.1".toList = .ok "0.1".toList ∧
    three.value ['0'] ['1'] = 1 / 3 ∧
    (⌊two.value ['0'] ['1'] * (3 : ℚ) ^ 1 + 1 / 2⌋ : ℚ) / 3 ^ 1 = 2 / 3 := by
  have hdigits : ∀ c ∈ ['0'] ++ (some ['1']).getD [], ∃ d, digitValue c two.val = .ok d := by
    intro c hc
    have hmem : c = '0' ∨ c = '1' := by simpa using hc
    rcases hmem with rfl | rfl
    · exact ⟨0, rfl⟩
    · exact ⟨1, rfl⟩
  have hhalf : two.value ['0'] ['1'] = 1 / 2 := by decide +kernel
  refine ⟨?_, by decide +kernel, by decide +kernel, by decide +kernel⟩
  obtain ⟨x, -, -, -, hconvert, hvalue⟩ :=
    rebaseTo_rounds two three (f := some ['1']) hdigits (fractionPlaces 1 two three)
  refine ⟨_, _, _, rfl, hconvert rfl, ?_⟩
  have hpow : (three.val : ℚ) ^ fractionPlaces 1 two three ≠ 0 :=
    pow_ne_zero _ three.cast_pos.ne'
  rw [hvalue, Option.getD_some, hhalf]
  intro heq
  rw [div_left_inj' hpow, Int.cast_inj, Radix.rounded_eq_iff] at heq
  exact heq (three_hidesHalf _)

end Calculator
