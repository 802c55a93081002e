import Calculator.Numeral.Exponent
import Calculator.Numeral.Rebase

/-!
# Digits, written and read back

Digits are read by value and written as characters.  What a number is written with is read back to
the same digits, an exponent to the same number, and digits that are re-expressed in another radix
denote the same number there.

* `digitNumber`                the value of a digit;
* `digitsOf_ok`, `digitsOf_map_digitChar`   reading a row of digits;
* `readMagnitude_map_digitChar`   reading a magnitude that stays below the limit;
* `Radix.readExponent_writeExponent`   an exponent that was written is read back;
* `rebaseInteger_eq_digits`, `rebaseInteger_lt`   digits in another radix;
* `rebase_integer`             re-expressing a numeral without a point writes its number.
-/

namespace Calculator

theorem bind_eq_ok {ε α β : Type} {x : Except ε α} {f : α → Except ε β} {b : β} :
    (x >>= f) = .ok b ↔ ∃ a, x = .ok a ∧ f a = .ok b := by
  cases x with
  | error e => simp [bind, Except.bind]
  | ok a => simp [bind, Except.bind]

theorem bind_eq_error {ε α β : Type} {x : Except ε α} {f : α → Except ε β} {e : ε} :
    (x >>= f) = .error e ↔ x = .error e ∨ ∃ a, x = .ok a ∧ f a = .error e := by
  cases x with
  | error e => simp [bind, Except.bind]
  | ok a => simp [bind, Except.bind]

/-! ## rows of digits -/

/-- the value of a digit, 0 for a character that is none -/
def digitNumber (c : Char) : Nat := (digitValue? c).getD 0

theorem digitNumber_of_digitValue {c : Char} {radix v : Nat} (h : digitValue c radix = .ok v) :
    digitNumber c = v := by
  unfold digitValue at h
  unfold digitNumber
  split at h
  · rename_i u hu
    split at h
    · cases h
      rw [hu]
      rfl
    · cases h
  · cases h

theorem digitsOf_ok {radix : Nat} {cs : List Char} {ds : List Nat}
    (h : digitsOf radix cs = .ok ds) : ds = cs.map digitNumber ∧ ∀ d ∈ ds, d < radix := by
  induction cs generalizing ds with
  | nil =>
    cases h
    exact ⟨rfl, fun d hd => by cases hd⟩
  | cons c cs ih =>
    obtain ⟨d, hd, h⟩ := bind_eq_ok.mp h
    obtain ⟨ds', hds, h⟩ := bind_eq_ok.mp h
    cases h
    obtain ⟨e, hlt⟩ := ih hds
    refine ⟨?_, ?_⟩
    · rw [List.map_cons, digitNumber_of_digitValue hd, ← e]
    · intro x hx
      rcases List.mem_cons.mp hx with rfl | hx
      · exact digitValue_lt hd
      · exact hlt x hx

theorem digitsOf_map_digitChar {radix : Nat} (h36 : radix ≤ 36) (ds : List Nat)
    (h : ∀ d ∈ ds, d < radix) : digitsOf radix (ds.map digitChar) = .ok ds := by
  induction ds with
  | nil => rfl
  | cons d ds ih =>
    have hd := digitValue_digitChar (h d List.mem_cons_self) h36
    have hds := ih (fun x hx => h x (List.mem_cons_of_mem _ hx))
    show (digitValue (digitChar d) radix >>= fun d => digitsOf radix (ds.map digitChar) >>=
      fun ds => .ok (d :: ds)) = _
    rw [hd, hds]
    rfl

/-! ## exponents -/

theorem readMagnitude_map_digitChar {radix : Nat} (hpos : 0 < radix) (h36 : radix ≤ 36)
    (value : Nat) (ds : List Nat) (h : ∀ d ∈ ds, d < radix)
    (hlt : ds.foldl (fun n d => n * radix + d) value < exponentLimit) :
    readMagnitude radix value (ds.map digitChar)
      = .ok (ds.foldl (fun n d => n * radix + d) value) := by
  induction ds generalizing value with
  | nil => rfl
  | cons d ds ih =>
    have hd := digitValue_digitChar (h d List.mem_cons_self) h36
    rw [List.foldl_cons] at hlt ⊢
    -- a magnitude never shrinks, so the value so far is below the bound too
    have hstep : value * radix + d < exponentLimit :=
      Nat.lt_of_le_of_lt (le_foldl_digits hpos ds _) hlt
    rw [List.map_cons, readMagnitude, hd]
    show (if _ then _ else _) = _
    rw [if_pos hstep]
    exact ih _ (fun x hx => h x (List.mem_cons_of_mem _ hx)) hlt

theorem readMagnitude_lt {radix value n : Nat} {cs : List Char} (hv : value < exponentLimit)
    (h : readMagnitude radix value cs = .ok n) : n < exponentLimit := by
  induction cs generalizing value with
  | nil =>
    cases h
    exact hv
  | cons c cs ih =>
    rw [readMagnitude] at h
    obtain ⟨d, -, h⟩ := bind_eq_ok.mp h
    split at h
    · rename_i hstep
      exact ih hstep h
    · cases h

namespace Radix

theorem digits_lt (r : Radix) (n : Nat) : ∀ d ∈ r.digits n, d < r.val := by
  induction n using Nat.strongRecOn with
  | _ n ih =>
    intro d hd
    have h2 := r.two_le
    rw [digits] at hd
    split at hd
    · rw [List.mem_singleton.mp hd]
      assumption
    · rcases List.mem_append.mp hd with hd | hd
      · exact ih _ (Nat.div_lt_self (by omega) h2) d hd
      · rw [List.mem_singleton.mp hd]
        exact Nat.mod_lt _ (by omega)

theorem digits_ne_nil (r : Radix) (n : Nat) : r.digits n ≠ [] := by
  rw [digits]
  split
  · exact List.cons_ne_nil _ _
  · exact List.append_ne_nil_of_right_ne_nil _ (List.cons_ne_nil _ _)

theorem write_ne_nil (r : Radix) (n : Nat) : r.write n ≠ [] :=
  fun h => r.digits_ne_nil n (List.map_eq_nil_iff.mp h)

theorem digits_of_lt (r : Radix) {n : Nat} (h : n < r.val) : r.digits n = [n] := by
  rw [digits, if_pos h]

theorem digits_mul_add (r : Radix) {n d : Nat} (hn : 0 < n) (hd : d < r.val) :
    r.digits (n * r.val + d) = r.digits n ++ [d] := by
  have hle : r.val ≤ n * r.val := Nat.le_mul_of_pos_left r.val hn
  have hdiv : (n * r.val + d) / r.val = n := by
    rw [Nat.add_comm, Nat.add_mul_div_right _ _ (by omega), Nat.div_eq_of_lt hd, Nat.zero_add]
  have hmod : (n * r.val + d) % r.val = d := by
    rw [Nat.mul_comm, Nat.mul_add_mod, Nat.mod_eq_of_lt hd]
  rw [digits, if_neg (by omega), hdiv, hmod]

theorem readExponent_natAbs_lt {r : Radix} {text : List Char} {v : Int}
    (h : r.readExponent text = .ok v) : v.natAbs < exponentLimit := by
  unfold readExponent at h
  split at h
  · cases h
  · obtain ⟨n, hn, h⟩ := bind_eq_ok.mp h
    have hlt := readMagnitude_lt (by decide) hn
    cases h
    split
    · rw [Int.natAbs_neg, Int.natAbs_natCast]
      exact hlt
    · rw [Int.natAbs_natCast]
      exact hlt

theorem readExponent_of_signed {r : Radix} {text ds : List Char} {negative : Bool} {n : Nat}
    (hs : signed text = (negative, ds)) (hne : ds ≠ []) (h : readMagnitude r.val 0 ds = .ok n) :
    r.readExponent text = .ok (if negative then -(n : Int) else n) := by
  unfold readExponent
  rw [hs, if_neg (by simpa using hne)]
  show (readMagnitude r.val 0 ds >>= _) = _
  rw [h]
  rfl

theorem readExponent_writeExponent (r : Radix) {v : Int} (h : v.natAbs < exponentLimit) :
    r.readExponent (r.writeExponent v) = .ok v := by
  have h2 := r.two_le
  have hne := r.write_ne_nil v.natAbs
  have hnum : number r.val (r.digits v.natAbs) = v.natAbs := r.number_digits _
  have hread : readMagnitude r.val 0 (r.write v.natAbs) = .ok v.natAbs := by
    have hlt : number r.val (r.digits v.natAbs) < exponentLimit := by
      rw [hnum]
      exact h
    have := readMagnitude_map_digitChar (by omega) r.le_max 0 (r.digits v.natAbs) (r.digits_lt _)
      hlt
    rw [write, this]
    exact congrArg Except.ok hnum
  unfold writeExponent
  by_cases hneg : v < 0
  · have hs : signed ('-' :: r.write v.natAbs) = (true, r.write v.natAbs) := rfl
    rw [if_pos hneg, readExponent_of_signed hs hne hread]
    congr 1
    show -(v.natAbs : Int) = v
    omega
  · have hs : signed ('+' :: r.write v.natAbs) = (false, r.write v.natAbs) := rfl
    rw [if_neg hneg, readExponent_of_signed hs hne hread]
    congr 1
    show (v.natAbs : Int) = v
    omega

end Radix

/-! ## digits in another radix -/

theorem remainder_lt {old new : Nat} (h : 0 < new) (ds : List Nat) : remainder old new ds < new :=
  Nat.mod_lt _ h

theorem rebaseInteger_lt (old new : Radix) (ds : List Nat) :
    ∀ d ∈ rebaseInteger old new ds, d < new.val := by
  have h2 := new.two_le
  induction ds using rebaseInteger.induct old new with
  | case1 =>
    intro d hd
    rw [rebaseInteger, dif_pos rfl] at hd
    cases hd
  | case2 ds hds ih =>
    intro d hd
    rw [rebaseInteger, dif_neg hds] at hd
    rcases List.mem_append.mp hd with hd | hd
    · exact ih d hd
    · rw [List.mem_singleton.mp hd]
      exact remainder_lt (by omega) ds

/-- digits in the new radix are the digits of the number that the old ones denote -/
theorem rebaseInteger_eq_digits (old new : Radix) (ds : List Nat) (h : 0 < number old.val ds) :
    rebaseInteger old new ds = new.digits (number old.val ds) := by
  have ho := old.two_le
  have hn := new.two_le
  induction ds using rebaseInteger.induct old new with
  | case1 => exact absurd h (Nat.lt_irrefl 0)
  | case2 ds hds ih =>
    have hlaw := number_quotient_mul_add old.val new.val ds
    have hrem : remainder old.val new.val ds < new.val := remainder_lt (by omega) ds
    rw [rebaseInteger, dif_neg hds]
    by_cases hq : number old.val (quotient old.val new.val ds) = 0
    · -- the last remainder is the first digit
      rw [hq, Nat.zero_mul, Nat.zero_add] at hlaw
      rw [quotient_eq_nil (by omega) hq, rebaseInteger, dif_pos rfl, List.nil_append, hlaw,
        new.digits_of_lt (by omega)]
    · have hpos : 0 < number old.val (quotient old.val new.val ds) := by omega
      rw [ih hpos, ← new.digits_mul_add hpos hrem, hlaw]

/-- digits in the new radix, zeros in front left aside: none for zero -/
theorem rebaseInteger_dropWhile (old new : Radix) (ds : List Nat) :
    rebaseInteger old new (ds.dropWhile (· == 0))
      = if number old.val ds = 0 then [] else new.digits (number old.val ds) := by
  have ho := old.two_le
  by_cases h0 : number old.val ds = 0
  · rw [dropWhile_zero_eq_nil (by omega) h0, rebaseInteger, dif_pos rfl, if_pos h0]
  · have hpos : 0 < number old.val (ds.dropWhile (· == 0)) := by
      rw [number_dropWhile_zero]
      omega
    rw [rebaseInteger_eq_digits old new _ hpos, number_dropWhile_zero, if_neg h0]

theorem splitPoint_of_no_point {text : List Char} (h : '.' ∉ text) :
    splitPoint text = (text, []) := by
  have hall : ∀ c ∈ text, decide (c ≠ '.') = true := by
    intro c hc
    exact decide_eq_true fun e => h (e ▸ hc)
  have htake : text.takeWhile (· ≠ '.') = text := by
    have h₀ : (text ++ []).takeWhile (· ≠ '.') = text ++ [].takeWhile (· ≠ '.') :=
      List.takeWhile_append_of_pos hall
    simpa using h₀
  have hdrop : text.dropWhile (· ≠ '.') = [] := by
    have h₀ : (text ++ []).dropWhile (· ≠ '.') = [].dropWhile (· ≠ '.') :=
      List.dropWhile_append_of_pos hall
    simpa using h₀
  unfold splitPoint
  rw [htake, hdrop]
  rfl

theorem expand_integer (old new : Radix) (places : Nat) (ds : List Nat) :
    expand old new places ⟨ds, []⟩ = ⟨rebaseInteger old new (ds.dropWhile (· == 0)), []⟩ := by
  rfl

theorem rebase_integer {old : Radix} (new : Radix) {text : List Char} {ds : List Nat}
    (hp : '.' ∉ text) (h : digitsOf old.val text = .ok ds) :
    rebase old new text = .ok (new.write (number old.val ds)) := by
  have hn := new.two_le
  have hread : readExpansion old text = .ok ⟨ds, []⟩ := by
    unfold readExpansion
    rw [splitPoint_of_no_point hp]
    show (digitsOf old.val text >>= _) = _
    rw [h]
    rfl
  have hrebase : rebase old new text
      = .ok (Expansion.write ⟨rebaseInteger old new (ds.dropWhile (· == 0)), []⟩) := by
    unfold rebase rebaseTo
    rw [hread]
    exact congrArg (fun x => Except.ok (Expansion.write x)) (expand_integer old new _ ds)
  rw [hrebase, rebaseInteger_dropWhile]
  by_cases h0 : number old.val ds = 0
  · -- zero has no digits left, and is written as a lone zero
    rw [if_pos h0, h0, Radix.write, new.digits_of_lt (by omega)]
    rfl
  · rw [if_neg h0]
    unfold Expansion.write Radix.write
    rw [if_neg (by simpa using new.digits_ne_nil _)]
    exact congrArg Except.ok (List.append_nil _)

end Calculator
