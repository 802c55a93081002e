/-!
# Ranges of code points

A property of characters is given by its ascending list of ranges `(lo, hi)`, both ends
included.  `inRanges` walks the list and stops at the first range that starts above the code
point, so a character of the first block is decided in a few steps whatever the length of the
table.

* `inRanges`          membership in an ascending list of ranges;
* `ascending`         the check that a list of ranges is in order and does not overlap;
* `inRanges_iff`      on an ascending list the early stop loses nothing.
-/

namespace Calculator.Text

/-- membership of a code point in an ascending list of ranges -/
def inRanges : List (Nat × Nat) → Nat → Bool
  | [], _ => false
  | (lo, hi) :: rest, n => if n < lo then false else n ≤ hi || inRanges rest n

/-- every range of the list is above `low`, is not empty, and ends below the next one -/
def ascending (low : Nat) : List (Nat × Nat) → Bool
  | [] => true
  | (lo, hi) :: rest => low ≤ lo && lo ≤ hi && ascending (hi + 1) rest

theorem inRanges_nil (n : Nat) : inRanges [] n = false := rfl

theorem inRanges_cons (lo hi n : Nat) (rest : List (Nat × Nat)) :
    inRanges ((lo, hi) :: rest) n = if n < lo then false else n ≤ hi || inRanges rest n := rfl

theorem le_of_mem_of_ascending {low : Nat} {rs : List (Nat × Nat)} (h : ascending low rs = true)
    {r : Nat × Nat} (hr : r ∈ rs) : low ≤ r.1 := by
  induction rs generalizing low with
  | nil => cases hr
  | cons s rest ih =>
    obtain ⟨lo, hi⟩ := s
    simp only [ascending, Bool.and_eq_true, decide_eq_true_eq] at h
    rcases List.mem_cons.mp hr with rfl | hr
    · exact h.1.1
    · have := ih h.2 hr
      omega

/-- on an ascending list a code point is found exactly when some range holds it -/
theorem inRanges_iff {low : Nat} {rs : List (Nat × Nat)} (h : ascending low rs = true) (n : Nat) :
    inRanges rs n = true ↔ ∃ r ∈ rs, r.1 ≤ n ∧ n ≤ r.2 := by
  induction rs generalizing low with
  | nil => simp [inRanges_nil]
  | cons s rest ih =>
    obtain ⟨lo, hi⟩ := s
    simp only [ascending, Bool.and_eq_true, decide_eq_true_eq] at h
    rw [inRanges_cons]
    by_cases hn : n < lo
    · rw [if_pos hn]
      constructor
      · intro hf; cases hf
      · rintro ⟨r, hr, h1, h2⟩
        rcases List.mem_cons.mp hr with rfl | hr
        · omega
        · have := le_of_mem_of_ascending h.2 hr
          omega
    · rw [if_neg hn]
      simp only [Bool.or_eq_true, decide_eq_true_eq, ih h.2, List.mem_cons]
      constructor
      · rintro (hle | ⟨r, hr, h1⟩)
        · exact ⟨(lo, hi), Or.inl rfl, by omega, hle⟩
        · exact ⟨r, Or.inr hr, h1⟩
      · rintro ⟨r, rfl | hr, h1, h2⟩
        · exact Or.inl h2
        · exact Or.inr ⟨r, hr, h1, h2⟩

end Calculator.Text
