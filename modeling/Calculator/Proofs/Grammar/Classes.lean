import Calculator.Proofs.Grammar.Builtin

/-!
# What registrations check

A registration of a character is checked against a Unicode class: whitespace is blank, letters are
alphabetic and digits are alphabetic or numeric.  Blank characters are neither, so whitespace never
is a letter or a digit.

* `Text.apart`                  the check that two tables have no code point in common;
* `Text.not_word_of_isBlank`    blank characters are no part of a word;
* `Draft.require_eq_ok`, `Draft.requireUnset_eq_ok`, `Draft.requirePunctuator_eq_ok`   what a step
                                says that has passed its check.
-/

namespace Calculator

namespace Text

/-- do the tables have no code point in common -/
def apart (rs ts : List (Nat × Nat)) : Bool :=
  rs.all fun r => ts.all fun t => r.2 < t.1 || t.2 < r.1

theorem not_inRanges_of_apart {rs ts : List (Nat × Nat)} (hrs : ascending 0 rs = true)
    (hts : ascending 0 ts = true) (h : apart rs ts = true) {n : Nat} (hn : inRanges rs n = true) :
    inRanges ts n = false := by
  obtain ⟨r, hr, hr₁, hr₂⟩ := (inRanges_iff hrs n).mp hn
  refine Bool.eq_false_iff.mpr fun hin => ?_
  obtain ⟨t, ht, ht₁, ht₂⟩ := (inRanges_iff hts n).mp hin
  have hpair := List.all_eq_true.mp (List.all_eq_true.mp h r hr) t ht
  simp only [Bool.or_eq_true, decide_eq_true_eq] at hpair
  omega

theorem not_word_of_isBlank {c : Char} (h : isBlank c = true) :
    isAlphabetic c = false ∧ isNumeric c = false :=
  ⟨not_inRanges_of_apart blankRanges_ascending alphabeticRanges_ascending (by decide +kernel) h,
    not_inRanges_of_apart blankRanges_ascending numericRanges_ascending (by decide +kernel) h⟩

end Text

namespace Draft

theorem require_eq_ok {check : Bool} {cause : Cause} {next d' : Draft}
    (h : require check cause next = .ok d') : check = true ∧ next = d' := by
  unfold require at h
  split at h
  · rename_i hc
    exact ⟨hc, Except.ok.inj h⟩
  · cases h

theorem requireUnset_eq_ok {α : Type} {current : Option α} {field : String}
    {next : Except Error Draft} {d' : Draft} (h : requireUnset current field next = .ok d') :
    current = none ∧ next = .ok d' := by
  unfold requireUnset at h
  split at h
  · cases h
  · rename_i hc
    exact ⟨Option.not_isSome_iff_eq_none.mp hc, h⟩

theorem requirePunctuator_eq_ok {d : Draft} {c : Char} {next : Except Error Draft} {d' : Draft}
    (h : d.requirePunctuator c next = .ok d') :
    d.grammar.isPunctuator c = true ∧ next = .ok d' := by
  unfold requirePunctuator at h
  split at h
  · rename_i hc
    exact ⟨hc, h⟩
  · cases h

end Draft

end Calculator
