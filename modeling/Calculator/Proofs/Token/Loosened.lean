import Calculator.Proofs.Grammar.Classes
import Calculator.Proofs.Token.Seams

/-!
# Blanks behind a piece do not matter

Blanks are no part of any piece in a grammar that keeps them apart, so they are separators: where
blanks are put in behind a piece, a scan sees a blank there or the character that it saw before, and
gives the same.

* `Loosened blank cs ds`      blanks are put into `cs`, which gives `ds`;
* `Rules.BlanksApart`         what is asked of blanks;
* `Rules.BlanksApart.apart`   blanks are separators;
* `Rules.scan_loosened`       a scan gives the same before a loosened rest.
-/

namespace Calculator

/-! ## texts with blanks put in -/

/-- blanks are put into the first text, which gives the second one -/
inductive Loosened (blank : Char → Bool) : List Char → List Char → Prop where
  | nil : Loosened blank [] []
  | keep {c : Char} {cs ds : List Char} : Loosened blank cs ds → Loosened blank (c :: cs) (c :: ds)
  | insert {w : Char} {cs ds : List Char} : blank w = true → Loosened blank cs ds →
      Loosened blank cs (w :: ds)

namespace Loosened

variable {blank : Char → Bool}

theorem refl (cs : List Char) : Loosened blank cs cs := by
  induction cs with
  | nil => exact nil
  | cons c cs ih => exact keep ih

theorem append_left (part : List Char) {cs ds : List Char} (h : Loosened blank cs ds) :
    Loosened blank (part ++ cs) (part ++ ds) := by
  induction part with
  | nil => exact h
  | cons c part ih => exact keep ih

theorem insert_all {gap cs ds : List Char} (hgap : ∀ w ∈ gap, blank w = true)
    (h : Loosened blank cs ds) : Loosened blank cs (gap ++ ds) := by
  induction gap with
  | nil => exact h
  | cons w gap ih =>
    obtain ⟨hw, hgap⟩ := List.forall_mem_cons.mp hgap
    exact insert hw (ih hgap)

/-- a loosened text goes like the text itself up to the first blank that was put in -/
theorem parted {cs ds : List Char} (h : Loosened blank cs ds) : Parted blank cs ds := by
  induction h with
  | nil => exact .nil
  | keep h ih => exact .keep ih
  | insert hw h ih => exact .cut hw

theorem all_blank {cs ds : List Char} (h : Loosened blank cs ds) (hs : ∀ c ∈ cs, blank c = true) :
    ∀ c ∈ ds, blank c = true := by
  induction h with
  | nil => exact hs
  | keep h ih =>
    obtain ⟨hc, hs⟩ := List.forall_mem_cons.mp hs
    exact List.forall_mem_cons.mpr ⟨hc, ih hs⟩
  | insert hw h ih => exact List.forall_mem_cons.mpr ⟨hw, ih hs⟩

end Loosened

namespace Rules

/-- blanks are no part of any piece -/
structure BlanksApart (ρ : Rules) : Prop where
  letters : ∀ w, ρ.grammar.isWhitespace w = true → ρ.grammar.isLetter w = false
  digits : ∀ w, ρ.grammar.isWhitespace w = true → ρ.grammar.isDigit w = false
  blank : ∀ w, ρ.grammar.isWhitespace w = true → Text.isBlank w = true
  names : ∀ k ∈ ρ.grammar.kinds, ∀ w ∈ k.name, ρ.grammar.isWhitespace w = false

variable {ρ : Rules} (hρ : ρ.BlanksApart)
include hρ

theorem BlanksApart.compound {w : Char} (hw : ρ.grammar.isWhitespace w = true) (c : Char) :
    ρ.mode.compound ρ.grammar c w = none := by
  refine compound_eq_none fun k hk hname => ?_
  have hnot := hρ.names k hk w (by rw [hname]; simp)
  rw [hw] at hnot
  cases hnot

theorem BlanksApart.apart : ρ.Apart ρ.grammar.isWhitespace where
  letters := hρ.letters
  digits := hρ.digits
  decimal := by
    intro w hw
    refine Bool.eq_false_iff.mpr fun hd => ?_
    have hn := (Text.not_word_of_isBlank (hρ.blank w hw)).2
    rw [Text.isNumeric_of_isDigit hd] at hn
    cases hn
  marks := by
    intro w hw hmark
    have hblank : (numeralMarks.all fun c => !Text.isBlank c) = true := by decide
    have hnot := List.all_eq_true.mp hblank w hmark
    rw [hρ.blank w hw] at hnot
    cases hnot
  compound := fun w hw => hρ.compound hw

/-- a scan gives the same before the loosened rest -/
theorem scan_loosened {c : Char} {part rest rest' : List Char}
    {r : Except Cause (Kind × List Char)} (hl : Loosened ρ.grammar.isWhitespace rest rest')
    (h : ρ.scan c (part ++ rest) = ⟨r, rest⟩) : ρ.scan c (part ++ rest') = ⟨r, rest'⟩ :=
  scan_parted hρ.apart hl.parted h

end Rules

end Calculator
