import Calculator.Token.Scan

/-!
# Cutting a literal is unambiguous

Each part of a literal is a run of characters of one class, and what may stand behind it starts with
a character of no such class.  So a text made of fitting parts is cut into these parts again.

* `Stops p cs`         the text does not go on with a character of the class `p`;
* `Literal.Fits`       every part is made of the characters it may have;
* `Literal.fits_of_read`   cutting gives fitting parts;
* `Literal.read_write`     fitting parts are cut out again.
-/

namespace Calculator

/-- the text does not go on with a character of the class -/
def Stops (p : Char → Bool) (cs : List Char) : Prop := ∀ c ∈ cs.head?, p c = false

theorem stops_nil (p : Char → Bool) : Stops p [] := by
  intro c hc
  cases hc

theorem stops_cons {p : Char → Bool} {c : Char} {cs : List Char} (h : p c = false) :
    Stops p (c :: cs) := by
  intro d hd
  cases hd
  exact h

theorem takeWhile_of_stops {p : Char → Bool} {cs : List Char} (h : Stops p cs) :
    cs.takeWhile p = [] ∧ cs.dropWhile p = cs := by
  cases cs with
  | nil => exact ⟨rfl, rfl⟩
  | cons c cs =>
    have hc := h c rfl
    rw [List.takeWhile_cons, List.dropWhile_cons, hc]
    exact ⟨rfl, rfl⟩

theorem takeWhile_append_stops {p : Char → Bool} {ds rest : List Char}
    (h : ∀ c ∈ ds, p c = true) (hr : Stops p rest) :
    (ds ++ rest).takeWhile p = ds ∧ (ds ++ rest).dropWhile p = rest := by
  obtain ⟨htake, hdrop⟩ := takeWhile_of_stops hr
  rw [List.takeWhile_append_of_pos h, List.dropWhile_append_of_pos h, htake, hdrop]
  exact ⟨List.append_nil ds, rfl⟩

/-! ## the parts -/

/-- the parts of an exponent have the characters they may have -/
structure ExponentPart.Fits (x : ExponentPart) : Prop where
  digits : ∀ c ∈ (takeSign x.digits).2, isUpperDigit c = true
  radix : ∀ ds ∈ x.radix, ∀ c ∈ ds, c.isDigit = true

/-- the parts of a literal have the characters they may have -/
structure Literal.Fits (l : Literal) : Prop where
  integer : ∀ c ∈ l.integer, isUpperDigit c = true
  fraction : ∀ ds ∈ l.fraction, ∀ c ∈ ds, isUpperDigit c = true
  radix : ∀ ds ∈ l.radix, ∀ c ∈ ds, c.isDigit = true
  exponent : ∀ x ∈ l.exponent, x.Fits

namespace Literal

theorem stops_writeSuffix {p : Char → Bool} (o : Option (List Char)) {rest : List Char}
    (h : p '_' = false) (hr : Stops p rest) : Stops p (writeSuffix o ++ rest) := by
  cases o with
  | none => exact hr
  | some ds => exact stops_cons h

theorem stops_writeFraction {p : Char → Bool} (o : Option (List Char)) {rest : List Char}
    (h : p '.' = false) (hr : Stops p rest) : Stops p (writeFraction o ++ rest) := by
  cases o with
  | none => exact hr
  | some ds => exact stops_cons h

theorem stops_writeExponent {p : Char → Bool} (o : Option ExponentPart) (he : p 'e' = false)
    (hp : p 'p' = false) : Stops p (writeExponent o) := by
  cases o with
  | none => exact stops_nil p
  | some x =>
    refine stops_cons ?_
    cases x.marker with
    | radix => exact he
    | binary => exact hp

end Literal

theorem takeSuffix_of_ne {cs : List Char} (h : Stops (· == '_') cs) :
    takeSuffix cs = (none, cs) := by
  cases cs with
  | nil => rfl
  | cons c cs =>
    have hc : c ≠ '_' := by simpa using h c rfl
    unfold takeSuffix
    split
    · rename_i heq
      exact absurd (List.cons.inj heq).1 hc
    · rfl

theorem takeSuffix_digits_append {ds rest : List Char} (h : ∀ c ∈ ds, c.isDigit = true)
    (hd : Stops Char.isDigit rest) : takeSuffix ('_' :: (ds ++ rest)) = (some ds, rest) := by
  obtain ⟨htake, hdrop⟩ := takeWhile_append_stops h hd
  show (some ((ds ++ rest).takeWhile Char.isDigit), (ds ++ rest).dropWhile Char.isDigit) = _
  rw [htake, hdrop]

theorem takeSuffix_append {o : Option (List Char)} {rest : List Char}
    (h : ∀ ds ∈ o, ∀ c ∈ ds, c.isDigit = true) (hd : Stops Char.isDigit rest)
    (hu : Stops (· == '_') rest) : takeSuffix (Literal.writeSuffix o ++ rest) = (o, rest) := by
  cases o with
  | none => exact takeSuffix_of_ne hu
  | some ds => exact takeSuffix_digits_append (h ds rfl) hd

theorem takeFraction_append {o : Option (List Char)} {rest : List Char}
    (h : ∀ ds ∈ o, ∀ c ∈ ds, isUpperDigit c = true) (hd : Stops isUpperDigit rest)
    (hu : Stops (· == '.') rest) : takeFraction (Literal.writeFraction o ++ rest) = (o, rest) := by
  cases o with
  | none =>
    show takeFraction rest = (none, rest)
    cases rest with
    | nil => rfl
    | cons c cs =>
      have hc : c ≠ '.' := by simpa using hu c rfl
      unfold takeFraction
      split
      · rename_i heq
        exact absurd (List.cons.inj heq).1 hc
      · rfl
  | some ds =>
    obtain ⟨htake, hdrop⟩ := takeWhile_append_stops (h ds rfl) hd
    show (some ((ds ++ rest).takeWhile isUpperDigit), (ds ++ rest).dropWhile isUpperDigit) = _
    rw [htake, hdrop]

theorem takeSign_of_ne {cs : List Char} (h : Stops isSign cs) :
    takeSign cs = ([], cs) := by
  cases cs with
  | nil => rfl
  | cons c cs =>
    have hc : ¬ (c = '+' ∨ c = '-') := by simpa [isSign] using h c rfl
    unfold takeSign
    split
    · rename_i heq
      exact absurd (Or.inl (List.cons.inj heq).1) hc
    · rename_i heq
      exact absurd (Or.inr (List.cons.inj heq).1) hc
    · rfl

theorem takeSign_append_right (ds : List Char) {rest : List Char}
    (h : Stops isSign rest) :
    takeSign (ds ++ rest) = ((takeSign ds).1, (takeSign ds).2 ++ rest) := by
  cases ds with
  | nil => exact takeSign_of_ne h
  | cons d ds =>
    unfold takeSign
    split
    · rename_i heq
      cases heq
      rfl
    · rename_i heq
      cases heq
      rfl
    · rename_i hp hm
      split
      · rename_i heq
        cases heq
        exact absurd rfl (hp _)
      · rename_i heq
        cases heq
        exact absurd rfl (hm _)
      · rfl

theorem Marker.ofChar?_char (m : Marker) : Marker.ofChar? m.char = some m := by
  cases m <;> decide

theorem takeExponent_write {o : Option ExponentPart} (h : ∀ x ∈ o, x.Fits) :
    takeExponent (Literal.writeExponent o) = (o, []) := by
  cases o with
  | none => rfl
  | some x =>
    obtain ⟨hdigits, hradix⟩ := h x rfl
    have hrest : ∀ p : Char → Bool, p '_' = false → Stops p (Literal.writeSuffix x.radix) := by
      intro p hp
      have := Literal.stops_writeSuffix x.radix hp (stops_nil p)
      rwa [List.append_nil] at this
    have hsign : takeSign (x.digits ++ Literal.writeSuffix x.radix)
        = ((takeSign x.digits).1, (takeSign x.digits).2 ++ Literal.writeSuffix x.radix) :=
      takeSign_append_right x.digits (hrest _ (by decide))
    obtain ⟨htake, hdrop⟩ := takeWhile_append_stops hdigits (hrest isUpperDigit (by decide))
    have hsuffix : takeSuffix (Literal.writeSuffix x.radix) = (x.radix, []) := by
      have := takeSuffix_append hradix (stops_nil _) (stops_nil _)
      rwa [List.append_nil] at this
    rw [Literal.writeExponent, takeExponent, Marker.ofChar?_char]
    show (some (ExponentPart.mk _ _ _), _) = _
    rw [hsign, htake, hdrop, hsuffix, takeSign_append]

/-! ## reading and writing -/

theorem all_takeWhile {p : Char → Bool} {cs : List Char} : ∀ c ∈ cs.takeWhile p, p c = true :=
  List.all_eq_true.mp List.all_takeWhile

theorem takeSign_run (cs : List Char) {ds : List Char} (hds : ∀ c ∈ ds, isUpperDigit c = true) :
    (takeSign ((takeSign cs).1 ++ ds)).2 = ds := by
  have hnosign : Stops isSign ds := by
    intro c hc
    have hup := hds c (List.mem_of_mem_head? hc)
    by_cases h : isSign c = true
    · have h' : c = '+' ∨ c = '-' := by simpa [isSign] using h
      rcases h' with rfl | rfl
      · exact absurd hup (by decide)
      · exact absurd hup (by decide)
    · exact Bool.eq_false_iff.mpr h
  have hcases : (takeSign cs).1 = ['+'] ∨ (takeSign cs).1 = ['-'] ∨ (takeSign cs).1 = [] := by
    unfold takeSign
    split
    · exact Or.inl rfl
    · exact Or.inr (Or.inl rfl)
    · exact Or.inr (Or.inr rfl)
  rcases hcases with h | h | h
  · rw [h]
    rfl
  · rw [h]
    rfl
  · rw [h, List.nil_append, takeSign_of_ne hnosign]

theorem takeSuffix_digits (cs : List Char) :
    ∀ ds ∈ (takeSuffix cs).1, ∀ c ∈ ds, c.isDigit = true := by
  intro ds hds c hc
  unfold takeSuffix at hds
  split at hds
  · cases hds
    exact all_takeWhile c hc
  · cases hds

theorem takeFraction_digits (cs : List Char) :
    ∀ ds ∈ (takeFraction cs).1, ∀ c ∈ ds, isUpperDigit c = true := by
  intro ds hds c hc
  unfold takeFraction at hds
  split at hds
  · cases hds
    exact all_takeWhile c hc
  · cases hds

theorem takeExponent_fits (cs : List Char) : ∀ x ∈ (takeExponent cs).1, x.Fits := by
  intro x hx
  cases cs with
  | nil => cases hx
  | cons c cs =>
    rw [takeExponent] at hx
    split at hx
    · cases hx
    · cases hx
      refine ⟨?_, takeSuffix_digits _⟩
      rw [takeSign_run cs all_takeWhile]
      exact all_takeWhile

namespace Literal

theorem fits_of_read {text : List Char} {l : Literal} (h : read text = some l) : l.Fits := by
  unfold read at h
  simp only at h
  split at h
  · cases h
    exact ⟨all_takeWhile, takeFraction_digits _, takeSuffix_digits _, takeExponent_fits _⟩
  · cases h

/-- fitting parts are cut out of their text again -/
theorem read_write {l : Literal} (h : l.Fits) : read l.write = some l := by
  have hexp : ∀ p : Char → Bool, p 'e' = false → p 'p' = false →
      Stops p (writeExponent l.exponent) := fun p => stops_writeExponent l.exponent
  have hsuf : ∀ p : Char → Bool, p 'e' = false → p 'p' = false → p '_' = false →
      Stops p (writeSuffix l.radix ++ writeExponent l.exponent) :=
    fun p he hp hu => stops_writeSuffix l.radix hu (hexp p he hp)
  have hfrac : Stops isUpperDigit
      (writeFraction l.fraction ++ (writeSuffix l.radix ++ writeExponent l.exponent)) :=
    stops_writeFraction l.fraction (by decide) (hsuf _ (by decide) (by decide) (by decide))
  obtain ⟨htake, hdrop⟩ := takeWhile_append_stops h.integer hfrac
  have hF := takeFraction_append h.fraction
    (hsuf _ (by decide) (by decide) (by decide)) (hsuf _ (by decide) (by decide) (by decide))
  have hS := takeSuffix_append h.radix (hexp _ (by decide) (by decide))
    (hexp _ (by decide) (by decide))
  unfold read write
  simp only [List.append_assoc]
  rw [htake, hdrop, hF, hS, takeExponent_write h.exponent]
  rfl

end Literal
end Calculator
