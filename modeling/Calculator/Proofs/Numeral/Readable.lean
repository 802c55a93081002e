import Calculator.Proofs.Climb.Leaves

/-!
# Lexemes of numerals can be read

The lexer cuts a numeral out of the source by its own rules and writes a lexeme; the reader of
numerals cuts the lexeme again.  The lexeme is a literal without suffixes: a part that had none is
copied, a part that had one is written with digits of the lexer's radix.  So whatever radix the
lexeme is read in, its form is never at fault: a digit may be too large, or an exponent.

* `Expansion.Below`, `expand_below`   re-expressed digits are digits of the new radix;
* `Literal.Plain`            the form of a lexeme;
* `Literal.writeMarked`      the text of a literal whose marker may stand in upper case;
* `Rules.Renders w lit`      `lit` is the lexeme of the literal `w` of the source, part by part;
* `Rules.numeral_renders`    every numeral that is scanned is so;
* `Fault.OfValues`           what can be at fault when the form is not;
* `numeral_lexeme_readable`  all of it, for each numeral of each source.
-/

namespace Calculator

/-! ## digits of the new radix -/

/-- what comes out in front of the point is a digit of the new radix, and what is left are digits of
the old one -/
theorem scale_lt {old new : Nat} (ho : 0 < old) (hn : 0 < new) {ds : List Nat}
    (h : ∀ d ∈ ds, d < old) :
    (scale old new ds).1 < new ∧ ∀ d ∈ (scale old new ds).2, d < old := by
  induction ds with
  | nil => exact ⟨hn, h⟩
  | cons d ds ih =>
    obtain ⟨hd, hds⟩ := List.forall_mem_cons.mp h
    obtain ⟨hcarry, hrest⟩ := ih hds
    refine ⟨?_, List.forall_mem_cons.mpr ⟨Nat.mod_lt _ ho, hrest⟩⟩
    show (d * new + (scale old new ds).1) / old < new
    rw [Nat.div_lt_iff_lt_mul ho]
    calc d * new + (scale old new ds).1
        < d * new + new := Nat.add_lt_add_left hcarry _
      _ = (d + 1) * new := (Nat.succ_mul d new).symm
      _ ≤ old * new := Nat.mul_le_mul_right new hd
      _ = new * old := Nat.mul_comm old new

theorem rebaseFraction_lt {old new : Nat} (ho : 0 < old) (hn : 0 < new) (places : Nat)
    {ds : List Nat} (h : ∀ d ∈ ds, d < old) : ∀ d ∈ rebaseFraction old new places ds, d < new := by
  induction places generalizing ds with
  | zero => exact List.forall_mem_nil _
  | succ places ih =>
    obtain ⟨hcarry, hrest⟩ := scale_lt ho hn h
    unfold rebaseFraction
    split
    · exact List.forall_mem_nil _
    · exact List.forall_mem_cons.mpr ⟨hcarry, ih hrest⟩

/-- all digits of an expansion are below the radix -/
structure Expansion.Below (b : Nat) (x : Expansion) : Prop where
  integer : ∀ d ∈ x.integer, d < b
  fraction : ∀ d ∈ x.fraction, d < b

namespace Expansion

variable {b : Nat} {x : Expansion}

theorem Below.up (hb : 2 ≤ b) (h : x.Below b) : (x.up b).Below b := by
  refine ⟨up_integer_lt hb h.integer, ?_⟩
  have hbump := bump_lt x.fraction h.fraction
  unfold Expansion.up
  split
  · rename_i f he
    rw [he] at hbump
    exact hbump
  · rename_i f he
    rw [he] at hbump
    split <;> exact hbump

theorem Below.round (hb : 2 ≤ b) (places : Nat) (h : x.Below b) : (x.round b places).Below b := by
  have hkept : Below b ⟨x.integer, x.fraction.dropLast⟩ :=
    ⟨h.integer, fun d hd => h.fraction d ((List.dropLast_sublist _).mem hd)⟩
  unfold Expansion.round
  split
  · simp only
    split
    · exact hkept.up hb
    · exact hkept
  · exact h

theorem Below.trim (h : x.Below b) : x.trim.Below b := by
  refine ⟨h.integer, fun d hd => h.fraction d ?_⟩
  exact List.mem_reverse.mp ((List.dropWhile_sublist _).mem (List.mem_reverse.mp hd))

end Expansion

theorem expand_below (old new : Radix) (places : Nat) {x : Expansion}
    (h : ∀ d ∈ x.fraction, d < old.val) : (expand old new places x).Below new.val := by
  have ho := old.two_le
  have hn := new.two_le
  have hguarded : Expansion.Below new.val
      ⟨rebaseInteger old new (x.integer.dropWhile (· == 0)),
        rebaseFraction old.val new.val (places + 1) x.fraction⟩ :=
    ⟨rebaseInteger_lt old new _, rebaseFraction_lt (by omega) (by omega) _ h⟩
  exact (hguarded.round hn places).trim

/-! ## the form of a lexeme -/

theorem forall_mem_none {α : Type} {p : α → Prop} : ∀ a ∈ (none : Option α), p a :=
  fun _ h => nomatch h

namespace Literal

/-- digits before the point, no suffixes, and digits in the exponent if there is one -/
structure Plain (l : Literal) : Prop where
  fits : l.Fits
  integer : l.integer ≠ []
  radix : l.radix = none
  exponent : ∀ x ∈ l.exponent, (takeSign x.digits).2 ≠ [] ∧ x.radix = none

/-- the text of the parts, the marker in upper case if so wanted -/
def writeMarked (upper : Bool) (l : Literal) : List Char :=
  l.integer ++ writeFraction l.fraction ++ writeSuffix l.radix ++
    match l.exponent with
    | none => []
    | some x => (if upper then x.marker.char.toUpper else x.marker.char) ::
        (x.digits ++ writeSuffix x.radix)

end Literal

namespace Expansion

variable {x : Expansion}

/-- the text before the point, a lone zero for no digits -/
def integerText (x : Expansion) : List Char :=
  if x.integer.isEmpty then ['0'] else x.integer.map digitChar

/-- the text behind the point, if there are digits -/
def fractionText (x : Expansion) : Option (List Char) :=
  if x.fraction.isEmpty then none else some (x.fraction.map digitChar)

theorem write_eq_text (x : Expansion) :
    x.write = x.integerText ++ Literal.writeFraction x.fractionText := by
  unfold write integerText fractionText
  by_cases h : x.fraction.isEmpty = true
  · rw [if_pos h, if_pos h]
    rfl
  · rw [if_neg h, if_neg h]
    rfl

theorem getD_fractionText (x : Expansion) :
    x.fractionText.getD [] = x.fraction.map digitChar := by
  unfold fractionText
  by_cases h : x.fraction.isEmpty = true
  · rw [if_pos h, List.isEmpty_iff.mp h]
    rfl
  · rw [if_neg h]
    rfl

theorem Below.exists_digits {r : Radix} (h : x.Below r.val) :
    ∃ is : List Nat, x.integerText = is.map digitChar ∧ is ≠ [] ∧
      (∀ d ∈ is ++ x.fraction, d < r.val) ∧
      number r.val (is ++ x.fraction) = number r.val (x.integer ++ x.fraction) := by
  have hzero : 0 < r.val := Nat.lt_of_lt_of_le Nat.two_pos r.two_le
  unfold integerText
  by_cases hi : x.integer.isEmpty = true
  · rw [if_pos hi, List.isEmpty_iff.mp hi]
    exact ⟨[0], rfl, List.cons_ne_nil _ _, List.forall_mem_cons.mpr ⟨hzero, h.fraction⟩,
      number_zero_cons _ _⟩
  · rw [if_neg hi]
    exact ⟨x.integer, rfl, fun e => hi (List.isEmpty_iff.mpr e),
      List.forall_mem_append.mpr ⟨h.integer, h.fraction⟩, rfl⟩

theorem write_eq {r : Radix} (h : x.Below r.val) :
    ∃ (integer : List Char) (fraction : Option (List Char)),
      x.write = integer ++ Literal.writeFraction fraction ∧ integer ≠ [] ∧
      (∀ c ∈ integer ++ fraction.getD [], isUpperDigit c = true) ∧
      ∃ ds, digitsOf r.val (integer ++ fraction.getD []) = .ok ds := by
  obtain ⟨is, htext, hne, hbelow, -⟩ := h.exists_digits
  refine ⟨x.integerText, x.fractionText, x.write_eq_text, ?_, ?_, ?_⟩
  · rw [htext]
    exact fun e => hne (List.map_eq_nil_iff.mp e)
  · rw [htext, getD_fractionText, ← List.map_append]
    exact isUpperDigit_map_digitChar hbelow
  · rw [htext, getD_fractionText, ← List.map_append]
    exact ⟨_, digitsOf_map_digitChar r.le_max _ hbelow⟩

end Expansion

theorem rebase_eq_ok {old new : Radix} {text m : List Char} (h : rebase old new text = .ok m) :
    ∃ (integer : List Char) (fraction : Option (List Char)),
      m = integer ++ Literal.writeFraction fraction ∧ integer ≠ [] ∧
      (∀ c ∈ integer ++ fraction.getD [], isUpperDigit c = true) ∧
      ∃ ds, digitsOf new.val (integer ++ fraction.getD []) = .ok ds := by
  obtain ⟨x, hx, h⟩ := bind_eq_ok.mp h
  obtain ⟨integer, -, hx⟩ := bind_eq_ok.mp hx
  obtain ⟨fraction, hfraction, hx⟩ := bind_eq_ok.mp hx
  cases hx
  cases h
  exact Expansion.write_eq (expand_below old new _ (digitsOf_ok hfraction).2)

/-! ## from the source to the lexeme -/

theorem map_toUpper_mantissa {i : List Char} {f : Option (List Char)}
    (hi : ∀ c ∈ i, isUpperDigit c = true) (hf : ∀ fs ∈ f, ∀ c ∈ fs, isUpperDigit c = true) :
    (i ++ Literal.writeFraction f).map Char.toUpper = i ++ Literal.writeFraction f := by
  rw [List.map_append, map_toUpper hi]
  cases f with
  | none => rfl
  | some fs =>
    show i ++ '.' :: fs.map Char.toUpper = i ++ '.' :: fs
    rw [map_toUpper (hf fs rfl)]

theorem mem_markers_of_exponentStarts {mode : Mode} {c : Char} {cs : List Char}
    (h : exponentStarts mode (c :: cs) = true) : c ∈ mode.markers ++ mode.signedMarkers := by
  cases cs with
  | nil => exact List.mem_append_left _ (List.contains_iff_mem.mp h)
  | cons d cs =>
    rcases Bool.or_eq_true_iff.mp h with h | h
    · exact List.mem_append_left _ (List.contains_iff_mem.mp h)
    · exact List.mem_append_right _ (List.contains_iff_mem.mp (Bool.and_eq_true_iff.mp h).1)

theorem marker_of_exponentStarts {mode : Mode} {c : Char} {cs : List Char}
    (h : exponentStarts mode (c :: cs) = true) :
    ∃ (upper : Bool) (mark : Marker),
      c = (if upper then mark.char.toUpper else mark.char) ∧ c.toLower = mark.char := by
  have hmem := mem_markers_of_exponentStarts h
  have hall : (mode.markers ++ mode.signedMarkers).all
      (fun c => c == 'e' || c == 'p' || c == 'E' || c == 'P') = true := by
    cases mode <;> decide
  have hc := List.all_eq_true.mp hall c hmem
  simp only [Bool.or_eq_true, beq_iff_eq] at hc
  rcases hc with ((rfl | rfl) | rfl) | rfl
  · exact ⟨false, .radix, by decide⟩
  · exact ⟨false, .binary, by decide⟩
  · exact ⟨true, .radix, by decide⟩
  · exact ⟨true, .binary, by decide⟩

namespace Rules

variable (ρ : Rules)

/-- an exponent of the source and its lexeme -/
structure RendersExponent (x y : ExponentPart) : Prop where
  marker : y.marker = x.marker
  kept : x.radix = none → y.digits = x.digits
  rebased : ∀ suffix ∈ x.radix, ∃ old v, Radix.parse suffix = .ok old ∧
    old.readExponent x.digits = .ok v ∧ ρ.radix.readExponent y.digits = .ok v

/-- a literal of the source and its lexeme: parts without a suffix are kept, parts with one have
digits of the lexer's radix, and an exponent keeps its value -/
structure Renders (w lit : Literal) : Prop where
  kept : w.radix = none → lit.integer = w.integer ∧ lit.fraction = w.fraction
  rebased : ∀ suffix ∈ w.radix, ∃ old ds, Radix.parse suffix = .ok old ∧
    rebase old ρ.radix (w.integer ++ Literal.writeFraction w.fraction)
      = .ok (lit.integer ++ Literal.writeFraction lit.fraction) ∧
    digitsOf ρ.radix.val (lit.integer ++ lit.fraction.getD []) = .ok ds
  exponent : Option.Rel ρ.RendersExponent w.exponent lit.exponent

variable {ρ} (hdigit : ∀ c, ρ.grammar.isDigit c = true → isUpperDigit c = true)
include hdigit

theorem mantissa_renders {c : Char} {cs m rest : List Char} (hc : ρ.grammar.isDigit c = true)
    (h : ρ.mantissa c cs = (.ok m, rest)) :
    ∃ (i : List Char) (f s : Option (List Char)) (lit : Literal),
      c :: cs = Literal.write ⟨i, f, s, none⟩ ++ rest ∧ Literal.Fits ⟨i, f, s, none⟩ ∧
      m = lit.write ∧ lit.Plain ∧ ρ.Renders ⟨i, f, s, none⟩ lit := by
  obtain ⟨behind, hbehind⟩ := ρ.mantissaTail_prefix false cs
  obtain ⟨ds, fs, hall, htail⟩ := ρ.mantissaTail_digits false cs
  obtain ⟨f, htext, hf⟩ : ∃ f : Option (List Char),
      c :: ρ.mantissaTail false cs = (c :: ds) ++ Literal.writeFraction f ∧
      ∀ fs ∈ f, ∀ c ∈ fs, isUpperDigit c = true := by
    rcases htail with htail | ⟨-, htail⟩
    · exact ⟨none, by rw [htail]; exact (List.append_nil _).symm, forall_mem_none⟩
    · refine ⟨some fs, by rw [htail]; rfl, fun _ h d hd => ?_⟩
      cases h
      exact hdigit d (hall d (List.mem_append_right _ hd))
  have hi : ∀ d ∈ c :: ds, isUpperDigit d = true := List.forall_mem_cons.mpr
    ⟨hdigit c hc, fun d hd => hdigit d (hall d (List.mem_append_left _ hd))⟩
  cases hsuf : takeSuffix behind with
  | mk s rest' =>
    rw [mantissa_eq rfl hbehind, htext, hsuf, map_toUpper_mantissa hi hf] at h
    have hs := takeSuffix_digits behind
    have hwritten := writeSuffix_takeSuffix behind
    rw [hsuf] at hs hwritten
    have hslice : c :: cs = Literal.write ⟨c :: ds, f, s, none⟩ ++ rest' := by
      rw [← hbehind, ← List.cons_append, htext, ← hwritten]
      simp [Literal.write, Literal.writeExponent]
    have hfits : Literal.Fits ⟨c :: ds, f, s, none⟩ := ⟨hi, hf, hs, forall_mem_none⟩
    cases s with
    | none =>
      cases h
      refine ⟨c :: ds, f, none, ⟨c :: ds, f, none, none⟩, hslice, hfits, ?_,
        ⟨hfits, List.cons_ne_nil _ _, rfl, forall_mem_none⟩,
        ⟨fun _ => ⟨rfl, rfl⟩, forall_mem_none, .none⟩⟩
      simp [Literal.write, Literal.writeExponent, Literal.writeSuffix]
    | some suffix =>
      obtain ⟨hm, rfl⟩ := Prod.mk.inj h
      obtain ⟨old, hold, hm⟩ := bind_eq_ok.mp hm
      obtain ⟨i', f', rfl, hne, hup, ds', hds'⟩ := rebase_eq_ok hm
      have hfits' : Literal.Fits ⟨i', f', none, none⟩ := by
        refine ⟨fun d hd => hup d (List.mem_append_left _ hd), fun fs hfs d hd => hup d ?_,
          forall_mem_none, forall_mem_none⟩
        rw [show f' = some fs from hfs]
        exact List.mem_append_right _ hd
      refine ⟨c :: ds, f, some suffix, ⟨i', f', none, none⟩, hslice, hfits, ?_,
        ⟨hfits', hne, rfl, forall_mem_none⟩,
        ⟨fun h => absurd h (Option.some_ne_none suffix), fun t ht => ?_, .none⟩⟩
      · simp [Literal.write, Literal.writeExponent, Literal.writeSuffix]
      · cases ht
        exact ⟨old, ds', hold, hm, hds'⟩

theorem exponent_renders {marker : Char} {cs x rest : List Char}
    (hstart : exponentStarts ρ.mode (marker :: cs) = true)
    (h : ρ.exponent marker cs = (.ok x, rest)) :
    ∃ (upper : Bool) (w y : ExponentPart),
      marker = (if upper then w.marker.char.toUpper else w.marker.char) ∧
      cs = w.digits ++ Literal.writeSuffix w.radix ++ rest ∧ w.Fits ∧
      x = Literal.writeExponent (some y) ∧ y.Fits ∧ (takeSign y.digits).2 ≠ [] ∧ y.radix = none ∧
      ρ.RendersExponent w y := by
  obtain ⟨upper, mark, hmark, hlower⟩ := marker_of_exponentStarts hstart
  have hup : ∀ d ∈ (takeSign cs).2.takeWhile ρ.grammar.isDigit, isUpperDigit d = true :=
    fun d hd => hdigit d (all_takeWhile d hd)
  have hrun := takeSign_run cs hup
  have hcs : (takeSign cs).1 ++ (takeSign cs).2.takeWhile ρ.grammar.isDigit
      ++ (takeSign cs).2.dropWhile ρ.grammar.isDigit = cs := by
    rw [List.append_assoc, List.takeWhile_append_dropWhile, takeSign_append]
  simp only [exponent, map_toUpper hup, hlower] at h
  split at h
  · cases h
  rename_i hne
  have hne' : (takeSign cs).2.takeWhile ρ.grammar.isDigit ≠ [] :=
    fun e => hne (List.isEmpty_iff.mpr e)
  generalize (takeSign cs).1 ++ (takeSign cs).2.takeWhile ρ.grammar.isDigit = digits at *
  generalize (takeSign cs).2.dropWhile ρ.grammar.isDigit = behind at *
  cases hsuf : takeSuffix behind with
  | mk s rest' =>
    rw [hsuf] at h
    have hs := takeSuffix_digits behind
    have hwritten := writeSuffix_takeSuffix behind
    rw [hsuf] at hs hwritten
    have hslice : cs = digits ++ Literal.writeSuffix s ++ rest' := by
      rw [List.append_assoc, hwritten, hcs]
    have hfits : ExponentPart.Fits ⟨mark, digits, s⟩ := ⟨by rw [hrun]; exact hup, hs⟩
    cases s with
    | none =>
      cases h
      refine ⟨upper, ⟨mark, digits, none⟩, ⟨mark, digits, none⟩, hmark, hslice, hfits, ?_, hfits,
        by rw [hrun]; exact hne', rfl, ⟨rfl, fun _ => rfl, forall_mem_none⟩⟩
      simp [Literal.writeExponent, Literal.writeSuffix]
    | some suffix =>
      obtain ⟨hx, rfl⟩ := Prod.mk.inj h
      obtain ⟨old, hold, hx⟩ := bind_eq_ok.mp hx
      obtain ⟨v, hv, hx⟩ := bind_eq_ok.mp hx
      cases hx
      have hback := ρ.radix.readExponent_writeExponent (Radix.readExponent_natAbs_lt hv)
      refine ⟨upper, ⟨mark, digits, some suffix⟩, ⟨mark, ρ.radix.writeExponent v, none⟩, hmark,
        hslice, hfits, ?_, ⟨?_, forall_mem_none⟩, ?_, rfl,
        ⟨rfl, fun h => absurd h (Option.some_ne_none suffix), fun t ht => ?_⟩⟩
      · simp [Literal.writeExponent, Literal.writeSuffix]
      · rw [takeSign_writeExponent]
        exact isUpperDigit_map_digitChar (ρ.radix.digits_lt _)
      · rw [takeSign_writeExponent]
        exact ρ.radix.write_ne_nil _
      · cases ht
        exact ⟨old, v, hold, hv, hback⟩

/-- a numeral of the source, and its lexeme -/
theorem numeral_renders {c : Char} {cs lexeme rest : List Char} (hc : ρ.grammar.isDigit c = true)
    (h : ρ.numeral c cs = (.ok lexeme, rest)) :
    ∃ (upper : Bool) (w lit : Literal), c :: cs = w.writeMarked upper ++ rest ∧ w.Fits ∧
      lexeme = lit.write ∧ lit.Plain ∧ ρ.Renders w lit := by
  have plain {m rest : List Char} (hm : ρ.mantissa c cs = (.ok m, rest)) :
      ∃ (upper : Bool) (w lit : Literal), c :: cs = w.writeMarked upper ++ rest ∧ w.Fits ∧
        m = lit.write ∧ lit.Plain ∧ ρ.Renders w lit := by
    obtain ⟨i, f, s, lit, hslice, hfits, hlit⟩ := mantissa_renders hdigit hc hm
    exact ⟨false, ⟨i, f, s, none⟩, lit, hslice, hfits, hlit⟩
  unfold numeral at h
  split at h
  · cases h
  · rename_i m hm
    cases h
    exact plain hm
  · rename_i m marker behind hm
    split at h
    · rename_i hstart
      split at h
      · cases h
      · rename_i x rest' hx
        cases h
        obtain ⟨i, f, s, lit, hslice, hfits, rfl, hplain, hrenders⟩ :=
          mantissa_renders hdigit hc hm
        obtain ⟨upper, w, y, rfl, rfl, hwfits, rfl, hyfits, hydigits, hyradix, hwy⟩ :=
          exponent_renders hdigit hstart hx
        have hnone : lit.exponent = none := by
          have hrel := hrenders.exponent
          cases he : lit.exponent with
          | none => rfl
          | some x =>
            rw [he] at hrel
            cases hrel
        refine ⟨upper, ⟨i, f, s, some w⟩, { lit with exponent := some y }, ?_, ?_, ?_, ?_, ?_⟩
        · rw [hslice]
          simp [Literal.write, Literal.writeMarked, Literal.writeExponent]
        · exact ⟨hfits.integer, hfits.fraction, hfits.radix, fun _ h => by cases h; exact hwfits⟩
        · simp [Literal.write, hnone, Literal.writeExponent]
        · exact ⟨⟨hplain.fits.integer, hplain.fits.fraction, hplain.fits.radix,
            fun _ h => by cases h; exact hyfits⟩, hplain.integer, hplain.radix,
            fun _ h => by cases h; exact ⟨hydigits, hyradix⟩⟩
        · exact ⟨hrenders.kept, hrenders.rebased, .some hwy⟩
    · cases h
      exact plain hm

end Rules

/-! ## what can be at fault -/

/-- a digit that is too large for the radix, or an exponent that is too large -/
def Fault.OfValues (radix : Nat) : Fault → Prop
  | .digitNotInRadix _ r => r = radix
  | .exponentOverflow => True
  | _ => False

theorem digitValue_fault {c : Char} {radix : Nat} {fault : Fault}
    (h : digitValue c radix = .error fault) : fault = .digitNotInRadix c radix := by
  unfold digitValue at h
  split at h
  · split at h
    · cases h
    · cases h
      rfl
  · cases h
    rfl

theorem digitsOf_fault {cs : List Char} {radix : Nat} {fault : Fault}
    (h : digitsOf radix cs = .error fault) : ∃ c ∈ cs, fault = .digitNotInRadix c radix := by
  induction cs with
  | nil => cases h
  | cons c cs ih =>
    rcases bind_eq_error.mp h with h | ⟨d, -, h⟩
    · exact ⟨c, List.mem_cons_self, digitValue_fault h⟩
    · rcases bind_eq_error.mp h with h | ⟨ds, -, h⟩
      · obtain ⟨x, hx, hfault⟩ := ih h
        exact ⟨x, List.mem_cons_of_mem c hx, hfault⟩
      · cases h

theorem readMagnitude_fault {cs : List Char} {radix value : Nat} {fault : Fault}
    (h : readMagnitude radix value cs = .error fault) : fault.OfValues radix := by
  induction cs generalizing value with
  | nil => cases h
  | cons c cs ih =>
    rcases bind_eq_error.mp h with h | ⟨d, -, h⟩
    · rw [digitValue_fault h]
      exact rfl
    · split at h
      · exact ih h
      · cases h
        trivial

theorem Radix.readExponent_fault {r : Radix} {text : List Char} {fault : Fault}
    (hne : (takeSign text).2 ≠ []) (h : r.readExponent text = .error fault) :
    fault.OfValues r.val := by
  unfold Radix.readExponent at h
  rw [signed_eq, if_neg (fun e => hne (List.isEmpty_iff.mp e))] at h
  rcases bind_eq_error.mp h with h | ⟨n, -, h⟩
  · exact readMagnitude_fault h
  · cases h

namespace Literal

variable {lit : Literal} (hlit : lit.Plain) {default : Radix} {fault : Fault}
include hlit

theorem Plain.exponent_fault (h : Numeral.readExponent default lit.exponent = .error fault) :
    fault.OfValues default.val := by
  cases hx : lit.exponent with
  | none =>
    rw [hx] at h
    cases h
  | some x =>
    rw [hx] at h
    obtain ⟨hne, hradix⟩ := hlit.exponent x hx
    rcases bind_eq_error.mp h with h | ⟨y, -, h⟩
    · unfold ExponentPart.read at h
      rw [hradix] at h
      rcases bind_eq_error.mp h with h | ⟨r, hr, h⟩
      · cases h
      · cases hr
        rcases bind_eq_error.mp h with h | ⟨v, -, h⟩
        · exact Radix.readExponent_fault hne h
        · cases h
    · cases h

/-- the form of a lexeme is not at fault -/
theorem Plain.ofLiteral_fault (h : Numeral.ofLiteral default lit = .error fault) :
    (∃ c, fault = .digitNotInRadix c default.val) ∨
      Numeral.readExponent default lit.exponent = .error fault := by
  unfold Numeral.ofLiteral at h
  split at h
  · rename_i hempty
    rw [Bool.and_eq_true, List.isEmpty_iff] at hempty
    exact absurd hempty.1 hlit.integer
  rw [hlit.radix] at h
  rcases bind_eq_error.mp h with h | ⟨r, hr, h⟩
  · cases h
  cases hr
  rcases bind_eq_error.mp h with h | ⟨ds, -, h⟩
  · obtain ⟨c, -, hfault⟩ := digitsOf_fault h
    exact .inl ⟨c, hfault⟩
  rcases bind_eq_error.mp h with h | ⟨x, -, h⟩
  · exact .inr h
  · cases h

theorem Plain.parse_eq : Numeral.parse lit.write default.val = Numeral.ofLiteral default lit := by
  rw [Numeral.parse_of_ofNat (Radix.ofNat_val default), read_write hlit.fits]

theorem Plain.parse_fault (h : Numeral.parse lit.write default.val = .error fault) :
    fault.OfValues default.val := by
  rw [hlit.parse_eq] at h
  rcases hlit.ofLiteral_fault h with ⟨c, rfl⟩ | h
  · exact rfl
  · exact hlit.exponent_fault h

end Literal

/-! ## parts that had a suffix -/

namespace Rules.Renders

variable {ρ : Rules} {w lit : Literal} (h : ρ.Renders w lit) (hlit : lit.Plain)
  (hexponent : ∀ x ∈ w.exponent, x.radix.isSome)
include h hlit hexponent

theorem readExponent : ∃ x, Numeral.readExponent ρ.radix lit.exponent = .ok x := by
  have hrel := h.exponent
  have hplain := hlit.exponent
  generalize w.exponent = wx at hrel hexponent
  generalize lit.exponent = lx at hrel hplain ⊢
  cases hrel with
  | none => exact ⟨none, rfl⟩
  | @some x y hxy =>
    obtain ⟨suffix, hsuffix⟩ := Option.isSome_iff_exists.mp (hexponent x rfl)
    obtain ⟨-, v, -, -, hv⟩ := hxy.rebased suffix hsuffix
    have hread : y.read ρ.radix = .ok ⟨y.marker, v⟩ := by
      unfold ExponentPart.read
      rw [(hplain y rfl).2]
      exact bind_eq_ok.mpr ⟨ρ.radix, rfl, bind_eq_ok.mpr ⟨v, hv, rfl⟩⟩
    exact ⟨some ⟨y.marker, v⟩, bind_eq_ok.mpr ⟨_, hread, rfl⟩⟩

/-- a lexeme whose exponent was re-expressed has one that fits -/
theorem parse_ne_overflow : Numeral.parse lit.write ρ.radix.val ≠ .error .exponentOverflow := by
  intro hoverflow
  rw [hlit.parse_eq] at hoverflow
  obtain ⟨x, hx⟩ := h.readExponent hlit hexponent
  rcases hlit.ofLiteral_fault hoverflow with ⟨c, hc⟩ | hfault
  · cases hc
  · rw [hx] at hfault
    cases hfault

/-- a lexeme whose parts were all re-expressed is read in the radix of the lexer -/
theorem parse_eq_ok (hmantissa : w.radix.isSome) :
    ∃ n, Numeral.parse lit.write ρ.radix.val = .ok n := by
  obtain ⟨suffix, hsuffix⟩ := Option.isSome_iff_exists.mp hmantissa
  obtain ⟨-, ds, -, -, hds⟩ := h.rebased suffix hsuffix
  obtain ⟨x, hx⟩ := h.readExponent hlit hexponent
  rw [hlit.parse_eq]
  exact ⟨_, Numeral.ofLiteral_eq_ok.mpr ⟨fun hempty => hlit.integer hempty.1, ρ.radix, ds, x,
    by rw [hlit.radix]; rfl, hds, hx, rfl⟩⟩

end Rules.Renders

/-! ## numerals of a source -/

theorem Lexer.slice_scan {l : Lexer} {k : Nat} {c : Char} (h : l.source[l.start k]? = some c) :
    ∃ cs, l.slice k ++ (l.rules.scan c cs).rest = c :: cs ∧
      l.result k = placed (l.start k) (l.rules.scan c cs).result := by
  have hdrop := (l.after k).drop_startOfNext
  have hhead : (l.source.drop (l.start k)).head? = some c := by rw [List.head?_drop, h]
  obtain ⟨cs, hcs⟩ : ∃ cs, l.source.drop (l.start k) = c :: cs :=
    List.head?_eq_some_iff.mp hhead
  rw [after_source] at hdrop
  obtain ⟨part, hpart, -, hn⟩ := next_scan (hdrop.symm.trans hcs)
  rw [after_rules] at hpart hn
  refine ⟨cs, ?_, congrArg Prod.fst hn⟩
  have hstop : l.stop k = l.start k + part.length := by
    unfold stop
    rw [after_succ, hn]
    rfl
  unfold slice
  rw [hstop, Nat.add_sub_cancel_left, hcs, hpart, List.take_left]

theorem Mode.isUpperDigit_of_isDigit (mode : Mode) {c : Char}
    (h : mode.language.isDigit c = true) : isUpperDigit c = true := by
  have hall := List.all_eq_true.mp mode.language_words.2.2.1 c (of_decide_eq_true h)
  exact (Bool.and_eq_true_iff.mp hall).1

/-- **The lexers emit only what the reader of numerals can read.**  In both modes, with any radix of
the lexer and on any source, a token that was read as a numeral comes from a literal of the source.
Its lexeme is the plain literal that this one renders: digits before the point, no suffixes, an
exponent with digits; parts that had a suffix have digits of the lexer's radix, and an exponent that
had one is read back in that radix.  In every radix from 2 to 36 the lexeme is read, unless a digit
is too large for the radix or the exponent overflows.  In the radix of the lexer an exponent that
had a suffix never overflows, and where the mantissa had one too, the lexeme is read. -/
theorem numeral_lexeme_readable (mode : Mode) (g : Grammar) (config : Config) (text : List Char)
    (l : Lexer) (k : Nat) (t : Token) (c : Char) (hg : mode.grammar = .ok g)
    (hl : Lexer.new g mode config text = .ok l) (ht : l.result k = .ok t)
    (hc : l.source[l.start k]? = some c) (hread : l.rules.reading c = .numeral) :
    l.rules.radix.val = config.radix ∧
    ∃ (upper : Bool) (w lit : Literal), l.slice k = w.writeMarked upper ∧ w.Fits ∧
      t.lexeme = lit.write ∧ lit.Plain ∧ l.rules.Renders w lit ∧
      (∀ q, 2 ≤ q → q ≤ 36 → ∀ fault, Numeral.parse t.lexeme q = .error fault →
        fault.OfValues q) ∧
      ((∀ x ∈ w.exponent, x.radix.isSome) →
        Numeral.parse t.lexeme config.radix ≠ .error .exponentOverflow ∧
        (w.radix.isSome → ∃ n, Numeral.parse t.lexeme config.radix = .ok n)) := by
  have hlang : g = mode.language := Except.ok.inj (hg.symm.trans (Mode.grammar_eq _))
  subst hlang
  obtain ⟨-, hgrammar, -, -, hradix⟩ := Lexer.new_eq_ok hl
  obtain ⟨cs, hslice, hres⟩ := Lexer.slice_scan hc
  have hscan : (l.rules.scan c cs).result = .ok (t.kind, t.lexeme) := by
    have hcontent := congrArg Lexer.content (hres.symm.trans ht)
    rwa [Lexer.content_placed] at hcontent
  obtain ⟨-, rest, hnum⟩ := Rules.numeral_of_reading hread hscan
  have hrest : (l.rules.scan c cs).rest = rest := by
    rw [Rules.scan_eq_reading, hread]
    show (l.rules.scanNumeral c cs).rest = rest
    unfold Rules.scanNumeral
    rw [hnum]
  have hclass := l.rules.class_of_reading c
  rw [hread] at hclass
  obtain ⟨upper, w, lit, htext, hfits, hlex, hplain, hrenders⟩ :=
    Rules.numeral_renders (fun d hd => mode.isUpperDigit_of_isDigit (hgrammar ▸ hd)) hclass.1 hnum
  have hval : l.rules.radix.val = config.radix := Radix.ofNat_eq_ok_iff.mp hradix
  refine ⟨hval, upper, w, lit, ?_, hfits, hlex, hplain, hrenders, ?_, fun hexponent => ?_⟩
  · rw [hrest, htext] at hslice
    exact List.append_cancel_right hslice
  · intro q h₂ h₃₆ fault hfault
    rw [hlex] at hfault
    show fault.OfValues (Radix.val ⟨q, h₂, h₃₆⟩)
    exact hplain.parse_fault hfault
  · rw [hlex, ← hval]
    exact ⟨hrenders.parse_ne_overflow hplain hexponent, hrenders.parse_eq_ok hplain hexponent⟩

/-- a hexadecimal mantissa with a binary exponent behind a marker in upper case -/
def scaledLexer : Lexer := Mode.programmer.lexer " 1A_16E+11_2".toList

theorem scaledLexer_readable :
    Lexer.new Mode.programmer.language .programmer Config.whole " 1A_16E+11_2".toList
      = .ok scaledLexer ∧
    scaledLexer.source[scaledLexer.start 0]? = some '1' ∧
    scaledLexer.rules.reading '1' = .numeral ∧
    ∃ t, scaledLexer.result 0 = .ok t ∧ t.lexeme = "26e+3".toList ∧
      (∃ n, Numeral.parse t.lexeme 10 = .ok n) ∧
      ∃ (upper : Bool) (w lit : Literal), "1A_16E+11_2".toList = w.writeMarked upper ∧
        t.lexeme = lit.write ∧ lit.Plain ∧ scaledLexer.rules.Renders w lit ∧
        ∀ fault, Numeral.parse t.lexeme 6 = .error fault → fault.OfValues 6 := by
  have hl := Mode.programmer.lexer_eq " 1A_16E+11_2".toList
  obtain ⟨hkey, hslice, hc, hread⟩ :
      (scaledLexer.result 0).toOption.map Token.key = some (Kind.word, "26e+3".toList) ∧
      scaledLexer.slice 0 = "1A_16E+11_2".toList ∧
      scaledLexer.source[scaledLexer.start 0]? = some '1' ∧
      scaledLexer.rules.reading '1' = .numeral := by decide +kernel
  cases ht : scaledLexer.result 0 with
  | error e =>
    rw [ht] at hkey
    cases hkey
  | ok t =>
    rw [ht] at hkey
    have hlexeme : t.lexeme = "26e+3".toList := congrArg Prod.snd (Option.some.inj hkey)
    obtain ⟨-, upper, w, lit, htext, -, hlex, hplain, hrenders, hfaults, hsuffixes⟩ :=
      numeral_lexeme_readable _ _ _ _ _ _ _ _ (Mode.grammar_eq .programmer) hl ht hc hread
    replace htext := hslice.symm.trans htext
    -- the lexeme tells its literal, and a part without a suffix would be the same in the text
    have hlit : lit = ⟨['2', '6'], none, none, some ⟨.radix, ['+', '3'], none⟩⟩ := by
      have hcut := Literal.read_write hplain.fits
      rw [← hlex, hlexeme] at hcut
      exact (Option.some.inj hcut).symm
    have hmantissa : w.radix.isSome := by
      refine Option.isSome_iff_ne_none.mpr fun hnone => ?_
      have hinteger := (hrenders.kept hnone).1
      rw [hlit] at hinteger
      simp [Literal.writeMarked, ← hinteger] at htext
    have hexponent : ∀ x ∈ w.exponent, x.radix.isSome := by
      intro x hx
      refine Option.isSome_iff_ne_none.mpr fun hnone => ?_
      have hrel := hrenders.exponent
      rw [Option.mem_def.mp hx, hlit] at hrel
      cases hrel with
      | some hxy =>
        have hlast := congrArg List.getLast? htext
        simp [Literal.writeMarked, Option.mem_def.mp hx, hnone, ← hxy.kept hnone,
          Literal.writeSuffix] at hlast
    exact ⟨hl, hc, hread, t, rfl, hlexeme, (hsuffixes hexponent).2 hmantissa, upper, w, lit, htext,
      hlex, hplain, hrenders, hfaults 6 (by decide) (by decide)⟩

end Calculator
