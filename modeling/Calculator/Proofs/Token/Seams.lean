import Calculator.Proofs.Token.Tiles

/-!
# A separator ends every piece

A scan looks a character or two beyond the piece that it takes.  Where the text behind the piece
goes on as before up to a separator, the scan sees the character that it saw before or the
separator, and a separator goes on no piece: it is no letter, digit, sign, point, underscore or
marker, and no symbol has it as its second character.  What stands behind it is never seen.

* `Parted sep cs ds`          the second text goes like the first one up to a separator;
* `Rules.Apart sep`           what is asked of separators;
* `Rules.mantissa_parted`, `Rules.exponent_parted`, `Rules.numeral_parted`   the parts of a numeral,
                              and the whole;
* `Rules.scan_parted`         a scan gives the same before a parted rest.
-/

namespace Calculator

/-! ## texts that agree up to a separator -/

/-- the second text goes like the first one up to a separator, or to the end of both -/
inductive Parted (sep : Char → Bool) : List Char → List Char → Prop where
  | nil : Parted sep [] []
  | keep {c : Char} {cs ds : List Char} : Parted sep cs ds → Parted sep (c :: cs) (c :: ds)
  | cut {w : Char} {cs ds : List Char} : sep w = true → Parted sep cs (w :: ds)

namespace Parted

variable {sep : Char → Bool}

theorem append_left (part : List Char) {cs ds : List Char} (h : Parted sep cs ds) :
    Parted sep (part ++ cs) (part ++ ds) := by
  induction part with
  | nil => exact h
  | cons c part ih => exact keep ih

theorem append_cut {w : Char} (hw : sep w = true) (cs more : List Char) :
    Parted sep cs (cs ++ w :: more) := by
  have h : Parted sep [] (w :: more) := cut hw
  have happ := h.append_left cs
  rwa [List.append_nil] at happ

theorem head {cs ds : List Char} (h : Parted sep cs ds) :
    (∃ w ws, ds = w :: ws ∧ sep w = true) ∨ (cs = [] ∧ ds = []) ∨
      ∃ c cs' ds', cs = c :: cs' ∧ ds = c :: ds' ∧ Parted sep cs' ds' := by
  cases h with
  | nil => exact Or.inr (Or.inl ⟨rfl, rfl⟩)
  | keep h => exact Or.inr (Or.inr ⟨_, _, _, rfl, rfl, h⟩)
  | cut hw => exact Or.inl ⟨_, _, rfl, hw⟩

theorem stops {p : Char → Bool} (hp : ∀ w, sep w = true → p w = false) {cs ds : List Char}
    (h : Parted sep cs ds) (hs : Stops p cs) : Stops p ds := by
  rcases h.head with ⟨w, ws, rfl, hw⟩ | ⟨-, rfl⟩ | ⟨c, cs', ds', rfl, rfl, -⟩
  · exact stops_cons (hp w hw)
  · exact stops_nil p
  · exact stops_cons (hs c rfl)

end Parted

/-- the characters other than digits that numerals are written with -/
def numeralMarks : List Char := ['+', '-', '.', '_', 'e', 'E', 'p', 'P']

namespace Rules

/-- separators are no part of any piece, but for the first character of a symbol -/
structure Apart (ρ : Rules) (sep : Char → Bool) : Prop where
  letters : ∀ w, sep w = true → ρ.grammar.isLetter w = false
  digits : ∀ w, sep w = true → ρ.grammar.isDigit w = false
  decimal : ∀ w, sep w = true → w.isDigit = false
  marks : ∀ w, sep w = true → w ∉ numeralMarks
  compound : ∀ w, sep w = true → ∀ c, ρ.mode.compound ρ.grammar c w = none

variable {ρ : Rules} {sep : Char → Bool} (hρ : ρ.Apart sep)
include hρ

/-! ## separators and the marks of numerals -/

theorem Apart.ne {w : Char} (hw : sep w = true) (c : Char) (hc : c ∈ numeralMarks) : w ≠ c := by
  rintro rfl
  exact hρ.marks w hw hc

theorem Apart.not_sign (w : Char) (hw : sep w = true) : isSign w = false := by
  have h₁ := hρ.ne hw '+' (by decide)
  have h₂ := hρ.ne hw '-' (by decide)
  simp [isSign, h₁, h₂]

theorem Apart.not_underscore (w : Char) (hw : sep w = true) : (w == '_') = false :=
  beq_false_of_ne (hρ.ne hw '_' (by decide))

theorem Apart.not_marker {w : Char} (hw : sep w = true) (mode : Mode) :
    mode.markers.contains w = false ∧ mode.signedMarkers.contains w = false := by
  have h₁ := hρ.ne hw 'e' (by decide)
  have h₂ := hρ.ne hw 'p' (by decide)
  have h₃ := hρ.ne hw 'E' (by decide)
  have h₄ := hρ.ne hw 'P' (by decide)
  cases mode <;> simp [Mode.markers, Mode.signedMarkers, h₁, h₂, h₃, h₄]

theorem exponentStarts_sep {w : Char} (hw : sep w = true) (cs : List Char) :
    exponentStarts ρ.mode (w :: cs) = false := by
  obtain ⟨h₁, h₂⟩ := hρ.not_marker hw ρ.mode
  cases cs with
  | nil => exact h₁
  | cons d cs =>
    show (_ || (_ && _)) = false
    rw [h₁, h₂]
    rfl

theorem exponentStarts_cons {c : Char} {cs ds : List Char}
    (h : Parted sep cs ds) (hs : exponentStarts ρ.mode (c :: cs) = false) :
    exponentStarts ρ.mode (c :: ds) = false := by
  have hmarker : ρ.mode.markers.contains c = false := by
    cases cs with
    | nil => exact hs
    | cons d cs => exact (Bool.or_eq_false_iff.mp hs).1
  rcases h.head with ⟨w, ws, rfl, hw⟩ | ⟨rfl, rfl⟩ | ⟨d, cs', ds', rfl, rfl, -⟩
  · show (_ || (_ && isSign w)) = false
    rw [hmarker, hρ.not_sign w hw, Bool.and_false, Bool.or_false]
  · exact hs
  · exact hs

theorem exponentStarts_parted {cs ds : List Char} (h : Parted sep cs ds)
    (hs : exponentStarts ρ.mode cs = false) : exponentStarts ρ.mode ds = false := by
  rcases h.head with ⟨w, ws, rfl, hw⟩ | ⟨rfl, rfl⟩ | ⟨c, cs', ds', rfl, rfl, h'⟩
  · exact exponentStarts_sep hρ hw ws
  · exact hs
  · exact exponentStarts_cons hρ h' hs

/-! ## numerals -/

/-- a mantissa that ends before `rest` ends before a parted rest, if the two agree on whether an
exponent starts -/
theorem mantissaTail_parted (seen : Bool) (tail : List Char) {rest rest' : List Char}
    (hl : Parted sep rest rest')
    (hstart : exponentStarts ρ.mode rest = exponentStarts ρ.mode rest')
    (h : ρ.mantissaTail seen (tail ++ rest) = tail) :
    ρ.mantissaTail seen (tail ++ rest') = tail := by
  induction tail generalizing seen with
  | nil =>
    rw [List.nil_append] at h ⊢
    rcases hl.head with ⟨w, ws, rfl, hw⟩ | ⟨-, rfl⟩ | ⟨c, cs, ds, rfl, rfl, hl'⟩
    · rw [mantissaTail, exponentStarts_sep hρ hw, if_neg Bool.false_ne_true, hρ.digits w hw,
        if_neg Bool.false_ne_true, if_neg]
      simp [hρ.ne hw '.' (by decide)]
    · rfl
    · rw [mantissaTail, ← hstart]
      rw [mantissaTail] at h
      split at h
      · rename_i hexp
        rw [if_pos hexp]
      · rename_i hexp
        rw [if_neg hexp]
        split at h
        · cases h
        · rename_i hdigit
          rw [if_neg hdigit]
          split at h
          · cases h
          · rename_i hpoint
            rw [if_neg hpoint]
  | cons c tail ih =>
    rw [List.cons_append, mantissaTail] at h ⊢
    split at h
    · cases h
    · rename_i hno
      have hno' : exponentStarts ρ.mode (c :: (tail ++ rest')) = false := by
        refine exponentStarts_cons hρ (hl.append_left tail) ?_
        exact Bool.eq_false_iff.mpr hno
      rw [hno', if_neg Bool.false_ne_true]
      split at h
      · rename_i hdigit
        rw [if_pos hdigit, ih seen (List.cons.inj h).2]
      · rename_i hdigit
        rw [if_neg hdigit]
        split at h
        · rename_i hpoint
          rw [if_pos hpoint, ih true (List.cons.inj h).2]
        · cases h

theorem takeSuffix_parted {part rest rest' : List Char} {o : Option (List Char)}
    (hl : Parted sep rest rest') (h : takeSuffix (part ++ rest) = (o, rest)) :
    takeSuffix (part ++ rest') = (o, rest') := by
  cases o with
  | none =>
    have hpart : part = [] := List.append_left_eq_self.mp (takeSuffix_eq_none h)
    subst hpart
    refine takeSuffix_of_ne (hl.stops hρ.not_underscore fun c hc => ?_)
    cases rest with
    | nil => cases hc
    | cons d ds =>
      cases hc
      refine Bool.eq_false_iff.mpr fun hd => ?_
      rw [beq_iff_eq] at hd
      subst hd
      cases h
  | some ds =>
    obtain ⟨suffix, hcs⟩ := takeSuffix_eq_some h
    rw [← List.cons_append] at hcs
    have hpart : part = '_' :: suffix := List.append_cancel_right hcs
    subst hpart
    have hds : (some ((suffix ++ rest).takeWhile Char.isDigit),
        (suffix ++ rest).dropWhile Char.isDigit) = (some ds, rest) := h
    obtain ⟨htake, hdrop⟩ := Prod.mk.inj hds
    have hrun := List.takeWhile_append_dropWhile (p := Char.isDigit) (l := suffix ++ rest)
    rw [Option.some.inj htake, hdrop] at hrun
    have hsuffix : ds = suffix := List.append_cancel_right hrun
    subst hsuffix
    have hall : ∀ c ∈ ds, c.isDigit = true := by
      rw [← Option.some.inj htake]
      exact all_takeWhile
    have hstops : Stops Char.isDigit rest := by
      have := stops_dropWhile Char.isDigit (ds ++ rest)
      rwa [hdrop] at this
    obtain ⟨htake', hdrop'⟩ := takeWhile_append_stops hall (hl.stops hρ.decimal hstops)
    show (some ((ds ++ rest').takeWhile Char.isDigit), (ds ++ rest').dropWhile Char.isDigit) = _
    rw [htake', hdrop']

/-- a mantissa gives the same before a parted rest; without a suffix, the rests have to agree on
whether an exponent starts -/
theorem mantissa_parted {c : Char} {part rest rest' : List Char} {m : Except Fault (List Char)}
    (hl : Parted sep rest rest')
    (hstart : m.isOk = true → exponentStarts ρ.mode rest = exponentStarts ρ.mode rest')
    (h : ρ.mantissa c (part ++ rest) = (m, rest)) : ρ.mantissa c (part ++ rest') = (m, rest') := by
  obtain ⟨behind, hbehind⟩ := ρ.mantissaTail_prefix false (part ++ rest)
  have htail : ρ.mantissaTail false (ρ.mantissaTail false (part ++ rest) ++ behind)
      = ρ.mantissaTail false (part ++ rest) := by rw [hbehind]
  generalize ρ.mantissaTail false (part ++ rest) = tail at hbehind htail
  rw [← hbehind, mantissa_eq htail rfl] at h
  split at h
  · rename_i rest₁ hsuf
    cases h
    have hpart : tail = part := by
      rw [takeSuffix_eq_none hsuf] at hbehind
      exact List.append_cancel_right hbehind
    subst hpart
    rw [takeSuffix_eq_none hsuf] at htail hsuf
    have htail' := mantissaTail_parted hρ false tail hl (hstart rfl) htail
    have hsuf' := takeSuffix_parted hρ hl (show takeSuffix ([] ++ rest) = (none, rest) from hsuf)
    rw [List.nil_append] at hsuf'
    rw [mantissa_eq htail' rfl, hsuf']
  · rename_i suffix rest₁ hsuf
    cases h
    obtain ⟨ds, rfl⟩ := takeSuffix_eq_some hsuf
    rw [← List.cons_append, ← List.append_assoc] at hbehind
    have hpart : tail ++ '_' :: ds = part := List.append_cancel_right hbehind
    subst hpart
    -- no exponent starts at the underscore, with whatever behind it
    have hunder : ∀ cs, exponentStarts ρ.mode ('_' :: cs) = false := by
      intro cs
      cases ρ.mode <;> cases cs <;> rfl
    have hl' : Parted sep ('_' :: (ds ++ rest)) ('_' :: (ds ++ rest')) :=
      .keep (hl.append_left ds)
    have htail' := mantissaTail_parted hρ false tail hl' (by rw [hunder, hunder]) htail
    rw [← List.cons_append] at hsuf
    have hsuf' := takeSuffix_parted hρ hl hsuf
    rw [List.cons_append] at hsuf'
    rw [List.append_assoc, List.cons_append, mantissa_eq htail' rfl, hsuf']

omit hρ in
theorem takeSign_stops {cs rest : List Char} (h : takeSign cs = ([], rest)) :
    Stops isSign rest ∧ cs = rest := by
  have happ := takeSign_append cs
  rw [h, List.nil_append] at happ
  subst happ
  refine ⟨fun c hc => ?_, rfl⟩
  cases rest with
  | nil => cases hc
  | cons d ds =>
    cases hc
    unfold takeSign at h
    split at h
    · cases h
    · cases h
    · rename_i hplus hminus
      have h₁ : c ≠ '+' := fun e => hplus ds (by rw [e])
      have h₂ : c ≠ '-' := fun e => hminus ds (by rw [e])
      simp [isSign, h₁, h₂]

theorem takeSign_parted {sign part rest rest' : List Char}
    (hl : Parted sep rest rest')
    (h : takeSign (sign ++ (part ++ rest)) = (sign, part ++ rest)) :
    takeSign (sign ++ (part ++ rest')) = (sign, part ++ rest') := by
  have hmem := takeSign_mem (sign ++ (part ++ rest))
  rw [h] at hmem
  simp only [List.mem_cons, List.not_mem_nil, or_false] at hmem
  rcases hmem with rfl | rfl | rfl
  · rw [List.nil_append] at h ⊢
    refine takeSign_of_ne ?_
    cases part with
    | nil => exact hl.stops hρ.not_sign (takeSign_stops h).1
    | cons d ds => exact stops_cons ((takeSign_stops h).1 d rfl)
  · rfl
  · rfl

omit hρ in
theorem exponent_eq (marker : Char) {sign digits behind : List Char}
    (hs : takeSign (sign ++ (digits ++ behind)) = (sign, digits ++ behind))
    (hall : ∀ c ∈ digits, ρ.grammar.isDigit c = true) (hd : Stops ρ.grammar.isDigit behind) :
    ρ.exponent marker (sign ++ (digits ++ behind)) =
      if digits.isEmpty then (.error .missingExponent, behind)
      else
        match takeSuffix behind with
        | (none, rest) => (.ok (marker.toLower :: (sign ++ digits.map Char.toUpper)), rest)
        | (some suffix, rest) =>
          (do
            let old ← Radix.parse suffix
            let value ← old.readExponent (sign ++ digits.map Char.toUpper)
            return marker.toLower :: ρ.radix.writeExponent value, rest) := by
  obtain ⟨htake, hdrop⟩ := takeWhile_append_stops hall hd
  cases hsuf : takeSuffix behind with
  | mk suffix rest =>
    cases suffix with
    | none => simp only [exponent, hs, htake, hdrop, hsuf]
    | some suffix => simp only [exponent, hs, htake, hdrop, hsuf]

theorem exponent_parted {marker : Char} {part rest rest' : List Char}
    {x : Except Fault (List Char)} (hl : Parted sep rest rest')
    (h : ρ.exponent marker (part ++ rest) = (x, rest)) :
    ρ.exponent marker (part ++ rest') = (x, rest') := by
  obtain ⟨sign, unsigned, hsign⟩ : ∃ a b, takeSign (part ++ rest) = (a, b) := ⟨_, _, rfl⟩
  have happ := takeSign_append (part ++ rest)
  rw [hsign] at happ
  have hrun := List.takeWhile_append_dropWhile (p := ρ.grammar.isDigit) (l := unsigned)
  have hall : ∀ c ∈ unsigned.takeWhile ρ.grammar.isDigit, ρ.grammar.isDigit c = true :=
    all_takeWhile
  have hstops := stops_dropWhile ρ.grammar.isDigit unsigned
  simp only [exponent, hsign] at h
  generalize unsigned.takeWhile ρ.grammar.isDigit = digits at h hrun hall
  generalize unsigned.dropWhile ρ.grammar.isDigit = behind at h hrun hstops
  subst hrun
  split at h
  · rename_i hempty
    cases h
    have hdigits := List.isEmpty_iff.mp hempty
    subst hdigits
    have hpart : sign = part := List.append_cancel_right happ
    subst hpart
    have hs' := takeSign_parted hρ hl
      (show takeSign (sign ++ ([] ++ rest)) = (sign, [] ++ rest) from hsign)
    exact (exponent_eq marker hs' hall (hl.stops hρ.digits hstops)).trans (if_pos hempty)
  · rename_i hempty
    rw [← happ] at hsign
    split at h
    · rename_i rest₁ hsuf
      cases h
      have hbehind := takeSuffix_eq_none hsuf
      subst hbehind
      rw [← List.append_assoc] at happ
      have hpart : sign ++ digits = part := List.append_cancel_right happ
      subst hpart
      have hs' := takeSign_parted hρ hl hsign
      have hsuf' := takeSuffix_parted hρ hl
        (show takeSuffix ([] ++ behind) = (none, behind) from hsuf)
      rw [List.nil_append] at hsuf'
      rw [List.append_assoc, exponent_eq marker hs' hall (hl.stops hρ.digits hstops),
        if_neg hempty, hsuf']
    · rename_i suffix rest₁ hsuf
      cases h
      obtain ⟨ds, rfl⟩ := takeSuffix_eq_some hsuf
      rw [← List.cons_append, ← List.append_assoc, ← List.append_assoc] at happ
      have hpart : sign ++ digits ++ '_' :: ds = part := List.append_cancel_right happ
      subst hpart
      have hl' : Parted sep ('_' :: (ds ++ rest)) ('_' :: (ds ++ rest')) :=
        .keep (hl.append_left ds)
      have hs' := takeSign_parted hρ hl' hsign
      rw [← List.cons_append] at hsuf
      have hsuf' := takeSuffix_parted hρ hl hsuf
      rw [List.cons_append] at hsuf'
      rw [List.append_assoc, List.append_assoc, List.cons_append,
        exponent_eq marker hs' hall (hl'.stops hρ.digits hstops), if_neg hempty, hsuf']

omit hρ in
theorem numeral_of_mantissa {c : Char} {cs m rest : List Char}
    (hm : ρ.mantissa c cs = (.ok m, rest)) (hstart : exponentStarts ρ.mode rest = false) :
    ρ.numeral c cs = (.ok m, rest) := by
  unfold numeral
  rw [hm]
  cases rest with
  | nil => rfl
  | cons k rest =>
    simp only
    rw [if_neg (Bool.eq_false_iff.mp hstart)]

omit hρ in
theorem numeral_of_exponent {c k : Char} {cs m behind : List Char}
    (hm : ρ.mantissa c cs = (.ok m, k :: behind))
    (hstart : exponentStarts ρ.mode (k :: behind) = true) :
    ρ.numeral c cs =
      ((ρ.exponent k behind).1.map (m ++ ·), (ρ.exponent k behind).2) := by
  unfold numeral
  rw [hm]
  simp only
  rw [if_pos hstart]
  cases ρ.exponent k behind with
  | mk x rest =>
    cases x with
    | error fault => rfl
    | ok x => rfl

omit hρ in
theorem exponent_rest_unsigned (marker : Char) (cs : List Char) :
    (ρ.exponent marker cs).2 <:+ (takeSign cs).2 := by
  have h₁ := List.dropWhile_suffix (l := (takeSign cs).2) ρ.grammar.isDigit
  have h₂ := (takeSuffix_rest _).trans h₁
  simp only [exponent]
  split
  · exact h₁
  · split
    · rename_i rest heq
      rw [heq] at h₂
      exact h₂
    · rename_i suffix rest heq
      rw [heq] at h₂
      exact h₂

omit hρ in
/-- an exponent that starts and was taken starts before a parted rest too: its marker suffices,
or the sign was taken with it -/
theorem exponentStarts_of_taken {marker : Char} {part rest rest' : List Char}
    {x : Except Fault (List Char)} (h : ρ.exponent marker (part ++ rest) = (x, rest))
    (hstart : exponentStarts ρ.mode (marker :: (part ++ rest)) = true) :
    exponentStarts ρ.mode (marker :: (part ++ rest')) = true := by
  cases part with
  | cons d ds => exact hstart
  | nil =>
    have hmarker : ρ.mode.markers.contains marker = true := by
      cases rest with
      | nil => exact hstart
      | cons d ds =>
        rcases Bool.or_eq_true_iff.mp hstart with hm | hs
        · exact hm
        · -- a sign would have been taken, and less would be left
          have hsign : d = '+' ∨ d = '-' := by simpa [isSign] using (Bool.and_eq_true_iff.mp hs).2
          have hshort := (ρ.exponent_rest_unsigned marker ([] ++ d :: ds)).length_le
          rw [h] at hshort
          rcases hsign with rfl | rfl
          · exact absurd hshort (Nat.not_le.mpr (Nat.lt_succ_self _))
          · exact absurd hshort (Nat.not_le.mpr (Nat.lt_succ_self _))
    cases rest' with
    | nil => exact hmarker
    | cons d ds =>
      show (_ || _) = true
      rw [hmarker, Bool.true_or]

theorem numeral_parted {c : Char} {part rest rest' : List Char} {r : Except Fault (List Char)}
    (hl : Parted sep rest rest')
    (h : ρ.numeral c (part ++ rest) = (r, rest)) : ρ.numeral c (part ++ rest') = (r, rest') := by
  cases hm : ρ.mantissa c (part ++ rest) with
  | mk m behind =>
    cases m with
    | error fault =>
      have hstop : (Except.error fault, behind) = (r, rest) := by
        rw [← h]
        unfold numeral
        rw [hm]
      cases hstop
      have hm' := mantissa_parted hρ hl (fun hok => by cases hok) hm
      unfold numeral
      rw [hm']
    | ok m =>
      cases hstart : exponentStarts ρ.mode behind with
      | false =>
        rw [numeral_of_mantissa hm hstart] at h
        cases h
        have hstart' := exponentStarts_parted hρ hl hstart
        have hm' := mantissa_parted hρ hl (fun _ => by rw [hstart, hstart']) hm
        exact numeral_of_mantissa hm' hstart'
      | true =>
        cases behind with
        | nil => cases hstart
        | cons k behind =>
          rw [numeral_of_exponent hm hstart] at h
          obtain ⟨hr, hrest⟩ := Prod.mk.inj h
          have hsuffix := ρ.mantissa_rest c (part ++ rest)
          rw [hm] at hsuffix
          obtain ⟨part₁, hpart₁⟩ := hsuffix
          obtain ⟨part₂, hpart₂⟩ := ρ.exponent_rest k behind
          rw [hrest] at hpart₂
          subst hpart₂
          rw [← List.cons_append, ← List.append_assoc] at hpart₁
          have hpart : part₁ ++ k :: part₂ = part := List.append_cancel_right hpart₁
          subst hpart
          have hx : ρ.exponent k (part₂ ++ rest) = ((ρ.exponent k (part₂ ++ rest)).1, rest) :=
            Prod.ext rfl hrest
          have hl' : Parted sep (k :: (part₂ ++ rest))
              (k :: (part₂ ++ rest')) := .keep (hl.append_left part₂)
          have hstart' : exponentStarts ρ.mode (k :: (part₂ ++ rest')) = true :=
            exponentStarts_of_taken hx hstart
          rw [List.append_assoc, List.cons_append] at hm ⊢
          have hm' := mantissa_parted hρ hl' (fun _ => by rw [hstart, hstart']) hm
          rw [numeral_of_exponent hm' hstart', exponent_parted hρ hl hx, hr]

/-! ## all pieces -/

theorem scanNumeral_parted {c : Char} {part rest rest' : List Char}
    {r : Except Cause (Kind × List Char)} (hl : Parted sep rest rest')
    (h : ρ.scanNumeral c (part ++ rest) = ⟨r, rest⟩) :
    ρ.scanNumeral c (part ++ rest') = ⟨r, rest'⟩ := by
  unfold scanNumeral at *
  cases hn : ρ.numeral c (part ++ rest) with
  | mk x behind =>
    rw [hn] at h
    cases x with
    | ok lexeme =>
      cases h
      rw [numeral_parted hρ hl hn]
    | error fault =>
      cases h
      rw [numeral_parted hρ hl hn]
      simp only
      rw [← List.cons_append, ← List.cons_append, used_append, used_append]

omit hρ in
theorem single_rest (c : Char) (cs : List Char) : (ρ.single c cs).rest = cs := by
  unfold single
  split <;> rfl

omit hρ in
theorem single_result (c : Char) (cs ds : List Char) :
    (ρ.single c cs).result = (ρ.single c ds).result := by
  unfold single
  split <;> rfl

theorem symbol_single {c : Char} {rest rest' : List Char}
    (hl : Parted sep rest rest')
    (h : (ρ.symbol c rest).rest = rest) :
    (ρ.symbol c rest).result = (ρ.single c rest).result ∧
      ρ.symbol c rest' = ρ.single c rest' := by
  have hnone : ∀ d ds, rest = d :: ds → ρ.mode.compound ρ.grammar c d = none := by
    rintro d ds rfl
    simp only [symbol] at h
    split at h
    · exact absurd (congrArg List.length h) (Nat.ne_of_lt (Nat.lt_succ_self _))
    · assumption
  constructor
  · cases rest with
    | nil => rfl
    | cons d ds => simp only [symbol, hnone d ds rfl]
  · rcases hl.head with ⟨w, ws, rfl, hw⟩ | ⟨-, rfl⟩ | ⟨d, ds, ds', hrest, rfl, -⟩
    · simp only [symbol, hρ.compound _ hw]
    · rfl
    · simp only [symbol, hnone d ds hrest]

theorem symbol_parted {c : Char} {part rest rest' : List Char}
    {r : Except Cause (Kind × List Char)} (hl : Parted sep rest rest')
    (h : ρ.symbol c (part ++ rest) = ⟨r, rest⟩) : ρ.symbol c (part ++ rest') = ⟨r, rest'⟩ := by
  cases part with
  | nil =>
    rw [List.nil_append] at h ⊢
    obtain ⟨hresult, heq⟩ := symbol_single hρ hl (congrArg Scan.rest h)
    rw [h] at hresult
    have hr : (ρ.single c rest').result = r := by
      rw [single_result c rest' rest]
      exact hresult.symm
    rw [heq, ← hr]
    exact congrArg (Scan.mk _) (single_rest c rest')
  | cons d part =>
    rw [List.cons_append] at h ⊢
    simp only [symbol] at h ⊢
    split at h
    · rename_i k hk
      obtain ⟨hr, hrest⟩ := Scan.mk.inj h
      have hpart : part = [] := List.append_left_eq_self.mp hrest
      subst hpart
      rw [← hr]
      rfl
    · have hlen := congrArg (fun s => s.rest.length) h
      simp only [single_rest, List.length_cons, List.length_append] at hlen
      omega

theorem name_parted {c : Char} {part rest rest' : List Char}
    {r : Except Cause (Kind × List Char)} (hl : Parted sep rest rest')
    (h : ρ.name c (part ++ rest) = ⟨r, rest⟩) : ρ.name c (part ++ rest') = ⟨r, rest'⟩ := by
  unfold name at *
  obtain ⟨rfl, hrest⟩ := Scan.mk.inj h
  have hrun := List.takeWhile_append_dropWhile (p := ρ.grammar.isLetter) (l := part ++ rest)
  have hstops := stops_dropWhile ρ.grammar.isLetter (part ++ rest)
  rw [hrest] at hrun hstops
  have hpart := List.append_cancel_right hrun
  have hall : ∀ c ∈ part, ρ.grammar.isLetter c = true := by
    rw [← hpart]
    exact all_takeWhile
  obtain ⟨htake, hdrop⟩ := takeWhile_append_stops hall (hl.stops hρ.letters hstops)
  rw [htake, hdrop, hpart]

/-- a scan gives the same before a parted rest -/
theorem scan_parted {c : Char} {part rest rest' : List Char}
    {r : Except Cause (Kind × List Char)} (hl : Parted sep rest rest')
    (h : ρ.scan c (part ++ rest) = ⟨r, rest⟩) : ρ.scan c (part ++ rest') = ⟨r, rest'⟩ := by
  rw [scan_eq_reading] at h ⊢
  cases hr : ρ.reading c with
  | symbol =>
    rw [hr] at h
    exact symbol_parted hρ hl h
  | name =>
    rw [hr] at h
    exact name_parted hρ hl h
  | numeral =>
    rw [hr] at h
    exact scanNumeral_parted hρ hl h
  | unknown =>
    rw [hr] at h
    obtain ⟨rfl, hrest⟩ := Scan.mk.inj h
    have hpart : part = [] := List.append_left_eq_self.mp hrest
    subst hpart
    rfl

end Rules

end Calculator
