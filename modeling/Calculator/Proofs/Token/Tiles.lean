import Calculator.Proofs.Grammar.Builtin
import Calculator.Proofs.Numeral.Literal
import Calculator.Proofs.Token.Pieces
import Mathlib.Algebra.Group.Nat.Defs

/-!
# Lexing tiles the source

A scan takes a slice of the text and the rest is left.  What the slice looks like depends on how it
was read: symbols and names are their own lexemes, and the lexeme of a numeral without a suffix
differs from the slice in the case of letters alone.  Pull after pull, blanks and slices cover the
source from its start to its end.

* `Reading`, `Rules.reading c`           how a piece that starts with `c` is read;
* `Rules.Mantissa`, `Rules.Transcribes`   what a numeral without a suffix is made of, and its
                              lexeme;
* `Rules.Piece slice rest result`         what a scan made of a slice, given the text behind it;
* `Rules.scan_piece`          every scan is so;
* `Lexer.result l k`          what the `k`-th pull gives;
* `Lexer.Tile l k`            what the `k`-th pull does to the source;
* `lexing_tiles`              every pull is so, slices come in order, and the end is reached.
-/

namespace Calculator

theorem stops_dropWhile (p : Char → Bool) (cs : List Char) : Stops p (cs.dropWhile p) := by
  intro c hc
  have h := List.head?_dropWhile_not p cs
  rw [Option.mem_def.mp hc] at h
  exact h

/-! ## ways of reading -/

/-- how a piece is read -/
inductive Reading where
  | symbol
  | name
  | numeral
  | unknown
deriving DecidableEq

namespace Rules

variable (ρ : Rules)

/-- how a piece that starts with a character is read -/
def reading (c : Char) : Reading :=
  if ρ.grammar.isPunctuator c then .symbol
  else if ρ.mode.reserves c then .unknown
  else if ρ.grammar.isLetter c then .name
  else if ρ.grammar.isDigit c then .numeral
  else .unknown

theorem scan_eq_reading (c : Char) (cs : List Char) :
    ρ.scan c cs =
      match ρ.reading c with
      | .symbol => ρ.symbol c cs
      | .name => ρ.name c cs
      | .numeral => ρ.scanNumeral c cs
      | .unknown => ⟨.error (.unknownToken c), cs⟩ := by
  unfold scan reading
  split
  · rfl
  · split
    · rfl
    · split
      · rfl
      · split <;> rfl

theorem class_of_reading (c : Char) :
    match ρ.reading c with
    | .symbol => ρ.grammar.isPunctuator c = true
    | .name => ρ.grammar.isLetter c = true
    | .numeral => ρ.grammar.isDigit c = true ∧ ρ.grammar.isLetter c = false
    | .unknown => True := by
  unfold reading
  by_cases hp : ρ.grammar.isPunctuator c = true
  · rw [if_pos hp]
    exact hp
  rw [if_neg hp]
  by_cases hres : ρ.mode.reserves c = true
  · rw [if_pos hres]
    trivial
  rw [if_neg hres]
  by_cases hl : ρ.grammar.isLetter c = true
  · rw [if_pos hl]
    exact hl
  rw [if_neg hl]
  by_cases hd : ρ.grammar.isDigit c = true
  · rw [if_pos hd]
    exact ⟨hd, Bool.eq_false_iff.mpr hl⟩
  · rw [if_neg hd]
    trivial

end Rules

namespace Rules

variable (ρ : Rules)

/-! ## numerals without suffixes -/

/-- digits, or digits, a point and digits -/
def Mantissa (m : List Char) : Prop :=
  ∃ ds fs, ds ≠ [] ∧ (∀ c ∈ ds ++ fs, ρ.grammar.isDigit c = true) ∧
    (m = ds ∨ m = ds ++ '.' :: fs)

/-- the lexeme of a numeral without a suffix: upper-case digits and a lower-case marker -/
inductive Transcribes : List Char → List Char → Prop where
  | plain {m : List Char} : ρ.Mantissa m → Transcribes m (m.map Char.toUpper)
  | scaled {m sign ds : List Char} {marker : Char} : ρ.Mantissa m →
      exponentStarts ρ.mode (marker :: (sign ++ ds)) = true → sign ∈ [[], ['+'], ['-']] →
      ds ≠ [] → (∀ c ∈ ds, ρ.grammar.isDigit c = true) →
      Transcribes (m ++ marker :: (sign ++ ds))
        (m.map Char.toUpper ++ marker.toLower :: (sign ++ ds.map Char.toUpper))

theorem mantissaTail_prefix (seen : Bool) (cs : List Char) : ρ.mantissaTail seen cs <+: cs := by
  fun_induction mantissaTail ρ seen cs with
  | case1 => exact List.prefix_refl _
  | case2 => exact List.nil_prefix
  | case3 seen c cs _ _ ih => exact (List.prefix_cons_inj c).mpr ih
  | case4 seen c cs _ _ _ ih => exact (List.prefix_cons_inj c).mpr ih
  | case5 => exact List.nil_prefix

theorem mantissaTail_digits (seen : Bool) (cs : List Char) :
    ∃ ds fs, (∀ c ∈ ds ++ fs, ρ.grammar.isDigit c = true) ∧
      (ρ.mantissaTail seen cs = ds ∨ seen = false ∧ ρ.mantissaTail seen cs = ds ++ '.' :: fs) := by
  fun_induction mantissaTail ρ seen cs with
  | case1 => exact ⟨[], [], List.forall_mem_nil _, Or.inl rfl⟩
  | case2 => exact ⟨[], [], List.forall_mem_nil _, Or.inl rfl⟩
  | case3 seen c cs _ hc ih =>
    obtain ⟨ds, fs, hall, htail⟩ := ih
    refine ⟨c :: ds, fs, List.forall_mem_cons.mpr ⟨hc, hall⟩, ?_⟩
    rcases htail with h | ⟨hseen, h⟩
    · exact Or.inl (by rw [h])
    · exact Or.inr ⟨hseen, by rw [h, List.cons_append]⟩
  | case4 seen c cs _ _ hc ih =>
    obtain ⟨ds, fs, hall, htail⟩ := ih
    simp only [Bool.and_eq_true, decide_eq_true_eq, Bool.not_eq_true'] at hc
    obtain ⟨rfl, hseen⟩ := hc
    rcases htail with h | ⟨h, -⟩
    · exact ⟨[], ds, fun c hc => hall c (List.mem_append_left _ hc),
        Or.inr ⟨hseen, by rw [h, List.nil_append]⟩⟩
    · cases h
  | case5 => exact ⟨[], [], List.forall_mem_nil _, Or.inl rfl⟩

theorem mantissa_of_tail {c : Char} (hc : ρ.grammar.isDigit c = true) (cs : List Char) :
    ρ.Mantissa (c :: ρ.mantissaTail false cs) := by
  obtain ⟨ds, fs, hall, htail⟩ := ρ.mantissaTail_digits false cs
  refine ⟨c :: ds, fs, List.cons_ne_nil _ _, List.forall_mem_cons.mpr ⟨hc, hall⟩, ?_⟩
  rcases htail with htail | ⟨-, htail⟩
  · exact Or.inl (by rw [htail])
  · exact Or.inr (by rw [htail, List.cons_append])

theorem takeSuffix_eq_none {cs rest : List Char} (h : takeSuffix cs = (none, rest)) :
    cs = rest := by
  unfold takeSuffix at h
  split at h
  · cases h
  · cases h
    rfl

theorem takeSuffix_eq_some {cs ds rest : List Char} (h : takeSuffix cs = (some ds, rest)) :
    ∃ suffix, cs = '_' :: (suffix ++ rest) := by
  unfold takeSuffix at h
  split at h
  · rename_i cs
    cases h
    exact ⟨cs.takeWhile Char.isDigit, by rw [List.takeWhile_append_dropWhile]⟩
  · cases h

variable {ρ} in
theorem mantissa_eq {c : Char} {cs tail behind : List Char} (ht : ρ.mantissaTail false cs = tail)
    (hcs : tail ++ behind = cs) :
    ρ.mantissa c cs =
      match takeSuffix behind with
      | (none, rest) => (.ok ((c :: tail).map Char.toUpper), rest)
      | (some suffix, rest) =>
        (Radix.parse suffix >>= fun old => rebase old ρ.radix ((c :: tail).map Char.toUpper),
          rest) := by
  subst hcs
  cases hsuf : takeSuffix behind with
  | mk suffix rest =>
    cases suffix with
    | none => simp only [mantissa, ht, List.drop_left, hsuf]
    | some suffix => simp only [mantissa, ht, List.drop_left, hsuf]

/-- a mantissa without an underscore is its slice in upper case -/
theorem mantissa_slice {c : Char} {cs m rest : List Char} (hc : ρ.grammar.isDigit c = true)
    (h : ρ.mantissa c cs = (.ok m, rest)) :
    ∃ part, cs = part ++ rest ∧
      ('_' ∉ part → ρ.Mantissa (c :: part) ∧ m = (c :: part).map Char.toUpper) := by
  obtain ⟨behind, hbehind⟩ := ρ.mantissaTail_prefix false cs
  rw [mantissa_eq rfl hbehind] at h
  split at h
  · rename_i rest' hsuf
    cases h
    rw [takeSuffix_eq_none hsuf] at hbehind
    exact ⟨_, hbehind.symm, fun _ => ⟨ρ.mantissa_of_tail hc cs, rfl⟩⟩
  · rename_i suffix rest' hsuf
    obtain ⟨-, hrest⟩ := Prod.mk.inj h
    subst hrest
    obtain ⟨ds, hds⟩ := takeSuffix_eq_some hsuf
    refine ⟨ρ.mantissaTail false cs ++ '_' :: ds, ?_, fun hno => absurd ?_ hno⟩
    · rw [List.append_assoc, List.cons_append, ← hds, hbehind]
    · exact List.mem_append_right _ List.mem_cons_self

theorem takeSign_mem (cs : List Char) : (takeSign cs).1 ∈ [[], ['+'], ['-']] := by
  unfold takeSign
  split <;> simp

theorem exponent_slice {marker : Char} {cs x rest : List Char}
    (h : ρ.exponent marker cs = (.ok x, rest)) :
    ∃ sign ds suffix, cs = (sign ++ ds ++ suffix) ++ rest ∧ sign ∈ [[], ['+'], ['-']] ∧ ds ≠ [] ∧
      (∀ c ∈ ds, ρ.grammar.isDigit c = true) ∧
      ('_' ∉ suffix → suffix = [] ∧ x = marker.toLower :: (sign ++ ds.map Char.toUpper)) := by
  have hsign := takeSign_append cs
  have hrun := List.takeWhile_append_dropWhile (p := ρ.grammar.isDigit) (l := (takeSign cs).2)
  have hall : ∀ c ∈ (takeSign cs).2.takeWhile ρ.grammar.isDigit, ρ.grammar.isDigit c = true :=
    all_takeWhile
  simp only [exponent] at h
  split at h
  · cases h
  · rename_i hne
    have hne' : (takeSign cs).2.takeWhile ρ.grammar.isDigit ≠ [] :=
      fun e => hne (List.isEmpty_iff.mpr e)
    split at h
    · rename_i rest' hsuf
      cases h
      rw [takeSuffix_eq_none hsuf] at hrun
      refine ⟨_, _, [], ?_, takeSign_mem cs, hne', hall, fun _ => ⟨rfl, rfl⟩⟩
      rw [List.append_nil, List.append_assoc, hrun, hsign]
    · rename_i suffix rest' hsuf
      obtain ⟨-, hrest⟩ := Prod.mk.inj h
      subst hrest
      obtain ⟨ds, hds⟩ := takeSuffix_eq_some hsuf
      refine ⟨_, _, '_' :: ds, ?_, takeSign_mem cs, hne', hall, fun hno =>
        absurd List.mem_cons_self hno⟩
      rw [List.append_assoc, List.append_assoc, List.cons_append, ← hds, hrun, hsign]

theorem exponentStarts_append {mode : Mode} {marker : Char} {part rest : List Char}
    (h : part ≠ []) :
    exponentStarts mode (marker :: (part ++ rest)) = exponentStarts mode (marker :: part) := by
  cases part with
  | nil => exact absurd rfl h
  | cons d ds => rfl

/-- the lexeme of a numeral without an underscore differs from its slice in case alone -/
theorem numeral_slice {c : Char} {cs lexeme rest : List Char} (hc : ρ.grammar.isDigit c = true)
    (h : ρ.numeral c cs = (.ok lexeme, rest)) :
    ∃ part, cs = part ++ rest ∧ ('_' ∉ c :: part → ρ.Transcribes (c :: part) lexeme) := by
  have plain {m : List Char} {rest : List Char} (hm : ρ.mantissa c cs = (.ok m, rest)) :
      ∃ part, cs = part ++ rest ∧ ('_' ∉ c :: part → ρ.Transcribes (c :: part) m) := by
    obtain ⟨part, hpart, hslice⟩ := ρ.mantissa_slice hc hm
    refine ⟨part, hpart, fun hno => ?_⟩
    obtain ⟨hman, rfl⟩ := hslice fun hin => hno (List.mem_cons_of_mem _ hin)
    exact .plain hman
  unfold numeral at h
  split at h
  · cases h
  · rename_i m hm
    cases h
    exact plain hm
  · rename_i m marker behind hm
    split at h
    · rename_i hstart
      split at h
      · cases h
      · rename_i x rest' hx
        cases h
        obtain ⟨part, hpart, hslice⟩ := ρ.mantissa_slice hc hm
        obtain ⟨sign, ds, suffix, hcs, hsign, hne, hall, hlex⟩ := ρ.exponent_slice hx
        refine ⟨part ++ marker :: (sign ++ ds ++ suffix), ?_, fun hno => ?_⟩
        · rw [List.append_assoc, List.cons_append, ← hcs, hpart]
        · have hno' : '_' ∉ part ∧ '_' ∉ suffix := by
            simp only [List.mem_cons, List.mem_append, not_or] at hno
            exact ⟨hno.2.1, hno.2.2.2.2⟩
          obtain ⟨hman, rfl⟩ := hslice hno'.1
          obtain ⟨rfl, rfl⟩ := hlex hno'.2
          rw [List.append_nil] at hcs ⊢
          rw [hcs, exponentStarts_append (List.append_ne_nil_of_right_ne_nil _ hne)] at hstart
          exact .scaled hman hstart hsign hne hall
    · cases h
      exact plain hm

/-! ## pieces -/

/-- what a scan made of a slice, given the text behind it -/
inductive Piece (slice rest : List Char) : Except Cause (Kind × List Char) → Prop where
  | single {c : Char} {k : Kind} : slice = [c] → ρ.grammar.isPunctuator c = true →
      ρ.grammar.kindOf c = some k → Piece slice rest (.ok (k, slice))
  | double {c d : Char} {k : Kind} : slice = [c, d] → ρ.grammar.isPunctuator c = true →
      ρ.grammar.kindNamed [c, d] = some k → Piece slice rest (.ok (k, slice))
  | name : slice ≠ [] → (∀ c ∈ slice, ρ.grammar.isLetter c = true) →
      Stops ρ.grammar.isLetter rest → Piece slice rest (.ok (ρ.nameKind, slice))
  | numeral {c : Char} {cs lexeme : List Char} : slice = c :: cs → ρ.grammar.isDigit c = true →
      ρ.grammar.isLetter c = false → ('_' ∉ slice → ρ.Transcribes slice lexeme) →
      Piece slice rest (.ok (ρ.nameKind, lexeme))
  | unknown {c : Char} : slice = [c] → Piece slice rest (.error (.unknownToken c))
  | malformed {c : Char} {cs : List Char} {fault : Fault} : slice = c :: cs →
      ρ.grammar.isDigit c = true → ρ.grammar.isLetter c = false →
      Piece slice rest (.error (.malformedNumeral slice fault))

theorem single_piece {c : Char} (hc : ρ.grammar.isPunctuator c = true) (cs : List Char) :
    (ρ.single c cs).rest = cs ∧ ρ.Piece [c] cs (ρ.single c cs).result := by
  unfold single
  split
  · rename_i k hk
    exact ⟨rfl, .single rfl hc hk⟩
  · exact ⟨rfl, .unknown rfl⟩

theorem symbol_piece {c : Char} (hc : ρ.grammar.isPunctuator c = true) (cs : List Char) :
    ∃ slice, c :: cs = slice ++ (ρ.symbol c cs).rest ∧
      ρ.Piece slice (ρ.symbol c cs).rest (ρ.symbol c cs).result := by
  have one (ds : List Char) : ∃ slice, c :: ds = slice ++ (ρ.single c ds).rest ∧
      ρ.Piece slice (ρ.single c ds).rest (ρ.single c ds).result := by
    obtain ⟨hrest, hpiece⟩ := ρ.single_piece hc ds
    rw [hrest]
    exact ⟨[c], rfl, hpiece⟩
  cases cs with
  | nil => exact one []
  | cons d cs =>
    simp only [symbol]
    split
    · rename_i k hk
      exact ⟨[c, d], rfl, .double rfl hc (compound_named hk)⟩
    · exact one (d :: cs)

theorem scanNumeral_piece {c : Char} (hc : ρ.grammar.isDigit c = true)
    (hl : ρ.grammar.isLetter c = false) (cs : List Char) :
    ∃ slice, c :: cs = slice ++ (ρ.scanNumeral c cs).rest ∧
      ρ.Piece slice (ρ.scanNumeral c cs).rest (ρ.scanNumeral c cs).result := by
  unfold scanNumeral
  split
  · rename_i lexeme rest hn
    obtain ⟨part, rfl, hlex⟩ := ρ.numeral_slice hc hn
    exact ⟨c :: part, rfl, .numeral rfl hc hl hlex⟩
  · rename_i fault rest hn
    have hsuffix := ρ.numeral_rest c cs
    rw [hn] at hsuffix
    obtain ⟨part, rfl⟩ := hsuffix
    refine ⟨c :: part, rfl, ?_⟩
    rw [← List.cons_append, used_append]
    exact .malformed rfl hc hl

theorem name_piece {c : Char} (hc : ρ.grammar.isLetter c = true) (cs : List Char) :
    ∃ slice, c :: cs = slice ++ (ρ.name c cs).rest ∧
      ρ.Piece slice (ρ.name c cs).rest (ρ.name c cs).result := by
  refine ⟨c :: cs.takeWhile ρ.grammar.isLetter, ?_, .name (List.cons_ne_nil _ _) ?_ ?_⟩
  · show c :: cs = c :: (cs.takeWhile _ ++ cs.dropWhile _)
    rw [List.takeWhile_append_dropWhile]
  · exact List.forall_mem_cons.mpr ⟨hc, all_takeWhile⟩
  · exact stops_dropWhile _ cs

/-- a scan takes a slice of the text, and what it made of it is what its way of reading makes -/
theorem scan_piece (c : Char) (cs : List Char) :
    ∃ slice, c :: cs = slice ++ (ρ.scan c cs).rest ∧
      ρ.Piece slice (ρ.scan c cs).rest (ρ.scan c cs).result := by
  have hclass := ρ.class_of_reading c
  rw [scan_eq_reading]
  cases hr : ρ.reading c with
  | symbol =>
    rw [hr] at hclass
    exact ρ.symbol_piece hclass cs
  | name =>
    rw [hr] at hclass
    exact ρ.name_piece hclass cs
  | numeral =>
    rw [hr] at hclass
    exact ρ.scanNumeral_piece hclass.1 hclass.2 cs
  | unknown => exact ⟨[c], rfl, .unknown rfl⟩

theorem Piece.ne_nil {ρ : Rules} {slice rest : List Char} {r : Except Cause (Kind × List Char)}
    (h : ρ.Piece slice rest r) : slice ≠ [] := by
  cases h with
  | single h => rw [h]; exact List.cons_ne_nil _ _
  | double h => rw [h]; exact List.cons_ne_nil _ _
  | name h => exact h
  | numeral h => rw [h]; exact List.cons_ne_nil _ _
  | unknown h => rw [h]; exact List.cons_ne_nil _ _
  | malformed h => rw [h]; exact List.cons_ne_nil _ _

end Rules

/-! ## pulls -/

namespace Lexer

/-- what a result says, wherever it stands -/
def content : Except Error Token → Except Cause (Kind × List Char)
  | .ok t => .ok t.key
  | .error e => .error e.cause

/-- where a result stands -/
def position : Except Error Token → Position
  | .ok t => t.position
  | .error e => e.position

theorem content_placed (start : Nat) (r : Except Cause (Kind × List Char)) :
    content (placed start r) = r := by
  cases r with
  | ok p => rfl
  | error cause => rfl

theorem position_placed (start : Nat) (r : Except Cause (Kind × List Char)) :
    position (placed start r) = UInt32.ofNat start := by
  cases r with
  | ok p => rfl
  | error cause => rfl

theorem startOfNext_le (l : Lexer) (h : l.cursor ≤ l.source.length) :
    l.startOfNext ≤ l.source.length := by
  have hb := l.blanks_length_le
  have hstart : l.startOfNext = l.cursor + l.blanks.length := rfl
  omega

theorem not_whitespace_startOfNext (l : Lexer) :
    Stops l.rules.grammar.isWhitespace (l.source.drop l.startOfNext) := by
  rw [drop_startOfNext]
  exact stops_dropWhile _ _

theorem next_scan {l : Lexer} {c : Char} {cs : List Char}
    (h : l.rest.dropWhile l.rules.grammar.isWhitespace = c :: cs) :
    ∃ slice, c :: cs = slice ++ (l.rules.scan c cs).rest ∧
      l.rules.Piece slice (l.rules.scan c cs).rest (l.rules.scan c cs).result ∧
      l.next = (placed l.startOfNext (l.rules.scan c cs).result,
        { l with cursor := l.startOfNext + slice.length }) := by
  obtain ⟨slice, hslice, hpiece⟩ := l.rules.scan_piece c cs
  refine ⟨slice, hslice, hpiece, ?_⟩
  have hlen : (c :: cs).length - (l.rules.scan c cs).rest.length = slice.length := by
    rw [hslice, List.length_append]
    omega
  unfold next
  rw [h]
  simp only [hlen]

theorem next_piece (l : Lexer) (h : l.startOfNext < l.source.length) :
    ∃ slice rest r, l.source.drop l.startOfNext = slice ++ rest ∧ l.rules.Piece slice rest r ∧
      l.next = (placed l.startOfNext r, { l with cursor := l.startOfNext + slice.length }) := by
  have hd := l.drop_startOfNext
  cases hrest : l.rest.dropWhile l.rules.grammar.isWhitespace with
  | nil =>
    rw [hrest] at hd
    have hlen := congrArg List.length hd
    rw [List.length_drop, List.length_nil] at hlen
    omega
  | cons c cs =>
    obtain ⟨slice, hslice, hpiece, hn⟩ := next_scan hrest
    exact ⟨slice, _, _, by rw [hd, hrest, hslice], hpiece, hn⟩

/-- what the `k`-th pull gives -/
def result (l : Lexer) (k : Nat) : Except Error Token := (l.after k).next.1

/-- where the `k`-th pull finds something -/
def start (l : Lexer) (k : Nat) : Nat := (l.after k).startOfNext

/-- where the cursor is behind the `k`-th pull -/
def stop (l : Lexer) (k : Nat) : Nat := (l.after (k + 1)).cursor

/-- what the `k`-th pull takes -/
def slice (l : Lexer) (k : Nat) : List Char :=
  (l.source.drop (l.start k)).take (l.stop k - l.start k)

theorem pull_eq_map (l : Lexer) (n : Nat) : (l.pull n).1 = (List.range n).map l.result := by
  induction n with
  | zero => rfl
  | succ n ih =>
    rw [pull_succ, List.range_succ, List.map_append, ih]
    rfl

theorem mem_pull_iff {l : Lexer} {n : Nat} {x : Except Error Token} :
    x ∈ (l.pull n).1 ↔ ∃ k < n, l.result k = x := by
  rw [pull_eq_map, List.mem_map]
  simp only [List.mem_range]

theorem result_of_pull {l : Lexer} {ts : List Token} (h : (l.pull ts.length).1 = ts.map Except.ok)
    {k : Nat} (hk : k < ts.length) : l.result k = .ok ts[k] := by
  have hget := congrArg (·[k]?) h
  simp only [pull_eq_map, List.getElem?_map, List.getElem?_range hk, List.getElem?_eq_getElem hk,
    Option.map_some] at hget
  exact Option.some.inj hget

/-- what the `k`-th pull does: blanks are passed over, as many as there are; then the end is
reached for good, or a slice is taken and the result is its piece -/
structure Tile (l : Lexer) (k : Nat) : Prop where
  cursor_le : (l.after k).cursor ≤ l.start k
  start_le : l.start k ≤ l.stop k
  stop_le : l.stop k ≤ l.source.length
  blanks : ∀ i, (l.after k).cursor ≤ i → i < l.start k →
    ∀ c ∈ l.source[i]?, l.rules.grammar.isWhitespace c = true
  maximal : ∀ c ∈ l.source[l.start k]?, l.rules.grammar.isWhitespace c = false
  ending : l.start k = l.source.length → ∀ j, k ≤ j → l.stop j = l.source.length ∧
    ∃ t, l.result j = .ok t ∧ t.kind = Kind.ending ∧ t.lexeme = [] ∧
      t.position.toNat = l.source.length
  piece : l.start k < l.source.length → l.start k < l.stop k ∧
    (position (l.result k)).toNat = l.start k ∧
    l.rules.Piece (l.slice k) (l.source.drop (l.stop k)) (content (l.result k))

theorem piece_step {l : Lexer} {k : Nat} (h : l.start k < l.source.length) :
    l.start k < l.stop k ∧ l.stop k ≤ l.source.length ∧
      position (l.result k) = UInt32.ofNat (l.start k) ∧
      l.rules.Piece (l.slice k) (l.source.drop (l.stop k)) (content (l.result k)) := by
  have hlt : (l.after k).startOfNext < (l.after k).source.length := by
    rw [after_source]
    exact h
  obtain ⟨part, rest, r, hdrop, hpiece, hn⟩ := (l.after k).next_piece hlt
  rw [after_source] at hdrop
  rw [after_rules] at hpiece
  have hpos : 0 < part.length := List.length_pos_iff.mpr hpiece.ne_nil
  have hstop : l.stop k = l.start k + part.length := by
    unfold stop
    rw [after_succ, hn]
    rfl
  have hdrop' : l.source.drop (l.start k) = part ++ rest := hdrop
  have hslice : l.slice k = part := by
    unfold slice
    rw [hstop, Nat.add_sub_cancel_left, hdrop', List.take_left]
  have hrest : l.source.drop (l.stop k) = rest := by
    rw [hstop, ← List.drop_drop, hdrop', List.drop_left]
  have hres : l.result k = placed (l.start k) r := by
    unfold result
    rw [hn]
    rfl
  have hlen := congrArg List.length hdrop'
  rw [List.length_drop, List.length_append] at hlen
  refine ⟨by omega, by omega, ?_, ?_⟩
  · rw [hres, position_placed]
  · rw [hslice, hrest, hres, content_placed]
    exact hpiece

section
variable {l : Lexer} (h₀ : l.cursor ≤ l.source.length)
include h₀

theorem start_le_length (k : Nat) : l.start k ≤ l.source.length := by
  have h := startOfNext_le (l.after k)
  rw [after_source] at h
  exact h (l.after_cursor_le h₀ k)

theorem ended_step {k : Nat} (h : l.start k = l.source.length) :
    l.result k = .ok (endingAt l.source.length) ∧ l.stop k = l.source.length ∧
      l.start (k + 1) = l.source.length := by
  have hcur : (l.after k).cursor ≤ (l.after k).source.length := by
    rw [after_source]
    exact l.after_cursor_le h₀ k
  have hstop : l.stop k = (l.after k).next.2.cursor := by
    unfold stop
    rw [after_succ]
  have hlater : l.stop k ≤ l.start (k + 1) := Nat.le_add_right _ _
  have hle := start_le_length h₀ (k + 1)
  rcases (l.after k).next_cases hcur with ⟨-, hn⟩ | ⟨c, cs, stop, -, hlt, hstop, -⟩
  · rw [after_source] at hn
    rw [hn] at hstop
    dsimp only at hstop
    refine ⟨?_, hstop, by omega⟩
    unfold result
    rw [hn]
  · have hs : (l.after k).startOfNext = l.source.length := h
    rw [after_source] at hstop
    omega

theorem ended {k : Nat} (h : l.start k = l.source.length) (j : Nat) (hj : k ≤ j) :
    l.start j = l.source.length := by
  induction hj with
  | refl => exact h
  | step _ ih => exact (ended_step h₀ ih).2.2

theorem tile (hlen : l.source.length < 2 ^ 32) (k : Nat) : l.Tile k := by
  have htoNat (n : Nat) (hn : n ≤ l.source.length) : (UInt32.ofNat n).toNat = n :=
    UInt32.toNat_ofNat_of_lt' (Nat.lt_of_le_of_lt hn hlen)
  have hle := start_le_length h₀ k
  have hcases : l.start k = l.source.length ∨ l.start k < l.source.length := by omega
  refine ⟨Nat.le_add_right _ _, ?_, ?_, ?_, ?_, ?_, ?_⟩
  · rcases hcases with h | h
    · rw [(ended_step h₀ h).2.1]
      exact hle
    · exact Nat.le_of_lt (piece_step h).1
  · exact l.after_cursor_le h₀ (k + 1)
  · intro i hlo hhi c hc
    rw [← after_rules l k]
    refine isWhitespace_of_blank (l.after k) ?_ hlo hhi
    rw [after_source]
    exact hc
  · intro c hc
    have hstops := (l.after k).not_whitespace_startOfNext
    rw [after_rules, after_source] at hstops
    refine hstops c ?_
    rw [List.head?_drop]
    exact hc
  · intro h j hj
    obtain ⟨hres, hstop, -⟩ := ended_step h₀ (ended h₀ h j hj)
    exact ⟨hstop, _, hres, rfl, rfl, htoNat _ (Nat.le_refl _)⟩
  · intro h
    obtain ⟨hlt, -, hpos, hpiece⟩ := piece_step h
    refine ⟨hlt, ?_, hpiece⟩
    rw [hpos]
    exact htoNat _ hle

theorem stop_le_start (hlen : l.source.length < 2 ^ 32) {j k : Nat} (h : j < k) :
    l.stop j ≤ l.start k := by
  induction h with
  | refl => exact Nat.le_add_right _ _
  | @step k _ ih =>
    exact Nat.le_trans ih (Nat.le_trans (tile h₀ hlen k).start_le (Nat.le_add_right _ _))

/-- every pull before the end moves the cursor, so there are no more than characters -/
theorem exists_ended : ∃ n ≤ l.source.length, l.start n = l.source.length := by
  refine Classical.byContradiction fun hno => ?_
  have hall (n : Nat) (hn : n ≤ l.source.length) : l.start n < l.source.length :=
    Nat.lt_of_le_of_ne (start_le_length h₀ n) fun h => hno ⟨n, hn, h⟩
  have hmoved (n : Nat) (hn : n ≤ l.source.length + 1) : n ≤ (l.after n).cursor := by
    induction n with
    | zero => exact Nat.zero_le _
    | succ n ih =>
      have hprev := ih (by omega)
      have hstart : (l.after n).cursor ≤ l.start n := Nat.le_add_right _ _
      have hlt : l.start n < (l.after (n + 1)).cursor := (piece_step (hall n (by omega))).1
      omega
  have h := hmoved (l.source.length + 1) (Nat.le_refl _)
  have h' := l.after_cursor_le h₀ (l.source.length + 1)
  omega

end

end Lexer

/-- **Lexing tiles the source.**  For any grammar with a kind of names, either mode, any part of any
text and any number of pulls, the cursor stays within the source.  Each pull passes over all blanks
and then finds the end, for good, or takes a slice that its result stands at the start of and tells
the piece of.  Slices come in order with blanks alone between them, and one pull more than there are
characters reaches the end. -/
theorem lexing_tiles (g : Grammar) (mode : Mode) (config : Config) (text : List Char) (l : Lexer)
    (hl : Lexer.new g mode config text = .ok l) (hlen : l.source.length < 2 ^ 32) :
    l.cursor = 0 ∧
    (∀ n, (l.pull n).1 = (List.range n).map l.result ∧ (l.pull n).2.cursor ≤ l.source.length) ∧
    (∀ k, l.Tile k) ∧ (∀ j k, j < k → l.stop j ≤ l.start k) ∧
    ∃ n ≤ l.source.length, l.start n = l.source.length := by
  obtain ⟨h₀, -⟩ := Lexer.new_eq_ok hl
  have hcur : l.cursor ≤ l.source.length := by omega
  exact ⟨h₀, fun n => ⟨l.pull_eq_map n, l.after_cursor_le hcur n⟩, Lexer.tile hcur hlen,
    fun j k => Lexer.stop_le_start hcur hlen, Lexer.exists_ended hcur⟩

/-- a name, a numeral with a signed exponent, an arrow and a character of no class -/
def mixedLexer : Lexer := Mode.scientific.lexer " a1.5E+2->$ ".toList

theorem mixedLexer_tiles :
    Lexer.new Mode.scientific.language .scientific Config.whole " a1.5E+2->$ ".toList
      = .ok mixedLexer ∧
    mixedLexer.source.length < 2 ^ 32 ∧ (∀ k, mixedLexer.Tile k) ∧
    (List.range 5).map mixedLexer.slice
      = ["a".toList, "1.5E+2".toList, "->".toList, "$".toList, []] ∧
    (mixedLexer.pull 5).1.map (fun r => (Lexer.content r).toOption)
      = [some (Kind.word, "a".toList), some (Kind.word, "1.5e+2".toList),
        some (⟨"->".toList, .infix4⟩, "->".toList), none, some (Kind.ending, [])] := by
  have hl := Mode.scientific.lexer_eq " a1.5E+2->$ ".toList
  have hlen : mixedLexer.source.length < 2 ^ 32 := by decide
  exact ⟨hl, hlen, (lexing_tiles _ _ _ _ _ hl hlen).2.2.1, by decide +kernel, by decide +kernel⟩

end Calculator
