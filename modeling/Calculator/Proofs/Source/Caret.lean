import Calculator.Proofs.Source.Lines
import Calculator.Source.Excerpt
import Mathlib.Data.Nat.Digits.Defs

/-!
# The caret stands below its character

An error that is shown against its source ends with three lines: a bar, the line of the error behind
its number and a bar, and a bar with dashes up to a caret.  The spaces in front of the line are not
shown, and there are as many dashes less.  Blanks behind it are not shown either, so a character
that is not blank is always there, and the caret stands below it.

* `Source.lines_append_newline`   lines before a newline and lines behind it;
* `Excerpt.row`, `Excerpt.pointer`   the last two lines;
* `Excerpt.Stripped`        a line without the spaces in front of it and the blanks behind it;
* `Excerpt.Stripped.column` a character that is not blank is not cut off;
* `Excerpt.Aligned`         bars below each other, and one caret below a character;
* `caret_below_character`   **the caret of an error stands below the character at its position.**
-/

namespace Calculator

namespace Source

theorem IsLine.newline_last {text before row behind : List Char}
    (h : IsLine text before row behind) : '\n' ∉ row.dropLast := by
  rcases h.ends with ⟨body, hbody, rfl⟩ | ⟨hrow, -⟩
  · rw [List.dropLast_concat]
    exact hbody
  · intro hmem
    exact hrow (List.dropLast_subset row hmem)

theorem lines_append_newline (text rest : List Char) :
    lines (text ++ '\n' :: rest) = lines (text ++ ['\n']) ++ lines rest := by
  induction text with
  | nil => rfl
  | cons c cs ih =>
    rw [List.cons_append, List.cons_append, lines, lines, ih]
    by_cases hc : c = '\n'
    · rw [if_pos hc, if_pos hc]
      rfl
    · have hne : lines (cs ++ ['\n']) ≠ [] := lines_ne_nil (by simp)
      obtain ⟨l, ls, hls⟩ := List.exists_cons_of_ne_nil hne
      rw [if_neg hc, if_neg hc, hls]
      rfl

end Source

namespace Excerpt

/-! ## a line without its ends -/

/-- a row is some spaces, a text that starts with none and does not end with a blank, and blanks -/
structure Stripped (row spaces text blanks : List Char) : Prop where
  split : row = spaces ++ text ++ blanks
  spaces : ∀ c ∈ spaces, c = ' '
  blanks : ∀ c ∈ blanks, Text.isBlank c = true
  starts : ∀ c ∈ text.head?, c ≠ ' '
  ends : ∀ c ∈ text.getLast?, Text.isBlank c = false

theorem trimEnd_eq (text : List Char) : trimEnd text = text.rdropWhile Text.isBlank := rfl

theorem stripped (row : List Char) :
    Stripped row (row.takeWhile (· == ' ')) (trimEnd (row.dropWhile (· == ' ')))
      ((row.dropWhile (· == ' ')).rtakeWhile Text.isBlank) where
  split := by
    rw [trimEnd_eq, List.append_assoc, List.rdropWhile_append_rtakeWhile,
      List.takeWhile_append_dropWhile]
  spaces c hc := by
    have hall := List.all_eq_true.mp (List.all_takeWhile (p := (· == ' ')) (l := row)) c hc
    exact eq_of_beq hall
  blanks c hc := List.mem_rtakeWhile_imp hc
  starts c hc := by
    have hhead := List.head?_dropWhile_not (· == ' ') row
    obtain ⟨behind, hbehind⟩ := List.rdropWhile_prefix Text.isBlank (row.dropWhile (· == ' '))
    rw [← hbehind, ← trimEnd_eq, List.head?_append, Option.mem_def.mp hc, Option.some_or] at hhead
    exact ne_of_beq_false hhead
  ends c hc := by
    rw [trimEnd_eq] at hc
    obtain ⟨hne, rfl⟩ := List.mem_getLast?_eq_getLast hc
    exact Bool.eq_false_iff.mpr (List.rdropWhile_last_not Text.isBlank _ hne)

namespace Stripped

variable {row spaces text blanks : List Char} (h : Stripped row spaces text blanks)
include h

theorem column {column : Nat} {c : Char} (hc : row[column]? = some c)
    (hblank : Text.isBlank c = false) :
    spaces.length ≤ column ∧ text[column - spaces.length]? = some c := by
  have hspace : c ≠ ' ' := by
    rintro rfl
    cases hblank
  have hle : spaces.length ≤ column := by
    refine Nat.le_of_not_lt fun hlt => hspace ?_
    rw [h.split, List.append_assoc, List.getElem?_append_left hlt] at hc
    exact h.spaces c (List.mem_of_getElem? hc)
  refine ⟨hle, ?_⟩
  rw [h.split, List.append_assoc, List.getElem?_append_right hle] at hc
  by_cases htext : column - spaces.length < text.length
  · rwa [List.getElem?_append_left htext] at hc
  · rw [List.getElem?_append_right (Nat.le_of_not_lt htext)] at hc
    have hb := h.blanks c (List.mem_of_getElem? hc)
    rw [hblank] at hb
    cases hb

theorem no_newline (hrow : '\n' ∉ row.dropLast) : '\n' ∉ text := by
  intro hmem
  by_cases hnil : blanks = []
  · -- nothing stands behind the text, which does not end with a newline
    have hne : text ≠ [] := List.ne_nil_of_mem hmem
    have hlast : text.getLast hne ≠ '\n' := by
      intro heq
      have hblank := h.ends _ (List.getLast?_eq_some_getLast hne)
      rw [heq] at hblank
      cases hblank
    rw [← List.dropLast_concat_getLast hne, List.mem_append, List.mem_singleton] at hmem
    apply hrow
    rw [h.split, hnil, List.append_nil, List.dropLast_append_of_ne_nil hne]
    exact List.mem_append_right _ (hmem.resolve_right fun heq => hlast heq.symm)
  · apply hrow
    rw [h.split, List.dropLast_append_of_ne_nil hnil]
    exact List.mem_append_left _ (List.mem_append_right _ hmem)

end Stripped

/-! ## bars and the caret -/

variable (x : Excerpt)

/-- the line of the error, behind its number and a bar -/
def row : List Char := x.number ++ [' ', '|', ' '] ++ x.text

/-- the dashes and the caret, behind a bar -/
def pointer : List Char := x.gutter ++ [' '] ++ List.replicate x.dashes '-' ++ ['^']

theorem lines_eq : x.lines = [x.heading, x.gutter, x.row, x.pointer] := rfl

/-- bars that stand below each other, and one caret, below a character -/
structure Aligned (bar shown under : List Char) (column : Nat) (c : Char) : Prop where
  bar_shown : bar.idxOf '|' = shown.idxOf '|'
  shown_under : shown.idxOf '|' = under.idxOf '|'
  character : shown[column]? = some c
  caret : under[column]? = some '^'
  single : under.count '^' = 1

theorem length_gutter : x.gutter.length = x.number.length + 2 := by
  simp [gutter]

theorem idxOf_gutter : x.gutter.idxOf '|' = x.number.length + 1 := by
  rw [gutter, List.idxOf_append_of_notMem (by simp), List.length_replicate]
  rfl

theorem idxOf_row (h : '|' ∉ x.number) : x.row.idxOf '|' = x.number.length + 1 := by
  rw [row, List.append_assoc, List.idxOf_append_of_notMem h]
  rfl

theorem idxOf_pointer : x.pointer.idxOf '|' = x.number.length + 1 := by
  have hbar : '|' ∈ x.gutter := by simp [gutter]
  rw [pointer, List.append_assoc, List.append_assoc, List.idxOf_append_of_mem hbar, idxOf_gutter]

theorem aligned (h : '|' ∉ x.number) {c : Char} (hc : x.text[x.dashes]? = some c) :
    Aligned x.gutter x.row x.pointer (x.number.length + 3 + x.dashes) c where
  bar_shown := by rw [idxOf_gutter, idxOf_row x h]
  shown_under := by rw [idxOf_row x h, idxOf_pointer]
  character := by
    have hlen : (x.number ++ [' ', '|', ' ']).length = x.number.length + 3 := by simp
    rw [row, List.getElem?_append_right (by omega), hlen, Nat.add_sub_cancel_left, hc]
  caret := by
    have hlen : (x.gutter ++ [' '] ++ List.replicate x.dashes '-').length
        = x.number.length + 3 + x.dashes := by
      rw [List.length_append, List.length_append, length_gutter, List.length_replicate]
      rfl
    rw [pointer, ← hlen, List.getElem?_concat_length]
  single := by
    simp [pointer, gutter, List.count_append, List.count_replicate]

/-! ## an error against its source -/

/-- the last three lines of what is shown, when none of them has a newline of its own -/
theorem lines_render (hnumber : '\n' ∉ x.number) (htext : '\n' ∉ x.text) :
    Source.lines x.render = Source.lines (x.heading ++ ['\n']) ++
      [x.gutter ++ ['\n'], x.row ++ ['\n'], x.pointer ++ ['\n']] := by
  have hgutter : '\n' ∉ x.gutter := by simp [gutter]
  have hrow : '\n' ∉ x.row := by simp [row, hnumber, htext]
  have hpointer : '\n' ∉ x.pointer := by simp [pointer, hgutter]
  have hrender : x.render = x.heading ++ '\n' :: (x.gutter ++ '\n' :: (x.row ++ '\n' ::
      (x.pointer ++ '\n' :: []))) := by
    simp [render, lines_eq]
  rw [hrender, Source.lines_append_newline, Source.lines_body_newline hgutter,
    Source.lines_body_newline hrow, Source.lines_body_newline hpointer]
  rfl

theorem not_mem_toDigits {n : Nat} {c : Char} (h : c.isDigit = false) : c ∉ Nat.toDigits 10 n := by
  intro hmem
  rw [Nat.isDigit_of_mem_toDigits (by decide) (by decide) hmem] at h
  cases h

theorem length_lineNumber_le (source : List Char) (p : Position) :
    (Nat.toDigits 10 (1 + (source.take p.toNat).count '\n')).length ≤ 10 := by
  have hcount : (source.take p.toNat).count '\n' ≤ p.toNat :=
    Nat.le_trans List.count_le_length (List.length_take_le _ _)
  have hword : p.toNat < 2 ^ 32 := p.toNat_lt
  exact Nat.toDigits_length 10 _ 10 (by decide) (by omega)

end Excerpt

/-- **The caret of an error stands below the character at its position.**  Let the character be
there and not blank, in a column below 65535.  What is shown ends with three lines: a bar; the
number of the line, a bar, and the text of the line without the spaces in front of it and the blanks
behind it; a bar, dashes and one caret.  The bars stand below each other, and the caret stands below
that character of the text which the source has at the position.  The width of every padded field is
a number of 16 bits. -/
theorem caret_below_character (e : Error) (source : List Char) (c : Char)
    (hc : source[e.position.toNat]? = some c) (hblank : Text.isBlank c = false)
    (hcolumn : (Source.lineAt source e.position.toNat).column < 65535) :
    ∃ (x : Excerpt) (before line behind spaces blanks : List Char),
      Source.lines (e.render source) =
        Source.lines ((Excerpt.headingOf e.cause).toList ++ ['\n']) ++
          [x.gutter ++ ['\n'], x.row ++ ['\n'], x.pointer ++ ['\n']] ∧
      Source.IsLine source before line behind ∧
      x.number = Nat.toDigits 10 (1 + (source.take e.position.toNat).count '\n') ∧
      Excerpt.Stripped line spaces x.text blanks ∧
      e.position.toNat = before.length + (spaces.length + x.dashes) ∧
      Excerpt.Aligned x.gutter x.row x.pointer (x.number.length + 3 + x.dashes) c ∧
      x.gutter.length < 2 ^ 16 ∧ x.dashes + 1 < 2 ^ 16 := by
  obtain ⟨hlt, -⟩ := List.getElem?_eq_some_iff.mp hc
  obtain ⟨before, line, behind, hline, hle, hin, hplace⟩ := Source.place_inside source 1 _ hlt
  have hget := hline.getElem?_column hle hin
  rw [hc] at hget
  have hstripped := Excerpt.stripped line
  obtain ⟨hspaces, htext⟩ := hstripped.column hget hblank
  unfold Source.lineAt at hcolumn
  rw [hplace] at hcolumn
  change e.position.toNat - before.length < 65535 at hcolumn
  -- the place is put in for the lookup, so that every part of the excerpt can be read off
  unfold Error.render Source.lineAt
  rw [hplace]
  refine ⟨Excerpt.ofPlace e.cause ⟨_, line, e.position.toNat - before.length⟩, before, line, behind,
    line.takeWhile (· == ' '), _, ?_, hline, rfl, hstripped, ?_, ?_, ?_, ?_⟩
  · exact Excerpt.lines_render _ (Excerpt.not_mem_toDigits rfl)
      (hstripped.no_newline hline.newline_last)
  · show e.position.toNat = before.length + ((line.takeWhile (· == ' ')).length +
      (e.position.toNat - before.length - (line.takeWhile (· == ' ')).length))
    omega
  · exact Excerpt.aligned _ (Excerpt.not_mem_toDigits rfl) htext
  · have hdigits := Excerpt.length_lineNumber_le source e.position
    rw [Excerpt.length_gutter]
    exact Nat.lt_of_le_of_lt (Nat.add_le_add_right hdigits 2) (by decide)
  · show e.position.toNat - before.length - (line.takeWhile (· == ' ')).length + 1 < 2 ^ 16
    omega

/-- a character that starts no piece, in the second line of a text and behind three spaces -/
def strayHash : Error := ⟨.unknownToken '#', 13⟩

theorem caret_below_hash :
    strayHash.render "1 + 2\n   3 * # 4 \t\n".toList
      = "Error: UnknownToken\n  |\n2 | 3 * # 4\n  | ----^\n".toList ∧
    ∃ x : Excerpt,
      Source.lines (strayHash.render "1 + 2\n   3 * # 4 \t\n".toList) =
        Source.lines "Error: UnknownToken\n".toList ++
          [x.gutter ++ ['\n'], x.row ++ ['\n'], x.pointer ++ ['\n']] ∧
      Excerpt.Aligned x.gutter x.row x.pointer (x.number.length + 3 + x.dashes) '#' := by
  obtain ⟨x, -, -, -, -, -, hlines, -, -, -, -, haligned, -⟩ :=
    caret_below_character strayHash "1 + 2\n   3 * # 4 \t\n".toList '#' (by decide) (by decide)
      (by decide)
  exact ⟨by decide +kernel, x, hlines, haligned⟩

end Calculator
