import Calculator.Source.Line
import Mathlib.Data.List.DropRight
import Mathlib.Data.Nat.PSub

/-!
# The line of a position is exact

A text is read line by line: a body without a newline, then a newline and the rest, or the end of
the text (`lineByLine`).  Along this reading a position inside the text is found in the one line
that holds it, and a position past the end is put behind the body of the last line.

* `lineByLine`        induction over a text, one line at a time;
* `IsLine`            a slice of a text that is one of its lines;
* `place_inside`      a position inside the text is in its line;
* `place_past`        a position past the end is at the end of the last line;
* `walk`              the lookup with a running start, all of whose subtractions are checked;
* `walk_eq_lineAt`    none of them goes below zero;
* `lineAt_exact`      **the lookup gives the number, the text and the column of a position.**
-/

namespace Calculator.Source

/-! ## one line after the other -/

theorem lines_body {body : List Char} (h : '\n' ∉ body) (hne : body ≠ []) :
    lines body = [body] := by
  induction body with
  | nil => exact absurd rfl hne
  | cons c cs ih =>
    obtain ⟨hc, hcs⟩ := not_or.mp (mt List.mem_cons.mpr h)
    rw [lines, if_neg (Ne.symm hc)]
    by_cases hnil : cs = []
    · subst hnil
      rfl
    · rw [ih hcs hnil]

theorem lines_body_newline {body : List Char} (h : '\n' ∉ body) (rest : List Char) :
    lines (body ++ '\n' :: rest) = (body ++ ['\n']) :: lines rest := by
  induction body with
  | nil => simp [lines]
  | cons c cs ih =>
    obtain ⟨hc, hcs⟩ := not_or.mp (mt List.mem_cons.mpr h)
    rw [List.cons_append, lines, if_neg (Ne.symm hc), ih hcs]
    rfl

theorem lines_ne_nil {text : List Char} (h : text ≠ []) : lines text ≠ [] := by
  intro hnil
  apply h
  rw [← lines_flatten text, hnil, List.flatten_nil]

/-- induction over a text, one line at a time -/
theorem lineByLine {P : List Char → Prop} (empty : P [])
    (last : ∀ body, '\n' ∉ body → body ≠ [] → P body)
    (more : ∀ body rest, '\n' ∉ body → P rest → P (body ++ '\n' :: rest)) :
    ∀ text, P text := by
  intro text
  by_cases hn : '\n' ∈ text
  · obtain ⟨body, rest, htext, hbody⟩ := List.eq_append_cons_of_mem hn
    have hshort : rest.length < text.length := by
      rw [htext, List.length_append, List.length_cons]
      omega
    rw [htext]
    exact more body rest hbody (lineByLine empty last more rest)
  · by_cases hnil : text = []
    · rw [hnil]
      exact empty
    · exact last text hn hnil
termination_by text => text.length

/-! ## the lines of a text -/

/-- `line` is a line of the text: it starts with the text or behind a newline, and it ends with the
next newline, which belongs to it, or with the text -/
structure IsLine (text before line behind : List Char) : Prop where
  split : text = before ++ line ++ behind
  starts : before = [] ∨ ∃ init, before = init ++ ['\n']
  ends : (∃ body, '\n' ∉ body ∧ line = body ++ ['\n']) ∨ ('\n' ∉ line ∧ behind = [])

namespace IsLine

theorem first {body : List Char} (h : '\n' ∉ body) (rest : List Char) :
    IsLine (body ++ '\n' :: rest) [] (body ++ ['\n']) rest where
  split := by simp
  starts := .inl rfl
  ends := .inl ⟨body, h, rfl⟩

theorem only {body : List Char} (h : '\n' ∉ body) : IsLine body [] body [] where
  split := by simp
  starts := .inl rfl
  ends := .inr ⟨h, rfl⟩

theorem later {body rest before line behind : List Char} (h : IsLine rest before line behind) :
    IsLine (body ++ '\n' :: rest) (body ++ '\n' :: before) line behind where
  split := by
    rw [h.split]
    simp
  starts := by
    right
    obtain rfl | ⟨init, rfl⟩ := h.starts
    · exact ⟨body, rfl⟩
    · exact ⟨body ++ '\n' :: init, by simp⟩
  ends := h.ends

/-- a column of the line is a position of the text -/
theorem getElem?_column {text before row behind : List Char} (h : IsLine text before row behind)
    {p : Nat} (hle : before.length ≤ p) (hlt : p < before.length + row.length) :
    row[p - before.length]? = text[p]? := by
  rw [h.split, List.append_assoc, List.getElem?_append_right hle,
    List.getElem?_append_left (by omega)]

end IsLine

/-! ## a position in its line -/

theorem place_here {number p : Nat} {l : List Char} (ls : List (List Char)) (h : p < l.length) :
    place number p (l :: ls) = ⟨number, l, p⟩ := by
  cases ls with
  | nil => rw [place, if_pos h]
  | cons m ms => rw [place, if_pos h]

theorem place_further {number p : Nat} {l : List Char} {ls : List (List Char)} (hls : ls ≠ [])
    (h : l.length ≤ p) : place number p (l :: ls) = place (number + 1) (p - l.length) ls := by
  obtain ⟨m, ms, rfl⟩ := List.exists_cons_of_ne_nil hls
  rw [place, if_neg (by omega)]

theorem count_line {body : List Char} (h : '\n' ∉ body) (cs : List Char) :
    (body ++ '\n' :: cs).count '\n' = cs.count '\n' + 1 := by
  rw [List.count_append, List.count_eq_zero.mpr h, List.count_cons_self]
  omega

theorem count_take_body {body : List Char} (h : '\n' ∉ body) {p : Nat} (hp : p ≤ body.length)
    (cs : List Char) : ((body ++ cs).take p).count '\n' = 0 := by
  rw [List.take_append_of_le_length hp]
  exact List.count_eq_zero.mpr fun hmem => h (List.mem_of_mem_take hmem)

theorem place_inside (text : List Char) : ∀ (number p : Nat), p < text.length →
    ∃ before line behind, IsLine text before line behind ∧
      before.length ≤ p ∧ p < before.length + line.length ∧
      place number p (lines text) =
        ⟨number + (text.take p).count '\n', line, p - before.length⟩ := by
  induction text using lineByLine with
  | empty =>
    intro number p hp
    exact absurd hp (Nat.not_lt_zero p)
  | last body hbody hne =>
    intro number p hp
    refine ⟨[], body, [], .only hbody, Nat.zero_le p, by simpa using hp, ?_⟩
    have hcount := count_take_body hbody (Nat.le_of_lt hp) []
    rw [List.append_nil] at hcount
    rw [lines_body hbody hne, place_here [] hp, hcount]
    rfl
  | more body rest hbody ih =>
    intro number p hp
    have hlen : (body ++ ['\n']).length = body.length + 1 := by simp
    rw [lines_body_newline hbody]
    by_cases hin : p < body.length + 1
    · refine ⟨[], body ++ ['\n'], rest, .first hbody rest, Nat.zero_le p, by simpa using hin, ?_⟩
      rw [place_here _ (by omega), count_take_body hbody (by omega)]
      rfl
    · -- the position is in a later line: there it is looked up counted from the rest
      have hrest : p - (body.length + 1) < rest.length := by
        simp only [List.length_append, List.length_cons] at hp
        omega
      have hne : rest ≠ [] := by
        intro hnil
        simp [hnil] at hrest
      obtain ⟨before, line, behind, hline, hle, hlt, hplace⟩ :=
        ih (number + 1) (p - (body.length + 1)) hrest
      have hbefore : (body ++ '\n' :: before).length = body.length + 1 + before.length := by
        simp only [List.length_append, List.length_cons]
        omega
      have htake : (body ++ '\n' :: rest).take p =
          body ++ '\n' :: rest.take (p - (body.length + 1)) := by
        obtain ⟨q, rfl⟩ : ∃ q, p = body.length + (q + 1) := ⟨p - (body.length + 1), by omega⟩
        rw [List.take_length_add_append, List.take_succ_cons]
        congr 3
        omega
      refine ⟨_, line, behind, hline.later, by omega, by omega, ?_⟩
      rw [place_further (lines_ne_nil hne) (by omega), hlen, hplace, htake, count_line hbody,
        hbefore]
      congr 1 <;> omega

theorem length_takeWhile_line {body line : List Char} (h : '\n' ∉ body)
    (hline : line = body ∨ line = body ++ ['\n']) :
    (line.takeWhile (· ≠ '\n')).length = body.length := by
  have hall : ∀ c ∈ body, decide (c ≠ '\n') = true := by
    intro c hc
    exact decide_eq_true fun heq => h (heq ▸ hc)
  obtain rfl | rfl := hline
  · rw [List.takeWhile_eq_self_iff.mpr hall]
  · rw [List.takeWhile_append_of_pos hall]
    simp

theorem place_past (text : List Char) : ∀ (number p : Nat), text.length ≤ p →
    ∃ before line body, IsLine text before line [] ∧ (line = [] ↔ text = []) ∧
      '\n' ∉ body ∧ (line = body ∨ line = body ++ ['\n']) ∧
      place number p (lines text) = ⟨number + before.count '\n', line, body.length⟩ := by
  induction text using lineByLine with
  | empty =>
    intro number p _
    exact ⟨[], [], [], .only (by simp), Iff.rfl, by simp, .inl rfl, rfl⟩
  | last body hbody hne =>
    intro number p hp
    refine ⟨[], body, body, .only hbody, Iff.rfl, hbody, .inl rfl, ?_⟩
    rw [lines_body hbody hne, place, if_neg (by omega), length_takeWhile_line hbody (.inl rfl)]
    rfl
  | more body rest hbody ih =>
    intro number p hp
    have hlen : (body ++ ['\n']).length = body.length + 1 := by simp
    simp only [List.length_append, List.length_cons] at hp
    rw [lines_body_newline hbody]
    by_cases hnil : rest = []
    · subst hnil
      refine ⟨[], body ++ ['\n'], body, .first hbody [], by simp, hbody, .inr rfl, ?_⟩
      rw [lines, place, if_neg (by omega), length_takeWhile_line hbody (.inr rfl)]
      rfl
    · obtain ⟨before, line, last, hline, hempty, hlast, hshape, hplace⟩ :=
        ih (number + 1) (p - (body.length + 1)) (by omega)
      refine ⟨_, line, last, hline.later, ?_, hlast, hshape, ?_⟩
      · simp [hempty, hnil]
      · rw [place_further (lines_ne_nil hnil) (by omega), hlen, hplace, count_line hbody]
        congr 1
        omega

/-! ## the running start never passes the position -/

/-- the lookup as a loop over the lines that keeps the start of the line: the column is computed
from it at every line, found or not, by a subtraction that has no result below zero; behind the last
line the column is the length of that line without newlines at its end -/
def walk (position : Nat) : Nat → Nat → Place → List (List Char) → Option Place
  | _, _, last, [] => some { last with column := (last.line.rdropWhile (· == '\n')).length }
  | start, number, _, l :: ls =>
    (position.psub start).bind fun column =>
      if position < start + l.length then some ⟨number, l, column⟩
      else walk position (start + l.length) (number + 1) ⟨number, l, column⟩ ls

theorem rdropWhile_line {body line : List Char} (h : '\n' ∉ body)
    (hline : line = body ∨ line = body ++ ['\n']) :
    line.rdropWhile (· == '\n') = body := by
  have hbody : body.rdropWhile (· == '\n') = body := by
    rw [List.rdropWhile_eq_self_iff]
    intro hne hlast
    exact h (beq_iff_eq.mp hlast ▸ List.getLast_mem hne)
  obtain rfl | rfl := hline
  · exact hbody
  · rw [List.rdropWhile_concat_pos _ _ _ (by simp), hbody]

theorem walk_line {position start : Nat} (h : start ≤ position) (number : Nat) (last : Place)
    (l : List Char) (ls : List (List Char)) :
    walk position start number last (l :: ls) =
      if position < start + l.length then some ⟨number, l, position - start⟩
      else walk position (start + l.length) (number + 1) ⟨number, l, position - start⟩ ls := by
  rw [walk, Nat.psub_eq_sub h]
  rfl

/-- the loop from a start that has not passed the position: it looks the position up, counted from
the start, and the start of the next line has not passed it either -/
theorem walk_lines (text : List Char) (hne : text ≠ []) (position : Nat) :
    ∀ (start number : Nat) (last : Place), start ≤ position →
      walk position start number last (lines text) =
        some (place number (position - start) (lines text)) := by
  induction text using lineByLine with
  | empty => exact absurd rfl hne
  | last body hbody hne =>
    intro start number last hstart
    rw [lines_body hbody hne, walk_line hstart, place]
    by_cases hin : position < start + body.length
    · rw [if_pos hin, if_pos (by omega)]
    · rw [if_neg hin, if_neg (by omega), walk, rdropWhile_line hbody (.inl rfl),
        length_takeWhile_line hbody (.inl rfl)]
  | more body rest hbody ih =>
    intro start number last hstart
    have hlen : (body ++ ['\n']).length = body.length + 1 := by simp
    rw [lines_body_newline hbody, walk_line hstart]
    by_cases hin : position < start + (body ++ ['\n']).length
    · rw [if_pos hin, place_here _ (by omega)]
    · rw [if_neg hin]
      by_cases hnil : rest = []
      · subst hnil
        rw [lines, walk, place, if_neg (by omega), rdropWhile_line hbody (.inr rfl),
          length_takeWhile_line hbody (.inr rfl)]
      · rw [ih hnil _ _ _ (by omega), place_further (lines_ne_nil hnil) (by omega),
          Nat.sub_add_eq]

theorem walk_eq_lineAt (text : List Char) (position : Nat) :
    walk position 0 1 ⟨1, [], 0⟩ (lines text) = some (lineAt text position) := by
  by_cases hnil : text = []
  · subst hnil
    rfl
  · exact walk_lines text hnil position 0 1 ⟨1, [], 0⟩ (Nat.zero_le position)

/-! ## the lookup -/

/-- **The line of a position is exact.**  The loop never subtracts below zero.  A position inside
the text is given with the line that holds it: its number is one more than the newlines before the
position, and the character at the column is the one at the position.  Any other position is given
with the last line, at the end of its body; the empty text has one line, the empty one. -/
theorem lineAt_exact (text : List Char) (p : Nat) :
    walk p 0 1 ⟨1, [], 0⟩ (lines text) = some (lineAt text p) ∧
    (p < text.length → ∃ before row behind, IsLine text before row behind ∧
      before.length ≤ p ∧ p < before.length + row.length ∧
      lineAt text p = ⟨1 + (text.take p).count '\n', row, p - before.length⟩ ∧
      row[p - before.length]? = text[p]?) ∧
    (text.length ≤ p → ∃ before row body, IsLine text before row [] ∧
      (row = [] ↔ text = []) ∧ '\n' ∉ body ∧ (row = body ∨ row = body ++ ['\n']) ∧
      lineAt text p = ⟨1 + before.count '\n', row, body.length⟩) := by
  refine ⟨walk_eq_lineAt text p, ?_, place_past text 1 p⟩
  intro hp
  obtain ⟨before, row, behind, hline, hle, hlt, hplace⟩ := place_inside text 1 p hp
  exact ⟨before, row, behind, hline, hle, hlt, hplace, hline.getElem?_column hle hlt⟩

/-- a position in the second line, and one past a text that ends with a newline -/
theorem lineAt_exact_second :
    (∃ before line behind, IsLine "1 + 2\n3 * (4\n".toList before line behind ∧
      lineAt "1 + 2\n3 * (4\n".toList 10 = ⟨2, line, 10 - before.length⟩) ∧
    (∃ before line, IsLine "1 + 2\n3 * (4\n".toList before line [] ∧
      lineAt "1 + 2\n3 * (4\n".toList 13 = ⟨2, line, 6⟩) := by
  constructor
  · obtain ⟨before, line, behind, hline, -, -, hplace, -⟩ :=
      (lineAt_exact "1 + 2\n3 * (4\n".toList 10).2.1 (by decide)
    exact ⟨before, line, behind, hline, hplace⟩
  · obtain ⟨before, line, body, hline, -, -, -, hplace⟩ :=
      (lineAt_exact "1 + 2\n3 * (4\n".toList 13).2.2 (by decide)
    refine ⟨before, line, hline, ?_⟩
    have hat : lineAt "1 + 2\n3 * (4\n".toList 13 = ⟨2, "3 * (4\n".toList, 6⟩ := by decide
    rw [hat] at hplace ⊢
    rw [Place.mk.injEq] at hplace ⊢
    exact ⟨rfl, hplace.2.1, rfl⟩

end Calculator.Source
