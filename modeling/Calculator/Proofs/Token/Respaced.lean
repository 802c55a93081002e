import Calculator.Proofs.Token.Loosened
import Mathlib.Data.List.TakeWhile

/-!
# Blanks between pulls do not matter

Blanks are put into the text of a lexer at the cursors between its pulls, before the first one and
behind the last one too.  Pull after pull a lexer over the new text gives the results of the old
one: it passes over the new blanks with the old ones, and the scan behind them sees the old piece
with blanks behind it.

* `Lexer.next_of_blank`, `Lexer.next_of_scan`   what a pull gives and leaves depends on the text
                              behind the blanks alone;
* `Lexer.respaced l gaps`     the text of a lexer with a gap at the cursor before each pull;
* `Lexer.Spaced`              a lexer over such a text;
* `Lexer.Spaced.next`, `Lexer.Spaced.result`    one pull from both, and all pulls.
-/

namespace Calculator

namespace Lexer

theorem next_of_blank {l : Lexer} (h : l.rest.dropWhile l.rules.grammar.isWhitespace = []) :
    content l.next.1 = .ok (Kind.ending, []) ∧ l.next.2.rest = [] := by
  have hd := l.drop_startOfNext
  rw [h] at hd
  unfold next
  rw [h]
  exact ⟨rfl, hd⟩

theorem next_of_scan {l : Lexer} {c : Char} {cs : List Char}
    (h : l.rest.dropWhile l.rules.grammar.isWhitespace = c :: cs) :
    content l.next.1 = (l.rules.scan c cs).result ∧ l.next.2.rest = (l.rules.scan c cs).rest := by
  have hd := l.drop_startOfNext
  rw [h] at hd
  obtain ⟨slice, hslice, -, hn⟩ := next_scan h
  rw [hn]
  refine ⟨content_placed _ _, ?_⟩
  show l.source.drop (l.startOfNext + slice.length) = _
  rw [← List.drop_drop, hd, hslice]
  exact List.drop_left

theorem cursor_le_next (l : Lexer) : l.cursor ≤ l.next.2.cursor := by
  have hstart : l.cursor ≤ l.startOfNext := Nat.le_add_right _ _
  unfold next
  split
  · exact hstart
  · exact Nat.le_trans hstart (Nat.le_add_right _ _)

theorem take_append_rest (l : Lexer) :
    l.rest.take (l.next.2.cursor - l.cursor) ++ l.next.2.rest = l.rest := by
  have hle := l.cursor_le_next
  have hrest : l.next.2.rest = l.rest.drop (l.next.2.cursor - l.cursor) := by
    unfold rest
    rw [next_source, List.drop_drop, Nat.add_sub_cancel' hle]
  rw [hrest, List.take_append_drop]

/-- the text from the cursor on, with a gap at the cursor before each of the next pulls -/
def respaced (l : Lexer) : List (List Char) → List Char
  | [] => l.rest
  | gap :: gaps =>
    gap ++ (l.rest.take (l.next.2.cursor - l.cursor) ++ l.next.2.respaced gaps)

theorem loosened_respaced (l : Lexer) (gaps : List (List Char))
    (h : ∀ gap ∈ gaps, ∀ w ∈ gap, l.rules.grammar.isWhitespace w = true) :
    Loosened l.rules.grammar.isWhitespace l.rest (l.respaced gaps) := by
  induction gaps generalizing l with
  | nil => exact Loosened.refl _
  | cons gap gaps ih =>
    obtain ⟨hgap, hgaps⟩ := List.forall_mem_cons.mp h
    have hnext := ih l.next.2 (by rw [next_rules]; exact hgaps)
    rw [next_rules] at hnext
    refine Loosened.insert_all hgap ?_
    have happ := hnext.append_left (l.rest.take (l.next.2.cursor - l.cursor))
    rw [take_append_rest] at happ
    exact happ

/-- the second lexer goes by the same rules over the text of the first one with blanks at cursors,
blanks at its own cursor left aside -/
def Spaced (l l' : Lexer) : Prop :=
  l'.rules = l.rules ∧ ∃ gaps : List (List Char),
    (∀ gap ∈ gaps, ∀ w ∈ gap, l.rules.grammar.isWhitespace w = true) ∧
    l'.rest.dropWhile l.rules.grammar.isWhitespace
      = (l.respaced gaps).dropWhile l.rules.grammar.isWhitespace

/-- one pull from each of two such lexers -/
theorem Spaced.next {l l' : Lexer} (hρ : l.rules.BlanksApart) (h : l.Spaced l') :
    content l'.next.1 = content l.next.1 ∧ l.next.2.Spaced l'.next.2 := by
  obtain ⟨hrules, gaps, hgaps, htext⟩ := h
  have hrules' : l'.next.2.rules = l.next.2.rules := by rw [next_rules, next_rules, hrules]
  cases hd : l.rest.dropWhile l.rules.grammar.isWhitespace with
  | nil =>
    -- blanks alone are left, and blanks put in among them change nothing
    have hblank := (l.loosened_respaced gaps hgaps).all_blank (List.dropWhile_eq_nil_iff.mp hd)
    rw [List.dropWhile_eq_nil_iff.mpr hblank, ← hrules] at htext
    obtain ⟨hc, hr⟩ := next_of_blank hd
    obtain ⟨hc', hr'⟩ := next_of_blank htext
    refine ⟨by rw [hc, hc'], hrules', [], List.forall_mem_nil _, ?_⟩
    show l'.next.2.rest.dropWhile _ = l.next.2.rest.dropWhile _
    rw [hr, hr']
  | cons c cs =>
    obtain ⟨hc, hr⟩ := next_of_scan hd
    cases gaps with
    | nil =>
      have htext' : l'.rest.dropWhile l'.rules.grammar.isWhitespace = c :: cs := by
        rw [hrules, htext]
        exact hd
      obtain ⟨hc', hr'⟩ := next_of_scan htext'
      rw [hrules] at hc' hr'
      refine ⟨by rw [hc, hc'], hrules', [], List.forall_mem_nil _, ?_⟩
      show l'.next.2.rest.dropWhile _ = l.next.2.rest.dropWhile _
      rw [hr, hr']
    | cons gap gaps =>
      obtain ⟨hgap, hgaps⟩ := List.forall_mem_cons.mp hgaps
      obtain ⟨part, hpart⟩ := l.rules.scan_rest c cs
      have htake : l.rest.take (l.next.2.cursor - l.cursor)
          = l.rest.takeWhile l.rules.grammar.isWhitespace ++ c :: part := by
        refine List.append_cancel_right (l.take_append_rest.trans ?_)
        rw [hr, List.append_assoc, List.cons_append, hpart, ← hd,
          List.takeWhile_append_dropWhile]
      have hwhite : l.rules.grammar.isWhitespace c = false := by
        have hstops := stops_dropWhile l.rules.grammar.isWhitespace l.rest
        rw [hd] at hstops
        exact hstops c rfl
      have htext' : l'.rest.dropWhile l'.rules.grammar.isWhitespace
          = c :: (part ++ l.next.2.respaced gaps) := by
        rw [hrules, htext, respaced, htake, List.dropWhile_append_of_pos hgap, List.append_assoc,
          List.dropWhile_append_of_pos all_takeWhile, List.cons_append, List.dropWhile_cons, hwhite]
        rfl
      obtain ⟨hc', hr'⟩ := next_of_scan htext'
      -- the scan of the first lexer, before a rest into which blanks were put
      have hl := l.next.2.loosened_respaced gaps (by rw [next_rules]; exact hgaps)
      rw [next_rules, hr] at hl
      have hscan : l.rules.scan c (part ++ (l.rules.scan c cs).rest)
          = ⟨(l.rules.scan c cs).result, (l.rules.scan c cs).rest⟩ := by rw [hpart]
      rw [hrules, Rules.scan_loosened hρ hl hscan] at hc' hr'
      refine ⟨by rw [hc, hc'], hrules', gaps, by rw [next_rules]; exact hgaps, ?_⟩
      rw [hr']

theorem Spaced.result {l l' : Lexer} (hρ : l.rules.BlanksApart) (h : l.Spaced l') (n : Nat) :
    content (l'.result n) = content (l.result n) := by
  induction n generalizing l l' with
  | zero => exact (h.next hρ).1
  | succ n ih =>
    obtain ⟨-, hnext⟩ := h.next hρ
    rw [← next_rules] at hρ
    exact ih hρ hnext

/-- blanks at the cursors of a lexer at its start leave every result as it was -/
theorem result_respaced {l : Lexer} (hρ : l.rules.BlanksApart) (gaps : List (List Char))
    (hgaps : ∀ gap ∈ gaps, ∀ w ∈ gap, l.rules.grammar.isWhitespace w = true) (n : Nat) :
    content ((l.setSource (l.respaced gaps)).result n) = content (l.result n) := by
  have hspaced : l.Spaced (l.setSource (l.respaced gaps)) := ⟨rfl, gaps, hgaps, rfl⟩
  exact hspaced.result hρ n

end Lexer
end Calculator
