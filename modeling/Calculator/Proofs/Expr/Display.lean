import Calculator.Proofs.Expr.Binding
import Calculator.Proofs.Expr.Parts
import Calculator.Proofs.Numeral.Literal

/-!
# The bracketed text of an expression can be read back

The text of a node is a bracket, a heading and the texts of its children, each behind a blank.  The
heading is made of words, in which neither blanks nor brackets stand, so a text can be cut from left
to right: a word ends where the first other character stands, a child where its bracket closes, and
the list of children at the bracket of the node.  What is cut off in this way is the same for two
expressions with the same text, and it decides the expression as soon as the heading decides the
token of the node.

* `isWordChar`, `IsWord`    the characters of words, and words;
* `word_cut`                a word and what stands behind it;
* `Label`, `Expr.label`     what a node is called in the text;
* `Label.heading`           what stands between the bracket and the children;
* `Expr.text_node`          the text of a node;
* `Expr.Legible`            the heading is made of words and tells the token;
* `Expr.heading_cut`, `Expr.children_cut`   a heading or children, and what stands behind;
* `Expr.text_cut`           an expression and what stands behind it;
* `Expr.text_eq_iff`        **legible expressions with the same text are the same up to positions.**
-/

namespace Calculator

/-! ## words -/

/-- a character of a word: no blank and no bracket -/
def isWordChar (c : Char) : Bool := c != ' ' && c != '(' && c != ')'

structure IsWord (w : List Char) : Prop where
  ne_nil : w ≠ []
  chars : ∀ c ∈ w, isWordChar c = true

theorem IsWord.of_check {w : List Char} (h : (!w.isEmpty && w.all isWordChar) = true) :
    IsWord w := by
  simp only [Bool.and_eq_true, Bool.not_eq_true', List.isEmpty_eq_false_iff, List.all_eq_true] at h
  exact ⟨h.1, h.2⟩

theorem word_cut {w w' r r' : List Char} (hw : IsWord w) (hw' : IsWord w') (hr : Stops isWordChar r)
    (hr' : Stops isWordChar r') (h : w ++ r = w' ++ r') : w = w' ∧ r = r' := by
  obtain ⟨htake, hdrop⟩ := takeWhile_append_stops hw.chars hr
  obtain ⟨htake', hdrop'⟩ := takeWhile_append_stops hw'.chars hr'
  rw [h] at htake hdrop
  exact ⟨htake.symm.trans htake', hdrop.symm.trans hdrop'⟩

/-! ## headings -/

/-- what a node is called in the text -/
inductive Label where
  | leaf
  | operator
  | suffix
  | group
  | call
  | array
deriving DecidableEq

namespace Label

/-- the first word of a heading -/
def mark (lexeme : List Char) : Label → List Char
  | leaf => lexeme
  | operator => lexeme
  | suffix => "postfix".toList
  | group => "group".toList
  | call => "call".toList
  | array => "array".toList

/-- what follows the first word of a heading -/
def more (lexeme : List Char) : Label → List Char
  | suffix => ' ' :: lexeme
  | _ => []

/-- the heading of a node with a token -/
def heading (lexeme : List Char) (label : Label) : List Char :=
  label.mark lexeme ++ label.more lexeme

theorem heading_leaf (lexeme : List Char) : heading lexeme .leaf = lexeme := List.append_nil lexeme

theorem heading_operator (lexeme : List Char) : heading lexeme .operator = lexeme :=
  List.append_nil lexeme

/-- does the heading show the token -/
def showsToken (label : Label) : Bool := label matches .leaf | .operator | .suffix

/-- the labels that have a word of their own -/
def named : List Label := [suffix, group, call, array]

/-- the label of a node by the first word of its heading -/
def ofMark (w : List Char) : Label := (named.find? fun label => label.mark [] = w).getD .operator

end Label

namespace Expr

def label : Expr → Label
  | name _ => .leaf
  | number _ _ => .leaf
  | prefixed _ _ => .operator
  | binary _ _ _ => .operator
  | suffixed _ _ => .suffix
  | group _ _ => .group
  | call _ _ _ => .call
  | array _ _ => .array

/-- what stands between the bracket and the children -/
def heading (e : Expr) : List Char := e.label.heading e.token.lexeme

/-- the texts of the children, each behind a blank -/
def spaced (xs : List Expr) : List Char := xs.flatMap fun x => ' ' :: x.text

theorem bracketed_cons (w : List Char) (ws : List (List Char)) :
    bracketed (w :: ws) = '(' :: (w ++ (ws.flatMap (' ' :: ·) ++ [')'])) := by
  have hjoin : List.intercalate [' '] (w :: ws) = w ++ ws.flatMap (' ' :: ·) := by
    induction ws generalizing w with
    | nil => simp [List.intercalate]
    | cons v ws ih =>
      rw [List.intercalate_cons_cons, ih]
      simp
  rw [bracketed, hjoin, List.cons_append, List.append_assoc]

theorem bracketed_word (w : List Char) (xs : List Expr) :
    bracketed (w :: xs.map text) = '(' :: ((w ++ []) ++ (spaced xs ++ [')'])) := by
  rw [bracketed_cons, List.flatMap_map, List.append_nil]
  rfl

theorem text_leaf {e : Expr} (h : e.label = .leaf) : e.text = e.token.lexeme := by
  cases e <;> first | rfl | cases h

theorem text_node {e : Expr} (h : e.label ≠ .leaf) :
    e.text = '(' :: (e.heading ++ (spaced e.children ++ [')'])) := by
  cases e with
  | name t => exact absurd rfl h
  | number t v => exact absurd rfl h
  | prefixed t x => exact bracketed_word t.lexeme [x]
  | binary t l r => exact bracketed_word t.lexeme [l, r]
  | suffixed t x =>
    rw [text, bracketed_cons, List.flatMap_cons, List.append_assoc, ← List.append_assoc]
    rfl
  | group t x => exact bracketed_word "group".toList [x]
  | call f t xs =>
    rw [text, texts_eq_map]
    exact bracketed_word "call".toList (f :: xs)
  | array t xs =>
    rw [text, texts_eq_map]
    exact bracketed_word "array".toList xs

/-! ## what decides a node -/

theorem unplacedList_eq_map (xs : List Expr) : unplacedList xs = xs.map unplaced := by
  induction xs with
  | nil => rfl
  | cons x xs ih => rw [unplacedList, ih, List.map_cons]

/-- a node is decided by its label, its token and its children: their number tells an operator
between operands from one in front -/
theorem unplaced_node {e e' : Expr} (hleaf : e.label ≠ .leaf) (hlabel : e.label = e'.label)
    (htoken : e.token.unplaced = e'.token.unplaced)
    (hchildren : e.children.map unplaced = e'.children.map unplaced) :
    e.unplaced = e'.unplaced := by
  cases e <;> cases e' <;>
    simp only [label, ne_eq, not_true_eq_false, reduceCtorEq] at hleaf hlabel <;>
    simp only [token, children, List.map_cons, List.map_nil, List.cons.injEq, and_true, and_false,
      reduceCtorEq] at htoken hchildren <;>
    simp only [unplaced, unplacedList_eq_map, htoken, hchildren]

theorem unplaced_leaf {σ : Setting} {e e' : Expr} (hleaf : e.label = .leaf)
    (hleaf' : e'.label = .leaf) (hb : e.Built σ) (hb' : e'.Built σ)
    (htoken : e.token.unplaced = e'.token.unplaced) : e.unplaced = e'.unplaced := by
  have hlexeme : e.token.unplaced.lexeme = e'.token.unplaced.lexeme := by rw [htoken]
  cases e <;> cases e' <;> simp only [label, reduceCtorEq] at hleaf hleaf'
  case name.name t t' => exact congrArg name htoken
  case name.number t t' v' =>
    have hname := hb.2
    rw [show t.lexeme = t'.lexeme from hlexeme, hb'.2.1] at hname
    cases hname
  case number.name t v t' =>
    have hname := hb'.2
    rw [show t'.lexeme = t.lexeme from hlexeme.symm, hb.2.1] at hname
    cases hname
  case number.number t v t' v' =>
    have hv := hb.2.2
    rw [show t.lexeme = t'.lexeme from hlexeme, hb'.2.2] at hv
    cases hv
    exact congrArg (number · v) htoken

/-! ## legible nodes -/

/-- a heading that shows the token shows a word, an operator is not called by the name of another
label, and label and heading tell the token -/
structure Legible (read : Label → List Char → Option Token) (e : Expr) : Prop where
  word : e.label.showsToken = true → IsWord e.token.lexeme
  apart : e.label = .operator → Label.ofMark e.token.lexeme = .operator
  token : read e.label e.heading = some e.token.unplaced

section
variable {read : Label → List Char → Option Token} {e e' : Expr}

theorem Legible.isWord_mark (h : e.Legible read) : IsWord (e.label.mark e.token.lexeme) := by
  have hword := h.word
  cases hlabel : e.label with
  | leaf => exact hword (by rw [hlabel]; rfl)
  | operator => exact hword (by rw [hlabel]; rfl)
  | suffix => exact .of_check (w := "postfix".toList) (by decide)
  | group => exact .of_check (w := "group".toList) (by decide)
  | call => exact .of_check (w := "call".toList) (by decide)
  | array => exact .of_check (w := "array".toList) (by decide)

theorem Legible.ofMark_mark (h : e.Legible read) (hleaf : e.label ≠ .leaf) :
    Label.ofMark (e.label.mark e.token.lexeme) = e.label := by
  have hapart := h.apart
  cases hlabel : e.label with
  | leaf => exact absurd hlabel hleaf
  | operator => exact hapart hlabel
  | suffix => exact (by decide : Label.ofMark "postfix".toList = .suffix)
  | group => exact (by decide : Label.ofMark "group".toList = .group)
  | call => exact (by decide : Label.ofMark "call".toList = .call)
  | array => exact (by decide : Label.ofMark "array".toList = .array)

theorem Legible.token_eq (h : e.Legible read) (h' : e'.Legible read) (hlabel : e.label = e'.label)
    (hheading : e.heading = e'.heading) : e.token.unplaced = e'.token.unplaced := by
  have hread := h.token
  rw [hlabel, hheading, h'.token] at hread
  exact (Option.some.inj hread).symm

theorem stops_more (label : Label) (lexeme : List Char) {r : List Char} (hr : Stops isWordChar r) :
    Stops isWordChar (label.more lexeme ++ r) := by
  cases label with
  | suffix => exact stops_cons (by decide)
  | leaf | operator | group | call | array => exact hr

theorem heading_cut {r r' : List Char} (hl : e.Legible read) (hl' : e'.Legible read)
    (hleaf : e.label ≠ .leaf) (hleaf' : e'.label ≠ .leaf) (hr : Stops isWordChar r)
    (hr' : Stops isWordChar r') (h : e.heading ++ r = e'.heading ++ r') :
    e.label = e'.label ∧ e.heading = e'.heading ∧ r = r' := by
  have hcut : e.label.mark e.token.lexeme = e'.label.mark e'.token.lexeme ∧
      e.label.more e.token.lexeme ++ r = e'.label.more e'.token.lexeme ++ r' := by
    refine word_cut hl.isWord_mark hl'.isWord_mark (stops_more _ _ hr) (stops_more _ _ hr') ?_
    rw [← List.append_assoc, ← List.append_assoc]
    exact h
  have hlabel : e.label = e'.label := by
    rw [← hl.ofMark_mark hleaf, ← hl'.ofMark_mark hleaf', hcut.1]
  have hmore : e.label.more e.token.lexeme = e'.label.more e'.token.lexeme ∧ r = r' := by
    have hrest := hcut.2
    have hword := hl.word
    have hword' := hl'.word
    rw [← hlabel] at hrest hword' ⊢
    cases hcase : e.label with
    | suffix =>
      rw [hcase] at hrest hword hword'
      obtain ⟨hlexeme, htail⟩ :=
        word_cut (hword rfl) (hword' rfl) hr hr' (List.cons.inj hrest).2
      exact ⟨congrArg (' ' :: ·) hlexeme, htail⟩
    | leaf | operator | group | call | array =>
      rw [hcase] at hrest
      exact ⟨rfl, hrest⟩
  refine ⟨hlabel, ?_, hmore.2⟩
  show e.label.mark _ ++ e.label.more _ = e'.label.mark _ ++ e'.label.more _
  rw [hcut.1, hmore.1]

end

/-! ## whole texts -/

section
variable (σ : Setting) (read : Label → List Char → Option Token)

/-- every node was made by the role of its token, and is legible -/
def Shown (e : Expr) : Prop := ∀ x ∈ e.preorder, x.Built σ ∧ x.Legible read

/-- the text of the expression can be cut off before any character of no word -/
def Cuts (e : Expr) : Prop :=
  ∀ (e' : Expr) (r r' : List Char), e'.Shown σ read → Stops isWordChar r → Stops isWordChar r' →
    e.text ++ r = e'.text ++ r' → e.unplaced = e'.unplaced ∧ r = r'

variable {σ read}

theorem Shown.child {e x : Expr} (h : e.Shown σ read) (hx : x ∈ e.children) : x.Shown σ read := by
  intro y hy
  exact h y (mem_preorder.mpr (.inr ⟨x, hx, hy⟩))

theorem Shown.self {e : Expr} (h : e.Shown σ read) : e.Built σ ∧ e.Legible read :=
  h e (mem_preorder.mpr (.inl rfl))

theorem stops_spaced (xs : List Expr) (r : List Char) :
    Stops isWordChar (spaced xs ++ ')' :: r) := by
  cases xs with
  | nil => exact stops_cons (by decide)
  | cons x xs => exact stops_cons (by decide)

theorem children_cut {xs ys : List Expr} {r r' : List Char} (hxs : ∀ x ∈ xs, x.Cuts σ read)
    (hys : ∀ y ∈ ys, y.Shown σ read) (h : spaced xs ++ ')' :: r = spaced ys ++ ')' :: r') :
    xs.map unplaced = ys.map unplaced ∧ r = r' := by
  induction xs generalizing ys with
  | nil =>
    cases ys with
    | nil => exact ⟨rfl, (List.cons.inj h).2⟩
    | cons y ys => exact absurd (List.cons.inj h).1 (by decide)
  | cons x xs ih =>
    cases ys with
    | nil => exact absurd (List.cons.inj h).1 (by decide)
    | cons y ys =>
      have htexts : x.text ++ (spaced xs ++ ')' :: r) = y.text ++ (spaced ys ++ ')' :: r') := by
        rw [← List.append_assoc, ← List.append_assoc]
        exact (List.cons.inj h).2
      obtain ⟨hfirst, hrest⟩ := hxs x List.mem_cons_self y _ _ (hys y List.mem_cons_self)
        (stops_spaced xs r) (stops_spaced ys r') htexts
      obtain ⟨hothers, htail⟩ := ih (fun z hz => hxs z (List.mem_cons_of_mem x hz))
        (fun z hz => hys z (List.mem_cons_of_mem y hz)) hrest
      exact ⟨by rw [List.map_cons, List.map_cons, hfirst, hothers], htail⟩

theorem word_ne_bracket {w r r' : List Char} (hw : IsWord w) : w ++ r ≠ '(' :: r' := by
  obtain ⟨c, cs, rfl⟩ := List.exists_cons_of_ne_nil hw.ne_nil
  intro h
  have hc := hw.chars c List.mem_cons_self
  rw [(List.cons.inj h).1] at hc
  exact absurd hc (by decide)

/-- the text of an expression ends at its last word or bracket -/
theorem text_cut (e : Expr) (hs : e.Shown σ read) : e.Cuts σ read := by
  induction e using byChildren with
  | step e ih =>
    intro e' r r' hs' hr hr' h
    obtain ⟨hb, hl⟩ := hs.self
    obtain ⟨hb', hl'⟩ := hs'.self
    by_cases hleaf : e.label = .leaf
    · have hword := hl.word (by rw [hleaf]; rfl)
      rw [text_leaf hleaf] at h
      by_cases hleaf' : e'.label = .leaf
      · -- two words: the token is told by the word
        have hword' := hl'.word (by rw [hleaf']; rfl)
        rw [text_leaf hleaf'] at h
        obtain ⟨hlexeme, hrest⟩ := word_cut hword hword' hr hr' h
        have hheading : e.heading = e'.heading := by
          show e.label.heading _ = e'.label.heading _
          rw [hleaf, hleaf', hlexeme]
        have htoken := hl.token_eq hl' (hleaf.trans hleaf'.symm) hheading
        exact ⟨unplaced_leaf hleaf hleaf' hb hb' htoken, hrest⟩
      · rw [text_node hleaf'] at h
        exact absurd h (word_ne_bracket hword)
    · by_cases hleaf' : e'.label = .leaf
      · have hword' := hl'.word (by rw [hleaf']; rfl)
        rw [text_leaf hleaf', text_node hleaf] at h
        exact absurd h.symm (word_ne_bracket hword')
      · -- two nodes: heading after heading, then child after child
        rw [text_node hleaf, text_node hleaf'] at h
        simp only [List.cons_append, List.append_assoc, List.nil_append] at h
        obtain ⟨hlabel, hheading, hrest⟩ := heading_cut hl hl' hleaf hleaf'
          (stops_spaced e.children r) (stops_spaced e'.children r') (List.cons.inj h).2
        have htoken := hl.token_eq hl' hlabel hheading
        obtain ⟨hchildren, htail⟩ := children_cut (fun x hx => ih x hx (hs.child hx))
          (fun y hy => hs'.child hy) hrest
        exact ⟨unplaced_node hleaf hlabel htoken hchildren, htail⟩

theorem text_unplaced (e : Expr) : e.unplaced.text = e.text := by
  induction e using byChildren with
  | step e ih =>
    have hlist : ∀ xs : List Expr, (∀ x ∈ xs, x.unplaced.text = x.text) →
        texts (unplacedList xs) = texts xs := by
      intro xs hxs
      rw [texts_eq_map, texts_eq_map, unplacedList_eq_map, List.map_map]
      exact List.map_congr_left hxs
    cases e with
    | name t => rfl
    | number t v => rfl
    | prefixed t x => rw [unplaced, text, text, ih x (by simp [children])]; rfl
    | binary t l r =>
      rw [unplaced, text, text, ih l (by simp [children]), ih r (by simp [children])]
      rfl
    | suffixed t x => rw [unplaced, text, text, ih x (by simp [children])]; rfl
    | group t x => rw [unplaced, text, text, ih x (by simp [children])]
    | call f t xs =>
      have hxs := hlist xs fun x hx => ih x (List.mem_cons_of_mem f hx)
      rw [unplaced, text, text, ih f (by simp [children]), hxs]
    | array t xs =>
      have hxs := hlist xs fun x hx => ih x hx
      rw [unplaced, text, text, hxs]

/-- **The bracketed text identifies a legible expression**, up to positions. -/
theorem text_eq_iff {e e' : Expr} (hs : e.Shown σ read) (hs' : e'.Shown σ read) :
    e.text = e'.text ↔ e.same e' = true := by
  rw [same_iff]
  constructor
  · intro h
    have hall : e.text ++ [] = e'.text ++ [] := by rw [h]
    exact (text_cut e hs e' [] [] hs' (stops_nil _) (stops_nil _) hall).1
  · intro h
    rw [← text_unplaced e, ← text_unplaced e', h]

end

end Expr
end Calculator
