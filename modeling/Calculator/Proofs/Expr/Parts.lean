import Calculator.Proofs.Expr.InOrder
import Mathlib.Data.List.Basic

/-!
# The parts of an expression in a row of tokens

The expressions below a node stand in the tokens of the node one after the other, with other tokens
before, between and behind them.  This holds of the own tokens of the tree and of every spelling of
it, so what is known about the order of a row is known about the parts in it.

* `Expr.byChildren`           induction over expressions: from the children of a node to the node;
* `Expr.tokens`               the own tokens of an expression in order;
* `Laid rows ts`              the rows stand in the row `ts` one after the other;
* `Expr.laid_tokens`          the children of a node are laid in its own tokens;
* `Expr.Spelled.laid`         and in every spelling of it;
* `Expr.spelled_of_mem`       a spelling of an expression contains a spelling of each of its nodes;
* `Expr.tokens_first`, `Expr.Spelled.first`   both start at the position of the expression;
* `Expr.tokens_sublist`       the own tokens stand in every spelling, in order.
-/

namespace Calculator

namespace Expr

/-! ## from the children to the node -/

theorem sizeOf_child {e x : Expr} (h : x ∈ e.children) : sizeOf x < sizeOf e := by
  cases e with
  | name t => cases h
  | number t v => cases h
  | prefixed t y =>
    rw [List.mem_singleton.mp h, prefixed.sizeOf_spec]
    omega
  | binary t l r =>
    rw [binary.sizeOf_spec]
    rcases List.mem_pair.mp h with rfl | rfl <;> omega
  | suffixed t y =>
    rw [List.mem_singleton.mp h, suffixed.sizeOf_spec]
    omega
  | group t y =>
    rw [List.mem_singleton.mp h, group.sizeOf_spec]
    omega
  | call f t xs =>
    rw [call.sizeOf_spec]
    rcases List.mem_cons.mp h with rfl | h
    · omega
    · have hlt := List.sizeOf_lt_of_mem h
      omega
  | array t xs =>
    have hlt : sizeOf x < sizeOf xs := List.sizeOf_lt_of_mem h
    rw [array.sizeOf_spec]
    omega

/-- induction over expressions: what holds of a node when it holds of its children holds of every
expression -/
theorem byChildren {P : Expr → Prop} (step : ∀ e, (∀ x ∈ e.children, P x) → P e) (e : Expr) : P e :=
  step e fun x hx =>
    have := sizeOf_child hx
    byChildren step x
termination_by sizeOf e

theorem preorders_eq_flatMap (xs : List Expr) : preorders xs = xs.flatMap preorder := by
  induction xs with
  | nil => rfl
  | cons x xs ih => rw [preorders, ih, List.flatMap_cons]

theorem preorder_eq (e : Expr) : e.preorder = e :: e.children.flatMap preorder := by
  cases e <;> simp [preorder, children, preorders_eq_flatMap]

theorem mem_preorder {e x : Expr} : x ∈ e.preorder ↔ x = e ∨ ∃ y ∈ e.children, x ∈ y.preorder := by
  rw [preorder_eq, List.mem_cons, List.mem_flatMap]

end Expr

/-! ## rows in a row -/

/-- the rows stand in the row one after the other, with any tokens before, between and behind -/
inductive Laid : List (List Token) → List Token → Prop where
  | nil (ts : List Token) : Laid [] ts
  | cons (gap us : List Token) {rows : List (List Token)} {ts : List Token} :
      Laid rows ts → Laid (us :: rows) (gap ++ (us ++ ts))

namespace Laid

variable {rows : List (List Token)} {ts : List Token}

theorem behind (h : Laid rows ts) (us : List Token) : Laid rows (us ++ ts) := by
  cases h with
  | nil => exact .nil _
  | cons gap vs h =>
    rw [← List.append_assoc]
    exact .cons (us ++ gap) vs h

theorem before (h : Laid rows ts) (us : List Token) : Laid rows (ts ++ us) := by
  induction h with
  | nil => exact .nil _
  | cons gap vs _ ih =>
    rw [List.append_assoc, List.append_assoc]
    exact .cons gap vs ih

theorem front (h : Laid rows ts) (us : List Token) : Laid (us :: rows) (us ++ ts) := .cons [] us h

theorem alone (us : List Token) : Laid [us] us := by
  have h := (Laid.nil []).front us
  rwa [List.append_nil] at h

theorem infix_of_mem (h : Laid rows ts) {us : List Token} (hus : us ∈ rows) : us <:+: ts := by
  induction h with
  | nil => cases hus
  | cons gap vs _ ih =>
    rcases List.mem_cons.mp hus with rfl | hus
    · exact List.infix_append' gap us _
    · exact (ih hus).trans ((List.suffix_append vs _).trans (List.suffix_append gap _)).isInfix

theorem pairwise {R : Token → Token → Prop} (h : Laid rows ts) (hts : ts.Pairwise R) :
    rows.Pairwise fun us vs => ∀ a ∈ us, ∀ b ∈ vs, R a b := by
  induction h with
  | nil => exact .nil
  | @cons gap us rows ts h ih =>
    have hrest := (List.pairwise_append.mp hts).2.1
    obtain ⟨-, hts, hbefore⟩ := List.pairwise_append.mp hrest
    refine List.pairwise_cons.mpr ⟨?_, ih hts⟩
    intro vs hvs a ha b hb
    exact hbefore a ha b ((h.infix_of_mem hvs).subset hb)

end Laid

namespace Expr

/-! ## own tokens -/

/-- no marks at all -/
def noMarks : Marks Token where
  closing _ := []
  separator := []

/-- the own tokens of an expression, in the order of the source -/
def tokens (e : Expr) : List Token := e.inOrder id noMarks

theorem token_mem_tokens (e : Expr) : e.token ∈ e.tokens := by
  cases e <;> simp [tokens, inOrder, token]

theorem first_append {us : List Token} {p : Position}
    (h : us.head?.map Token.position = some p) (vs : List Token) :
    (us ++ vs).head?.map Token.position = some p := by
  obtain ⟨t, ht, hp⟩ := Option.map_eq_some_iff.mp h
  rw [List.head?_append, ht, ← hp]
  rfl

theorem tokens_first (e : Expr) : e.tokens.head?.map Token.position = some e.position := by
  induction e using position.induct with
  | case4 t l r ih => exact first_append ih _
  | case5 t x ih => exact first_append ih _
  | case7 f t xs ih => exact first_append ih _
  | _ => rfl

theorem laid_more (xs : List Expr) :
    Laid (xs.map tokens) (inOrderMore id noMarks xs) := by
  induction xs with
  | nil => exact .nil _
  | cons x xs ih => exact ih.front x.tokens

theorem laid_items (xs : List Expr) :
    Laid (xs.map tokens) (inOrderItems id noMarks xs) := by
  cases xs with
  | nil => exact .nil _
  | cons x xs => exact (laid_more xs).front x.tokens

theorem laid_tokens (e : Expr) : Laid (e.children.map tokens) e.tokens := by
  cases e with
  | name t => exact .nil _
  | number t v => exact .nil _
  | prefixed t x => exact (Laid.alone x.tokens).behind [t]
  | binary t l r => exact ((Laid.alone r.tokens).behind [t]).front l.tokens
  | suffixed t x => exact (Laid.alone x.tokens).before [t]
  | group t x => exact ((Laid.alone x.tokens).before []).behind [t]
  | call f t xs => exact (((laid_items xs).before []).behind [t]).front f.tokens
  | array t xs => exact ((laid_items xs).before []).behind [t]

theorem tokens_infix (e : Expr) : ∀ x ∈ e.preorder, x.tokens <:+: e.tokens := by
  induction e using byChildren with
  | step e ih =>
    intro x hx
    rcases mem_preorder.mp hx with rfl | ⟨y, hy, hx⟩
    · exact List.infix_refl _
    · have hchild := e.laid_tokens.infix_of_mem (List.mem_map_of_mem hy)
      exact (ih y hy x hx).trans hchild

/-! ## spellings -/

section
variable {g : Grammar}

theorem Spelled.first {e : Expr} {ts : List Token} (h : e.Spelled g ts) :
    ts.head?.map Token.position = some e.position := by
  induction e using position.induct generalizing ts with
  | case1 t =>
    rw [show ts = [t] from h]
    rfl
  | case2 t v =>
    rw [show ts = [t] from h]
    rfl
  | case3 t x =>
    obtain ⟨us, -, rfl⟩ := h
    rfl
  | case4 t l r ih =>
    obtain ⟨us, vs, hl, -, rfl⟩ := h
    exact first_append (ih hl) _
  | case5 t x ih =>
    obtain ⟨us, hx, rfl⟩ := h
    exact first_append (ih hx) _
  | case6 t x =>
    obtain ⟨us, c, -, -, rfl⟩ := h
    rfl
  | case7 f t xs ih =>
    obtain ⟨us, vs, c, hf, -, -, rfl⟩ := h
    exact first_append (ih hf) _
  | case8 t xs =>
    obtain ⟨vs, c, -, -, rfl⟩ := h
    rfl

theorem Spelled.ne_nil {e : Expr} {ts : List Token} (h : e.Spelled g ts) : ts ≠ [] := by
  rintro rfl
  cases h.first

theorem SpelledMore.laid (xs : List Expr) : ∀ {ts : List Token}, SpelledMore g xs ts →
    ∃ rows, List.Forall₂ (Spelled g) xs rows ∧ Laid rows ts := by
  induction xs with
  | nil =>
    intro ts _
    exact ⟨[], .nil, .nil ts⟩
  | cons x xs ih =>
    rintro ts ⟨c, us, vs, -, hx, hxs, rfl⟩
    obtain ⟨rows, hrows, hlaid⟩ := ih hxs
    exact ⟨us :: rows, .cons hx hrows, (hlaid.front us).behind [c]⟩

theorem SpelledItems.laid {xs : List Expr} {ts : List Token} (h : SpelledItems g xs ts) :
    ∃ rows, List.Forall₂ (Spelled g) xs rows ∧ Laid rows ts := by
  cases xs with
  | nil => exact ⟨[], .nil, .nil ts⟩
  | cons x xs =>
    obtain ⟨us, vs, hx, hxs, rfl⟩ := h
    obtain ⟨rows, hrows, hlaid⟩ := SpelledMore.laid xs hxs
    exact ⟨us :: rows, .cons hx hrows, hlaid.front us⟩

/-- the children of a node are laid in every spelling of it, each in a spelling of its own -/
theorem Spelled.laid {e : Expr} {ts : List Token} (h : e.Spelled g ts) :
    ∃ rows, List.Forall₂ (Spelled g) e.children rows ∧ Laid rows ts := by
  cases e with
  | name t => exact ⟨[], .nil, .nil ts⟩
  | number t v => exact ⟨[], .nil, .nil ts⟩
  | prefixed t x =>
    obtain ⟨us, hx, rfl⟩ := h
    exact ⟨[us], .cons hx .nil, (Laid.alone us).behind [t]⟩
  | binary t l r =>
    obtain ⟨us, vs, hl, hr, rfl⟩ := h
    exact ⟨[us, vs], .cons hl (.cons hr .nil), ((Laid.alone vs).behind [t]).front us⟩
  | suffixed t x =>
    obtain ⟨us, hx, rfl⟩ := h
    exact ⟨[us], .cons hx .nil, (Laid.alone us).before [t]⟩
  | group t x =>
    obtain ⟨us, c, hx, -, rfl⟩ := h
    exact ⟨[us], .cons hx .nil, ((Laid.alone us).before [c]).behind [t]⟩
  | call f t xs =>
    obtain ⟨us, vs, c, hf, hxs, -, rfl⟩ := h
    obtain ⟨rows, hrows, hlaid⟩ := SpelledItems.laid hxs
    exact ⟨us :: rows, .cons hf hrows, ((hlaid.before [c]).behind [t]).front us⟩
  | array t xs =>
    obtain ⟨vs, c, hxs, -, rfl⟩ := h
    obtain ⟨rows, hrows, hlaid⟩ := SpelledItems.laid hxs
    exact ⟨rows, hrows, (hlaid.before [c]).behind [t]⟩

theorem exists_row {xs : List Expr} {rows : List (List Token)}
    (h : List.Forall₂ (Spelled g) xs rows) {x : Expr} (hx : x ∈ xs) :
    ∃ us ∈ rows, x.Spelled g us := by
  induction h with
  | nil => cases hx
  | @cons y us xs rows hy _ ih =>
    rcases List.mem_cons.mp hx with rfl | hx
    · exact ⟨us, List.mem_cons_self, hy⟩
    · obtain ⟨vs, hvs, hspelled⟩ := ih hx
      exact ⟨vs, List.mem_cons_of_mem _ hvs, hspelled⟩

/-- a spelling of an expression contains a spelling of each of its nodes -/
theorem spelled_of_mem (e : Expr) : ∀ {ts : List Token}, e.Spelled g ts → ∀ x ∈ e.preorder,
    ∃ us, us <:+: ts ∧ x.Spelled g us := by
  induction e using byChildren with
  | step e ih =>
    intro ts h x hx
    rcases mem_preorder.mp hx with rfl | ⟨y, hy, hx⟩
    · exact ⟨ts, List.infix_refl ts, h⟩
    · obtain ⟨rows, hrows, hlaid⟩ := h.laid
      obtain ⟨us, hus, hspelled⟩ := exists_row hrows hy
      obtain ⟨vs, hvs, hx⟩ := ih y hy hspelled x hx
      exact ⟨vs, hvs.trans (hlaid.infix_of_mem hus), hx⟩

/-! the own tokens of an expression stand in every spelling of it, in order -/

section
variable {xs : List Expr}
  (hxs : ∀ x ∈ xs, ∀ {us : List Token}, x.Spelled g us → x.tokens.Sublist us)
include hxs

theorem more_sublist {ts : List Token} (h : SpelledMore g xs ts) :
    (inOrderMore id noMarks xs).Sublist ts := by
  induction xs generalizing ts with
  | nil => exact List.nil_sublist ts
  | cons x xs ih =>
    obtain ⟨c, us, vs, -, hx, hmore, rfl⟩ := h
    have hfirst := hxs x List.mem_cons_self hx
    have hrest := ih (fun y hy => hxs y (List.mem_cons_of_mem x hy)) hmore
    exact (hfirst.append hrest).cons c

theorem items_sublist {ts : List Token} (h : SpelledItems g xs ts) :
    (inOrderItems id noMarks xs).Sublist ts := by
  cases xs with
  | nil => exact List.nil_sublist ts
  | cons x xs =>
    obtain ⟨us, vs, hx, hmore, rfl⟩ := h
    have hrest := more_sublist (fun y hy => hxs y (List.mem_cons_of_mem x hy)) hmore
    exact (hxs x List.mem_cons_self hx).append hrest

end

theorem tokens_sublist (e : Expr) : ∀ {ts : List Token}, e.Spelled g ts → e.tokens.Sublist ts := by
  induction e using byChildren with
  | step e ih =>
    intro ts h
    cases e with
    | name t =>
      rw [show ts = [t] from h]
      exact List.Sublist.refl [t]
    | number t v =>
      rw [show ts = [t] from h]
      exact List.Sublist.refl [t]
    | prefixed t x =>
      obtain ⟨us, hx, rfl⟩ := h
      exact (ih x (List.mem_singleton_self x) hx).cons_cons t
    | binary t l r =>
      obtain ⟨us, vs, hl, hr, rfl⟩ := h
      have hright := ih r (List.mem_pair.mpr (.inr rfl)) hr
      exact (ih l List.mem_cons_self hl).append (hright.cons_cons t)
    | suffixed t x =>
      obtain ⟨us, hx, rfl⟩ := h
      exact (ih x (List.mem_singleton_self x) hx).append (List.Sublist.refl [t])
    | group t x =>
      obtain ⟨us, c, hx, -, rfl⟩ := h
      have hin := ih x (List.mem_singleton_self x) hx
      exact (hin.append (List.nil_sublist [c])).cons_cons t
    | call f t xs =>
      obtain ⟨us, vs, c, hf, hxs, -, rfl⟩ := h
      have hin := items_sublist (fun y hy => ih y (List.mem_cons_of_mem f hy)) hxs
      have hbehind := (hin.append (List.nil_sublist [c])).cons_cons t
      exact (ih f List.mem_cons_self hf).append hbehind
    | array t xs =>
      obtain ⟨vs, c, hxs, -, rfl⟩ := h
      exact ((items_sublist ih hxs).append (List.nil_sublist [c])).cons_cons t

end

end Expr
end Calculator
