/-!
# Ordered types and sets

The sets of a grammar are finite and small.  They are kept as ascending lists, so that two sets
with the same members are the same value, in whatever order the members came.

* `Ordered`           a strict linear order that can be computed;
* `Ordered.listBefore`   texts compare character by character, characters by code point;
* `OrdSet`            a set as an ascending list;
* `OrdSet.mem_insert`, `OrdSet.ext`   its two laws.
-/

namespace Calculator

/-- a strict linear order that can be computed -/
class Ordered (α : Type) where
  before : α → α → Bool
  irrefl : ∀ a, before a a = false
  trans : ∀ {a b c}, before a b = true → before b c = true → before a c = true
  connected : ∀ {a b}, before a b = false → before b a = false → a = b

namespace Ordered

instance : Ordered Char where
  before a b := decide (a.toNat < b.toNat)
  irrefl a := by simp
  trans h1 h2 := by simp only [decide_eq_true_eq] at *; omega
  connected h1 h2 := by
    simp only [decide_eq_false_iff_not] at *
    exact Char.toNat_inj.mp (by omega)

variable {α : Type} [Ordered α]

theorem asymm {a b : α} (h : before a b = true) : before b a = false := by
  cases h' : before b a with
  | false => rfl
  | true =>
    have := trans h h'
    rw [irrefl] at this
    cases this

theorem ne_of_before {a b : α} (h : before a b = true) : a ≠ b := by
  rintro rfl
  rw [irrefl] at h
  cases h

/-- the order of texts: the first difference decides, and a text comes before its extensions -/
def listBefore : List α → List α → Bool
  | [], [] => false
  | [], _ :: _ => true
  | _ :: _, [] => false
  | a :: as, b :: bs => before a b || (!before b a && listBefore as bs)

theorem listBefore_irrefl (as : List α) : listBefore as as = false := by
  induction as with
  | nil => rfl
  | cons a as ih => simp [listBefore, irrefl, ih]

theorem listBefore_connected {as bs : List α} (h1 : listBefore as bs = false)
    (h2 : listBefore bs as = false) : as = bs := by
  induction as generalizing bs with
  | nil =>
    cases bs with
    | nil => rfl
    | cons b bs => cases h1
  | cons a as ih =>
    cases bs with
    | nil => cases h2
    | cons b bs =>
      simp only [listBefore, Bool.or_eq_false_iff] at h1 h2
      have hab := connected h1.1 h2.1
      subst hab
      simp only [irrefl, Bool.not_false, Bool.true_and] at h1 h2
      rw [ih h1.2 h2.2]

theorem listBefore_trans {as bs cs : List α} (h1 : listBefore as bs = true)
    (h2 : listBefore bs cs = true) : listBefore as cs = true := by
  induction as generalizing bs cs with
  | nil =>
    cases cs with
    | nil => cases bs <;> cases h2
    | cons c cs => rfl
  | cons a as ih =>
    cases bs with
    | nil => cases h1
    | cons b bs =>
      cases cs with
      | nil => cases h2
      | cons c cs =>
        simp only [listBefore, Bool.or_eq_true, Bool.and_eq_true, Bool.not_eq_true'] at *
        rcases h1 with hab | ⟨hba, h1⟩
        · rcases h2 with hbc | ⟨hcb, _⟩
          · exact Or.inl (trans hab hbc)
          · cases hbc : before b c with
            | true => exact Or.inl (trans hab hbc)
            | false => exact Or.inl (connected hbc hcb ▸ hab)
        · rcases h2 with hbc | ⟨hcb, h2⟩
          · cases hab : before a b with
            | true => exact Or.inl (trans hab hbc)
            | false => exact Or.inl (connected hab hba ▸ hbc)
          · cases hab : before a b with
            | true =>
              cases hbc : before b c with
              | true => exact Or.inl (trans hab hbc)
              | false => exact Or.inl (connected hbc hcb ▸ hab)
            | false =>
              have e := connected hab hba
              subst e
              exact Or.inr ⟨hcb, ih h1 h2⟩

instance : Ordered (List α) where
  before := listBefore
  irrefl := listBefore_irrefl
  trans := listBefore_trans
  connected := listBefore_connected

end Ordered

open Ordered

/-! ## sets -/

/-- a finite set as an ascending list -/
structure OrdSet (α : Type) [Ordered α] where
  toList : List α
  ordered : toList.Pairwise (before · · = true)

variable {α : Type} [Ordered α]

/-- puts an element into an ascending list at its place, unless it is there -/
def insertOrdered (a : α) : List α → List α
  | [] => [a]
  | b :: bs =>
    if before a b then a :: b :: bs
    else if before b a then b :: insertOrdered a bs
    else b :: bs

theorem mem_insertOrdered (a x : α) (bs : List α) : x ∈ insertOrdered a bs ↔ x = a ∨ x ∈ bs := by
  induction bs with
  | nil => simp [insertOrdered]
  | cons b bs ih =>
    unfold insertOrdered
    split
    · simp
    · split
      · rw [List.mem_cons, ih, List.mem_cons]
        exact or_left_comm
      · rename_i h1 h2
        have e : a = b := connected (by simpa using h1) (by simpa using h2)
        simp [e]

theorem insertOrdered_ordered (a : α) {bs : List α} (h : bs.Pairwise (before · · = true)) :
    (insertOrdered a bs).Pairwise (before · · = true) := by
  induction bs with
  | nil => simp [insertOrdered]
  | cons b bs ih =>
    obtain ⟨hb, hbs⟩ := List.pairwise_cons.mp h
    unfold insertOrdered
    split
    · rename_i hab
      refine List.pairwise_cons.mpr ⟨fun x hx => ?_, h⟩
      rcases List.mem_cons.mp hx with rfl | hx
      · exact hab
      · exact trans hab (hb x hx)
    · split
      · rename_i hba
        refine List.pairwise_cons.mpr ⟨fun x hx => ?_, ih hbs⟩
        rcases (mem_insertOrdered a x bs).mp hx with rfl | hx
        · exact hba
        · exact hb x hx
      · exact h

namespace OrdSet

def empty : OrdSet α := ⟨[], List.Pairwise.nil⟩

def insert (a : α) (s : OrdSet α) : OrdSet α :=
  ⟨insertOrdered a s.toList, insertOrdered_ordered a s.ordered⟩

instance : Membership α (OrdSet α) := ⟨fun s a => a ∈ s.toList⟩

def contains [DecidableEq α] (s : OrdSet α) (a : α) : Bool := decide (a ∈ s.toList)

def size (s : OrdSet α) : Nat := s.toList.length

theorem mem_empty (x : α) : ¬ x ∈ (empty : OrdSet α) := List.not_mem_nil

theorem mem_insert (a x : α) (s : OrdSet α) : x ∈ s.insert a ↔ x = a ∨ x ∈ s :=
  mem_insertOrdered a x s.toList

theorem contains_iff [DecidableEq α] (s : OrdSet α) (a : α) : s.contains a = true ↔ a ∈ s :=
  decide_eq_true_iff

/-- ascending lists with the same members are the same list -/
theorem eq_of_mem_iff {as bs : List α} (ha : as.Pairwise (before · · = true))
    (hb : bs.Pairwise (before · · = true)) (h : ∀ x, x ∈ as ↔ x ∈ bs) : as = bs := by
  induction as generalizing bs with
  | nil =>
    cases bs with
    | nil => rfl
    | cons b bs => exact absurd ((h b).mpr List.mem_cons_self) List.not_mem_nil
  | cons a as ih =>
    cases bs with
    | nil => exact absurd ((h a).mp List.mem_cons_self) List.not_mem_nil
    | cons b bs =>
      obtain ⟨ha1, ha2⟩ := List.pairwise_cons.mp ha
      obtain ⟨hb1, hb2⟩ := List.pairwise_cons.mp hb
      have e : a = b := by
        rcases List.mem_cons.mp ((h a).mp List.mem_cons_self) with e | hab
        · exact e
        · rcases List.mem_cons.mp ((h b).mpr List.mem_cons_self) with e | hba
          · exact e.symm
          · have h1 := asymm (hb1 a hab)
            rw [ha1 b hba] at h1
            cases h1
      subst e
      rw [ih ha2 hb2 fun x => ?_]
      constructor
      · intro hx
        rcases List.mem_cons.mp ((h x).mp (List.mem_cons_of_mem _ hx)) with rfl | hx'
        · exact absurd rfl (ne_of_before (ha1 x hx))
        · exact hx'
      · intro hx
        rcases List.mem_cons.mp ((h x).mpr (List.mem_cons_of_mem _ hx)) with rfl | hx'
        · exact absurd rfl (ne_of_before (hb1 x hx))
        · exact hx'

/-- sets with the same members are the same value -/
theorem ext {s t : OrdSet α} (h : ∀ x, x ∈ s ↔ x ∈ t) : s = t := by
  obtain ⟨as, ha⟩ := s
  obtain ⟨bs, hb⟩ := t
  have e : as = bs := eq_of_mem_iff ha hb h
  subst e
  rfl

end OrdSet
end Calculator
