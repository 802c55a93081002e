import Calculator.Token.Symbol
import Mathlib.Data.List.Sort

/-!
# Kinds in the order of their names

Kinds are sorted by name alone, so kinds of one name stay as they came.  The sorted row is the only
one that is in the order of names and has the kinds of each name as they came; in a row with every
name once this leaves no choice, so such a row may be listed in any order.

* `kindsNamed name ks`          the kinds of one name, and `kindsNamed_sortByName`: as they came;
* `sortByName_eq_iff`           **what the sorted row is**;
* `sortByName_eq_of_pairwise`   with every name once, a row in the order of names is the sorted one;
* `sortByName_of_perm`          rows with every name once, in any order.
-/

namespace Calculator

/-! ## the order of names -/

namespace Kind

theorem notAfter_of_name {a b : Kind} (h : a.name = b.name) : a.NotAfter b := by
  unfold NotAfter
  rw [h]
  exact Ordered.irrefl b.name

theorem name_of_notAfter {a b : Kind} (h : a.NotAfter b) (h' : b.NotAfter a) : a.name = b.name :=
  Ordered.connected h' h

instance : Std.Total NotAfter where
  total a b := by
    unfold NotAfter
    cases h : Ordered.before b.name a.name with
    | false => exact .inl rfl
    | true => exact .inr (Ordered.asymm h)

instance : IsTrans Kind NotAfter where
  trans a b c hab hbc := by
    refine Bool.eq_false_iff.mpr fun hca => ?_
    cases hba : Ordered.before a.name b.name with
    | true =>
      have hcb := Ordered.trans hca hba
      rw [hbc] at hcb
      cases hcb
    | false =>
      rw [name_of_notAfter hab hba, hbc] at hca
      cases hca

end Kind

theorem sortByName_perm (ks : List Kind) : (sortByName ks).Perm ks := List.mergeSort_perm ks _

theorem sortByName_pairwise (ks : List Kind) : (sortByName ks).Pairwise Kind.NotAfter :=
  List.pairwise_mergeSort' Kind.NotAfter ks

/-- the sort is stable -/
theorem sublist_sortByName {js ks : List Kind} (hsorted : js.Pairwise Kind.NotAfter)
    (hsub : js.Sublist ks) : js.Sublist (sortByName ks) := by
  refine List.sublist_mergeSort (fun a b c hab hbc => ?_) (fun a b => ?_) ?_ hsub
  · exact decide_eq_true (trans_of Kind.NotAfter (of_decide_eq_true hab) (of_decide_eq_true hbc))
  · simpa using total_of Kind.NotAfter a b
  · simpa using hsorted

/-! ## kinds of one name -/

/-- the kinds of one name, in their order -/
def kindsNamed (name : List Char) (ks : List Kind) : List Kind :=
  ks.filter fun k => decide (k.name = name)

theorem mem_kindsNamed {name : List Char} {ks : List Kind} {k : Kind} :
    k ∈ kindsNamed name ks ↔ k ∈ ks ∧ k.name = name := by
  rw [kindsNamed, List.mem_filter, decide_eq_true_iff]

theorem kindsNamed_cons (name : List Char) (k : Kind) (ks : List Kind) :
    kindsNamed name (k :: ks) =
      if k.name = name then k :: kindsNamed name ks else kindsNamed name ks := by
  rw [kindsNamed, List.filter_cons]
  simp only [decide_eq_true_eq]
  rfl

/-- kinds of one name stay as they came -/
theorem kindsNamed_sortByName (name : List Char) (ks : List Kind) :
    kindsNamed name (sortByName ks) = kindsNamed name ks := by
  have hequal : (kindsNamed name ks).Pairwise Kind.NotAfter :=
    List.pairwise_of_forall_mem_list fun a ha b hb => Kind.notAfter_of_name
      ((mem_kindsNamed.mp ha).2.trans (mem_kindsNamed.mp hb).2.symm)
  have hsub : (kindsNamed name ks).Sublist (sortByName ks) :=
    sublist_sortByName hequal List.filter_sublist
  have hkept : (kindsNamed name ks).Sublist (kindsNamed name (sortByName ks)) := by
    have h := hsub.filter fun k => decide (k.name = name)
    simpa only [kindsNamed, List.filter_filter, Bool.and_self] using h
  have hlength : (kindsNamed name ks).length = (kindsNamed name (sortByName ks)).length :=
    ((sortByName_perm ks).symm.filter _).length_eq
  exact (hkept.eq_of_length hlength).symm

example : sortByName [⟨['-'], .infix3⟩, ⟨['!'], .prefix1⟩, ⟨['-'], .prefix1⟩]
    = [⟨['!'], .prefix1⟩, ⟨['-'], .infix3⟩, ⟨['-'], .prefix1⟩] := by cbv

theorem Kind.notAfter_of_mem {a b : Kind} {as : List Kind} (h : (a :: as).Pairwise Kind.NotAfter)
    (hb : b ∈ a :: as) : a.NotAfter b := by
  rcases List.mem_cons.mp hb with rfl | hb
  · exact Kind.notAfter_of_name rfl
  · exact List.rel_of_pairwise_cons h hb

theorem mem_iff_of_kindsNamed {as bs : List Kind}
    (h : ∀ name, kindsNamed name as = kindsNamed name bs) (k : Kind) : k ∈ as ↔ k ∈ bs := by
  have hmem (ks : List Kind) : k ∈ ks ↔ k ∈ kindsNamed k.name ks := by simp [mem_kindsNamed]
  rw [hmem as, h, ← hmem bs]

theorem eq_of_kindsNamed {as bs : List Kind} (ha : as.Pairwise Kind.NotAfter)
    (hb : bs.Pairwise Kind.NotAfter) (h : ∀ name, kindsNamed name as = kindsNamed name bs) :
    as = bs := by
  induction as generalizing bs with
  | nil =>
    have hnone : ∀ b, b ∉ bs := fun b hb => by cases (mem_iff_of_kindsNamed h b).mpr hb
    exact (List.eq_nil_iff_forall_not_mem.mpr hnone).symm
  | cons a as ih =>
    have hmem := mem_iff_of_kindsNamed h
    cases bs with
    | nil => cases (hmem a).mp List.mem_cons_self
    | cons b bs =>
      -- each head is a member of the other row, so both have the smallest name
      have hname : a.name = b.name :=
        Kind.name_of_notAfter (Kind.notAfter_of_mem ha ((hmem b).mpr List.mem_cons_self))
          (Kind.notAfter_of_mem hb ((hmem a).mp List.mem_cons_self))
      obtain ⟨rfl, hrest⟩ : a = b ∧ kindsNamed a.name as = kindsNamed a.name bs := by
        have hsame := h a.name
        rw [kindsNamed_cons, if_pos rfl, kindsNamed_cons, if_pos hname.symm] at hsame
        exact List.cons.inj hsame
      have hkinds (name : List Char) : kindsNamed name as = kindsNamed name bs := by
        by_cases hn : a.name = name
        · rw [← hn]
          exact hrest
        · have hsame := h name
          rwa [kindsNamed_cons, if_neg hn, kindsNamed_cons, if_neg hn] at hsame
      rw [ih (List.pairwise_cons.mp ha).2 (List.pairwise_cons.mp hb).2 hkinds]

/-- **The sort gives the row in the order of names that has the kinds of each name as they came**,
since it does not look at the precedence. -/
theorem sortByName_eq_iff (ks js : List Kind) :
    sortByName ks = js ↔
      js.Pairwise Kind.NotAfter ∧ ∀ name, kindsNamed name js = kindsNamed name ks := by
  constructor
  · rintro rfl
    exact ⟨sortByName_pairwise ks, fun name => kindsNamed_sortByName name ks⟩
  · rintro ⟨hsorted, hkinds⟩
    refine eq_of_kindsNamed (sortByName_pairwise ks) hsorted fun name => ?_
    rw [kindsNamed_sortByName, hkinds]

/-! ## rows with every name once -/

theorem kindsNamed_of_perm {ks js : List Kind} (h : js.Perm ks) (hnames : (ks.map Kind.name).Nodup)
    (name : List Char) : kindsNamed name js = kindsNamed name ks := by
  -- two kinds of the name are one, so there is nothing to reorder
  have hany (ks : List Kind) : ks.Pairwise fun _ _ => True :=
    List.pairwise_of_forall fun _ _ => trivial
  refine List.Perm.eq_of_pairwise (fun a b ha hb _ _ => ?_) (hany _) (hany _) (h.filter _)
  obtain ⟨ha, haname⟩ := mem_kindsNamed.mp ha
  obtain ⟨hb, hbname⟩ := mem_kindsNamed.mp hb
  exact List.inj_on_of_nodup_map hnames (h.mem_iff.mp ha) hb (haname.trans hbname.symm)

theorem sortByName_eq_of_pairwise {ks js : List Kind} (hnames : (ks.map Kind.name).Nodup)
    (hperm : js.Perm ks) (hsorted : js.Pairwise Kind.NotAfter) : sortByName ks = js :=
  (sortByName_eq_iff ks js).mpr ⟨hsorted, kindsNamed_of_perm hperm hnames⟩

theorem sortByName_of_perm {ks js : List Kind} (h : ks.Perm js)
    (hnames : (ks.map Kind.name).Nodup) : sortByName ks = sortByName js :=
  sortByName_eq_of_pairwise hnames ((sortByName_perm js).trans h.symm) (sortByName_pairwise js)

theorem sortByName_ascending {ks : List Kind} (hnames : (ks.map Kind.name).Nodup) :
    (sortByName ks).Pairwise fun a b => Ordered.before a.name b.name = true := by
  have hdistinct : (sortByName ks).Pairwise fun a b => a.name ≠ b.name :=
    List.pairwise_map.mp ((((sortByName_perm ks).map Kind.name).nodup_iff).mpr hnames)
  refine (sortByName_pairwise ks).imp₂ (fun a b hle hne => ?_) hdistinct
  cases hab : Ordered.before a.name b.name with
  | true => rfl
  | false => exact absurd (Kind.name_of_notAfter hle hab) hne

end Calculator
