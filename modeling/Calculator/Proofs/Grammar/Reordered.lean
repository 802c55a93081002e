import Calculator.Expr.Climb
import Calculator.Proofs.Grammar.Registry
import Mathlib.Data.List.Nodup

/-!
# The order of registrations

A grammar is told by its registrations (`Grammar.Records`), and little of that depends on their
order: the order of the kinds, and which role of a kind comes last.  All else is a set, or was set
by a single registration, since a second one is refused.  So two rows of registrations that differ
in the order alone, both accepted, lead to one grammar if the kinds come in the same order in both,
and the roles of each kind do.

* `Draft.accepted_of_run`       in a run without a refusal all registrations are accepted;
* `Grammar.SetOnce g rs`        what can be set only once was set by a single registration of `rs`;
* `Grammar.entries_eq`          the entries of a grammar as its kinds and their roles tell them;
* `Registration.Reordered`      the same registrations in an order that differs where it may;
* `Grammar.Records.unique`      one grammar for both orders;
* `registrations_commute`       **the built grammar does not depend on the order.**
-/

namespace Calculator

/-! ## runs without a refusal -/

theorem Draft.accepted_of_run (d : Draft) (batches : List (List Registration))
    (h : ∀ e ∈ (d.run batches).2, e = none) : d.accepted batches = batches.flatten := by
  induction batches generalizing d with
  | nil => rfl
  | cons rs rest ih =>
    rw [accepted, List.flatten_cons]
    rw [run] at h
    cases hb : d.batch rs with
    | error e =>
      rw [hb] at h
      cases h (some e) List.mem_cons_self
    | ok d' =>
      rw [hb] at h
      show rs ++ d'.accepted rest = _
      rw [ih d' fun e he => h e (List.mem_cons_of_mem _ he)]

/-! ## what is set only once -/

namespace Draft.Registers

variable {d d' : Draft} {r : Registration} (h : d.Registers r d')
include h

theorem pair_unset {use : Bracket} (hp : (r.pairFor? use).isSome) : d.grammar.pair use = none := by
  cases h with
  | @delimiters other opening closing hunset =>
    obtain ⟨p, hp⟩ := Option.isSome_iff_exists.mp hp
    obtain ⟨rfl, -⟩ := Option.ite_none_right_eq_some.mp hp
    exact hunset
  | _ => cases hp

theorem separator_unset (hc : r.separator?.isSome) : d.grammar.separator = none := by
  cases h with
  | separator hunset => exact hunset
  | _ => cases hc

theorem nameKind_unset (hk : r.nameKind?.isSome) : d.grammar.nameKind = none := by
  cases h with
  | nameKind hunset => exact hunset
  | _ => cases hk

end Draft.Registers

theorem toList_or {α : Type} {a b : Option α} (h : b.isSome → a = none) :
    (a.or b).toList = a.toList ++ b.toList := by
  cases b with
  | none => rw [Option.or_none, Option.toList_none, List.append_nil]
  | some b =>
    rw [h rfl]
    rfl

theorem eq_of_perm_toList {α : Type} {a b : Option α} (h : a.toList.Perm b.toList) : a = b := by
  cases a with
  | none =>
    have hnil : b.toList = [] := List.nil_perm.mp h
    rw [Option.toList_eq_nil_iff.mp hnil]
  | some a =>
    have hone : b.toList = [a] := (List.singleton_perm.mp h).symm
    rw [Option.toList_eq_singleton_iff.mp hone]

namespace Grammar

/-- what can be set only once was set by a single registration, or by none -/
structure SetOnce (g : Grammar) (rs : List Registration) : Prop where
  pair : ∀ use, rs.filterMap (Registration.pairFor? use) = (g.pair use).toList
  separator : rs.filterMap Registration.separator? = g.separator.toList
  nameKind : rs.filterMap Registration.nameKind? = g.nameKind.toList

theorem setOnce_empty : empty.SetOnce [] where
  pair use := by cases use <;> rfl
  separator := rfl
  nameKind := rfl

theorem SetOnce.register {d d' : Draft} {r : Registration} {rs : List Registration}
    (h : d.grammar.SetOnce rs) (hr : d.Registers r d') : d'.grammar.SetOnce (rs ++ [r]) where
  pair use := by
    rw [List.filterMap_append, filterMap_single, h.pair, hr.pair_eq, toList_or hr.pair_unset]
  separator := by
    rw [List.filterMap_append, filterMap_single, h.separator, hr.separator_eq,
      toList_or hr.separator_unset]
  nameKind := by
    rw [List.filterMap_append, filterMap_single, h.nameKind, hr.nameKind_eq,
      toList_or hr.nameKind_unset]

end Grammar

theorem Draft.run_setOnce (nonDecimal : Bool) (batches : List (List Registration)) :
    ((start nonDecimal).run batches).1.grammar.SetOnce ((start nonDecimal).accepted batches) :=
  batch_induction (P := fun rs d => d.grammar.SetOnce rs) (fun h hr => h.register hr)
    Grammar.setOnce_empty (batch_accepted (start nonDecimal) batches)

/-! ## a grammar is told by its fields -/

theorem OrdSet.eq_of_contains {α : Type} [Ordered α] [DecidableEq α] {s t : OrdSet α}
    (h : ∀ a, s.contains a = true ↔ t.contains a = true) : s = t :=
  OrdSet.ext fun a => by rw [← contains_iff, ← contains_iff, h]

namespace Grammar

theorem entry?_of_mem {g : Grammar} (h : g.kinds.Nodup) {e : Entry} (he : e ∈ g.entries) :
    g.entry? e.kind = some e := by
  obtain ⟨e', he'⟩ := g.exists_entry? (List.mem_map.mpr ⟨e, he, rfl⟩)
  have hmem : e' ∈ g.entries := List.mem_of_find?_eq_some he'
  rw [he', List.inj_on_of_nodup_map h hmem he (g.kind_of_entry? he')]

/-- the entries are the kinds with their roles -/
theorem entries_eq {g : Grammar} (h : g.kinds.Nodup) :
    g.entries = g.kinds.map fun k => ⟨k, g.prefixRole? k, g.infixRole? k⟩ := by
  have hsame : ∀ e ∈ g.entries,
      (⟨e.kind, g.prefixRole? e.kind, g.infixRole? e.kind⟩ : Entry) = e := by
    intro e he
    unfold prefixRole? infixRole?
    rw [entry?_of_mem h he]
    rfl
  rw [kinds, List.map_map]
  exact ((List.map_congr_left hsame).trans (List.map_id _)).symm

theorem eq_of_fields {g g' : Grammar} (halphabet : g.alphabet = g'.alphabet)
    (hentries : g.entries = g'.entries) (hpair : ∀ use, g.pair use = g'.pair use)
    (hseparator : g.separator = g'.separator) (hname : g.nameKind = g'.nameKind) : g = g' := by
  have hgrouping : g.grouping = g'.grouping := hpair .grouping
  have hcall : g.callDelimiters = g'.callDelimiters := hpair .call
  have harray : g.arrayDelimiters = g'.arrayDelimiters := hpair .array
  cases g
  cases g'
  simp only [Grammar.mk.injEq]
  exact ⟨halphabet, hentries, hgrouping, hcall, harray, hseparator, hname⟩

end Grammar

/-! ## one grammar for both orders -/

/-- the same registrations, the kinds in the same order and the roles of each kind too -/
structure Registration.Reordered (rs ss : List Registration) : Prop where
  perm : rs.Perm ss
  kinds : rs.filterMap kind? = ss.filterMap kind?
  prefixRoles : ∀ k, rs.filterMap (prefixFor? k) = ss.filterMap (prefixFor? k)
  infixRoles : ∀ k, rs.filterMap (infixFor? k) = ss.filterMap (infixFor? k)

namespace Grammar

variable {g g' : Grammar} {rs ss : List Registration}

theorem Records.alphabet_unique (h : g.Records rs) (h' : g'.Records ss) (hperm : rs.Perm ss) :
    g.alphabet = g'.alphabet := by
  have hwhitespace : g.alphabet.whitespace = g'.alphabet.whitespace :=
    OrdSet.eq_of_contains fun c =>
      (h.whitespace c).trans (hperm.mem_iff.trans (h'.whitespace c).symm)
  have hpunctuators : g.alphabet.punctuators = g'.alphabet.punctuators :=
    OrdSet.eq_of_contains fun c =>
      (h.punctuators c).trans (hperm.mem_iff.trans (h'.punctuators c).symm)
  have hletters : g.alphabet.letters = g'.alphabet.letters :=
    OrdSet.eq_of_contains fun c => (h.letters c).trans (hperm.mem_iff.trans (h'.letters c).symm)
  have hdigits : g.alphabet.digits = g'.alphabet.digits :=
    OrdSet.eq_of_contains fun c => (h.digits c).trans (hperm.mem_iff.trans (h'.digits c).symm)
  have hkeywords : g.alphabet.keywords = g'.alphabet.keywords :=
    OrdSet.eq_of_contains fun w => (h.keywords w).trans (hperm.mem_iff.trans (h'.keywords w).symm)
  cases hg : g.alphabet
  cases hg' : g'.alphabet
  rw [hg, hg'] at hwhitespace hpunctuators hletters hdigits hkeywords
  rw [Alphabet.mk.injEq]
  exact ⟨hwhitespace, hpunctuators, hletters, hdigits, hkeywords⟩

theorem Records.entries_unique (h : g.Records rs) (h' : g'.Records ss) (hnodup : g.kinds.Nodup)
    (hsame : Registration.Reordered rs ss) : g.entries = g'.entries := by
  have hkinds : g.kinds = g'.kinds := by rw [h.kinds, h'.kinds, hsame.kinds]
  rw [entries_eq hnodup, entries_eq (hkinds ▸ hnodup), hkinds]
  refine List.map_congr_left fun k _ => ?_
  rw [h.prefixRole, h'.prefixRole, hsame.prefixRoles, h.infixRole, h'.infixRole, hsame.infixRoles]

/-- registrations that set what can be set only once lead to one grammar in both orders -/
theorem Records.unique (h : g.Records rs) (h' : g'.Records ss) (honce : g.SetOnce rs)
    (honce' : g'.SetOnce ss) (hnodup : g.kinds.Nodup) (hsame : Registration.Reordered rs ss) :
    g = g' := by
  refine eq_of_fields (h.alphabet_unique h' hsame.perm) (h.entries_unique h' hnodup hsame) ?_ ?_ ?_
  · intro use
    refine eq_of_perm_toList ?_
    rw [← honce.pair, ← honce'.pair]
    exact hsame.perm.filterMap _
  · refine eq_of_perm_toList ?_
    rw [← honce.separator, ← honce'.separator]
    exact hsame.perm.filterMap _
  · refine eq_of_perm_toList ?_
    rw [← honce.nameKind, ← honce'.nameKind]
    exact hsame.perm.filterMap _

end Grammar

/-- **The built grammar does not depend on the order of its registrations.**  In either mode, take
two rows of steps without a refusal, each step one registration or several.  If both make the same
registrations, the kinds in the same order and the roles of each kind, before and behind an operand,
in the same order, then they lead to one grammar.  So lexers over any text are the same, and both
parsers of any stream. -/
theorem registrations_commute (nonDecimal : Bool) (steps steps' : List (List Registration))
    (hok : ∀ e ∈ ((Draft.start nonDecimal).run steps).2, e = none)
    (hok' : ∀ e ∈ ((Draft.start nonDecimal).run steps').2, e = none)
    (hsame : Registration.Reordered steps.flatten steps'.flatten) :
    let g := ((Draft.start nonDecimal).run steps).1.grammar
    let g' := ((Draft.start nonDecimal).run steps').1.grammar
    g = g' ∧
    (∀ mode config text, Lexer.new g mode config text = Lexer.new g' mode config text) ∧
    ∀ radix s, Setting.parse ⟨g, radix⟩ s = Setting.parse ⟨g', radix⟩ s ∧
      ∀ threshold, Setting.parseFrom ⟨g, radix⟩ threshold s
        = Setting.parseFrom ⟨g', radix⟩ threshold s := by
  intro g g'
  obtain ⟨hrecords, hregistry⟩ := Draft.run_records nonDecimal steps
  obtain ⟨hrecords', -⟩ := Draft.run_records nonDecimal steps'
  have honce := Draft.run_setOnce nonDecimal steps
  have honce' := Draft.run_setOnce nonDecimal steps'
  rw [Draft.accepted_of_run _ _ hok] at hrecords honce
  rw [Draft.accepted_of_run _ _ hok'] at hrecords' honce'
  have hone : g = g' := hrecords.unique hrecords' honce honce' hregistry.kinds hsame
  rw [hone]
  exact ⟨rfl, fun _ _ _ => rfl, fun _ _ => ⟨rfl, fun _ => rfl⟩⟩

/-- sums in parentheses: kinds and roles late, and the plus given another role behind an operand -/
def sumSteps : List (List Registration) :=
  [[.whitespace ' '], [.punctuator '(', .punctuator ')', .punctuator '+'],
    [.letter 'a', .letter 'b'], [.kind ⟨['('], .highest⟩], [.kind ⟨[')'], .lowest⟩],
    [.kind ⟨['+'], .infix2⟩, .kind Kind.word], [.delimiters .grouping ['(', ')']],
    [.nameKind Kind.word], [.prefixRole Kind.word .leaf], [.prefixRole ⟨['('], .highest⟩ .grouping],
    [.infixRole ⟨['+'], .infix2⟩ .right], [.infixRole ⟨['+'], .infix2⟩ .left]]

/-- the same in another order, with the sets last -/
def sumSteps' : List (List Registration) :=
  [[.kind ⟨['('], .highest⟩], [.kind ⟨[')'], .lowest⟩], [.prefixRole ⟨['('], .highest⟩ .grouping],
    [.kind ⟨['+'], .infix2⟩, .kind Kind.word], [.infixRole ⟨['+'], .infix2⟩ .right],
    [.prefixRole Kind.word .leaf], [.nameKind Kind.word], [.infixRole ⟨['+'], .infix2⟩ .left],
    [.punctuator '(', .punctuator ')', .punctuator '+'], [.delimiters .grouping ['(', ')']],
    [.letter 'a', .letter 'b'], [.whitespace ' ']]

theorem sumSteps_commute :
    (∀ e ∈ ((Draft.start false).run sumSteps).2, e = none) ∧
    (∀ e ∈ ((Draft.start false).run sumSteps').2, e = none) ∧
    Registration.Reordered sumSteps.flatten sumSteps'.flatten ∧
    ((Draft.start false).run sumSteps).1.grammar = ((Draft.start false).run sumSteps').1.grammar ∧
    ((Draft.start false).run sumSteps).1.grammar.infixRole? ⟨['+'], .infix2⟩ = some .left := by
  have hok : ∀ e ∈ ((Draft.start false).run sumSteps).2, e = none := by decide +kernel
  have hok' : ∀ e ∈ ((Draft.start false).run sumSteps').2, e = none := by decide +kernel
  have hsame : Registration.Reordered sumSteps.flatten sumSteps'.flatten := by
    refine ⟨by decide +kernel, by decide +kernel, fun k => ?_, fun k => ?_⟩
    · by_cases hword : Kind.word = k
      · subst hword
        decide +kernel
      · simp [sumSteps, sumSteps', List.filterMap_cons, Registration.prefixFor?, hword]
    · rfl
  exact ⟨hok, hok', hsame, (registrations_commute false sumSteps sumSteps' hok hok' hsame).1,
    by decide +kernel⟩

end Calculator
