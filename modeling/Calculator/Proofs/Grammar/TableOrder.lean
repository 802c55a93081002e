import Calculator.Proofs.Grammar.Resolution

/-!
# The order of a table

The table of a mode gives its kinds in no order of its own, so they are sorted by name before they
are registered.  Every name is there once, so the table is sorted into one row, however it is
listed, and the kind of a symbol can be told from the table without an order.

* `Kind.Settles table c k`      the kind of a symbol as a table without an order tells it;
* `Mode.grammarOf`              the grammar of a mode, its table listed in a given order;
* `table_order_immaterial`      **one grammar, in whatever order the table is listed.**
-/

namespace Calculator

/-! ## the kind of a symbol by a table -/

/-- the kind of a symbol by a table in no order: the one of just its name, else the longer one that
starts with it whose name comes first -/
def Kind.Settles (table : List Kind) (c : Char) (k : Kind) : Prop :=
  k ∈ table ∧ (k.name = [c] ∨
    (∀ j ∈ table, j.name ≠ [c]) ∧ k.Longer c ∧ ∀ j ∈ table, j.Longer c → k.NotAfter j)

instance (table : List Kind) (c : Char) (k : Kind) : Decidable (Kind.Settles table c k) :=
  inferInstanceAs (Decidable (k ∈ table ∧ (k.name = [c] ∨
    (∀ j ∈ table, j.name ≠ [c]) ∧ k.Longer c ∧ ∀ j ∈ table, j.Longer c → k.NotAfter j)))

/-- in the order of names, with every name once, the first kind with a property is the one whose
name comes first -/
theorem Kind.first_iff {p : Kind → Prop} {ks : List Kind} {k : Kind}
    (hsorted : ks.Pairwise NotAfter) (hnames : (ks.map name).Nodup) :
    First p ks k ↔ k ∈ ks ∧ p k ∧ ∀ j ∈ ks, p j → k.NotAfter j := by
  have hleast {k : Kind} (h : First p ks k) : k ∈ ks ∧ p k ∧ ∀ j ∈ ks, p j → k.NotAfter j := by
    obtain ⟨before, behind, rfl, hk, hbefore⟩ := h
    refine ⟨List.mem_append_right before List.mem_cons_self, hk, fun j hj hp => ?_⟩
    rcases List.mem_append.mp hj with hj | hj
    · exact absurd hp (hbefore j hj)
    · exact notAfter_of_mem (List.pairwise_append.mp hsorted).2.1 hj
  refine ⟨hleast, fun ⟨hmem, hk, hmin⟩ => ?_⟩
  -- some kind is the first one, and it has the name of `k`
  classical
  have hsome : (ks.find? fun j => decide (p j)).isSome := by
    rw [List.find?_isSome]
    exact ⟨k, hmem, decide_eq_true hk⟩
  obtain ⟨j, hj⟩ := Option.isSome_iff_exists.mp hsome
  have hfirst := (find?_eq_some_iff_first fun j => decide_eq_true_iff).mp hj
  obtain ⟨hjmem, hjp, hjmin⟩ := hleast hfirst
  have hname := name_of_notAfter (hmin j hjmem hjp) (hjmin k hmem hk)
  rw [List.inj_on_of_nodup_map hnames hmem hjmem hname]
  exact hfirst

/-- the sorted table and a kind without a name give a symbol the kind that the table settles -/
theorem Kind.resolves_sorted_iff {table : List Kind} {c : Char} {k last : Kind}
    (hnames : (table.map name).Nodup) (hlast : last.name = []) :
    Resolves (sortByName table ++ [last]) c k ↔ Settles table c k := by
  have hsame : SameOrder c (sortByName table) (sortByName table ++ [last]) := by
    have hexact : last.isExactly c = false := by simp [isExactly, hlast]
    have hlonger : last.startsLonger c = false := by simp [startsLonger, hlast]
    constructor
    · rw [List.filter_append, List.filter_singleton, hexact, cond_false, List.append_nil]
    · rw [List.filter_append, List.filter_singleton, hlonger, cond_false, List.append_nil]
  have hmem (j : Kind) : j ∈ sortByName table ↔ j ∈ table := (sortByName_perm table).mem_iff
  have hsorted := sortByName_pairwise table
  have hdistinct : ((sortByName table).map name).Nodup :=
    ((sortByName_perm table).map name).nodup_iff.mpr hnames
  rw [← resolve_eq_some_iff, hsame.resolve_eq, resolve_eq_some_iff]
  constructor
  · intro h
    cases h with
    | exactly h =>
      obtain ⟨hk, hname, -⟩ := (first_iff hsorted hdistinct).mp h
      exact ⟨(hmem k).mp hk, .inl hname⟩
    | longer hnone h =>
      obtain ⟨hk, hlonger, hmin⟩ := (first_iff hsorted hdistinct).mp h
      exact ⟨(hmem k).mp hk, .inr ⟨fun j hj => hnone j ((hmem j).mpr hj), hlonger,
        fun j hj => hmin j ((hmem j).mpr hj)⟩⟩
  · rintro ⟨hk, hname | ⟨hnone, hlonger, hmin⟩⟩
    · refine .exactly ((first_iff hsorted hdistinct).mpr ⟨(hmem k).mpr hk, hname, fun j _ hj => ?_⟩)
      exact notAfter_of_name (hname.trans hj.symm)
    · refine .longer (fun j hj => hnone j ((hmem j).mp hj)) ?_
      exact (first_iff hsorted hdistinct).mpr
        ⟨(hmem k).mpr hk, hlonger, fun j hj => hmin j ((hmem j).mp hj)⟩

/-! ## the grammar of a mode -/

namespace Mode

/-- the grammar of a mode, the kinds of its table listed in some order -/
def grammarOf (mode : Mode) (table : List Kind) : Except Error Grammar :=
  Draft.build mode.nonDecimal (mode.registrations table)

theorem grammarOf_kinds (mode : Mode) : mode.grammarOf mode.kinds = mode.grammar := rfl

theorem kinds_registrations (mode : Mode) (table : List Kind) :
    (mode.registrations table).filterMap Registration.kind?
      = sortByName table ++ [Kind.word] := by
  have hroles : mode.roles.filterMap Registration.kind? = [] := by cases mode <;> rfl
  have hkinds : ((sortByName table).map Registration.kind).filterMap Registration.kind?
      = sortByName table := by
    rw [List.filterMap_map]
    exact List.filterMap_some
  simp [registrations, listing, hroles, hkinds, List.filterMap_cons, List.filterMap_map,
    Function.comp_def, Registration.kind?]

/-- **The table may be listed in any order.** -/
theorem grammarOf_perm (mode : Mode) {table : List Kind} (h : table.Perm mode.kinds) :
    mode.grammarOf table = .ok mode.language := by
  have hnames : (table.map Kind.name).Nodup := (h.map Kind.name).nodup_iff.mpr mode.names_nodup
  have hsame : mode.grammarOf table = mode.grammarOf mode.kinds := by
    rw [grammarOf, grammarOf, registrations, registrations, sortByName_of_perm h hnames]
  rw [hsame, grammarOf_kinds, grammar_eq]

theorem language_kinds (mode : Mode) :
    mode.language.kinds = sortByName mode.kinds ++ [Kind.word] := by
  have hrecords := (Draft.build_records mode.grammar_eq).1
  rw [hrecords.kinds, kinds_registrations, mode.sortByName_kinds]
  cases mode <;> decide +kernel

end Mode

/-- **One grammar, in whatever order the table is listed.**  Rows of kinds that are permutations of
each other, with every name once, are sorted into one row, which is ascending by the code points of
the names.  The names of each mode's table are there once.  So for any two orders of its table both
grammars are built, with the same kinds in the same order, those of the table by name and the kind
of words last.  The kind of a symbol is the one that the table itself settles, lexers over any text
are the same, and both parsers of any stream. -/
theorem table_order_immaterial :
    (∀ ks js : List Kind, ks.Perm js → (ks.map Kind.name).Nodup →
      sortByName ks = sortByName js ∧ (sortByName ks).Perm ks ∧
        (sortByName ks).Pairwise fun a b => Ordered.before a.name b.name = true) ∧
    ∀ mode : Mode, (mode.kinds.map Kind.name).Nodup ∧
      ∀ table table' : List Kind, table.Perm mode.kinds → table'.Perm mode.kinds →
        ∃ g g', mode.grammarOf table = .ok g ∧ mode.grammarOf table' = .ok g' ∧
          g.kinds = sortByName mode.kinds ++ [Kind.word] ∧ g'.kinds = g.kinds ∧
          (∀ c k, g.kindOf c = some k ↔ Kind.Settles mode.kinds c k) ∧
          (∀ c, g'.kindOf c = g.kindOf c) ∧
          (∀ lexing config text, Lexer.new g' lexing config text = Lexer.new g lexing config text) ∧
          ∀ radix s, Setting.parse ⟨g', radix⟩ s = Setting.parse ⟨g, radix⟩ s ∧
            ∀ threshold, Setting.parseFrom ⟨g', radix⟩ threshold s
              = Setting.parseFrom ⟨g, radix⟩ threshold s := by
  refine ⟨fun ks js hperm hnames => ?_, fun mode => ⟨mode.names_nodup, ?_⟩⟩
  · exact ⟨sortByName_of_perm hperm hnames, sortByName_perm ks, sortByName_ascending hnames⟩
  · intro table table' h h'
    refine ⟨mode.language, mode.language, mode.grammarOf_perm h, mode.grammarOf_perm h',
      mode.language_kinds, rfl, fun c k => ?_, fun _ => rfl, fun _ _ _ => rfl,
      fun _ _ => ⟨rfl, fun _ => rfl⟩⟩
    rw [Grammar.kindOf_eq_resolve, mode.language_kinds, Kind.resolve_eq_some_iff]
    exact Kind.resolves_sorted_iff mode.names_nodup rfl

/-- the table of programmer mode, last kind first -/
theorem reversed_table_immaterial :
    let table := Mode.programmer.kinds.reverse
    table.Perm Mode.programmer.kinds ∧ table ≠ Mode.programmer.kinds ∧
    sortByName table = sortByName Mode.programmer.kinds ∧
    ∃ g, Mode.programmer.grammarOf table = .ok g ∧
      g.kindOf '<' = some ⟨['<', '<'], .caretLowest⟩ := by
  intro table
  have hperm : table.Perm Mode.programmer.kinds := List.reverse_perm _
  obtain ⟨hsort, hmode⟩ := table_order_immaterial
  obtain ⟨hnames, horder⟩ := hmode .programmer
  obtain ⟨g, -, hg, -, -, -, hkind, -⟩ := horder table _ hperm (List.Perm.refl _)
  have hshift : Kind.Settles Mode.programmer.kinds '<' ⟨['<', '<'], .caretLowest⟩ := by
    decide +kernel
  exact ⟨hperm, by decide, (hsort _ _ hperm.symm hnames).1.symm, g, hg, (hkind _ _).mpr hshift⟩

end Calculator
