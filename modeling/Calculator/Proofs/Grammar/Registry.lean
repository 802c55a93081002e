import Calculator.Proofs.Grammar.Classes

/-!
# The registry of a grammar

Batches of registrations are made one after another, and one that is refused leaves the draft as it
was.  So the grammar that comes out is told by the accepted registrations alone: its sets hold what
was entered, its kinds stand in the order in which they came first, of the roles of a kind the last
one counts, and of what can be set only once the first value stays.

* `Draft.Registers d r d'`       what one registration does, with the checks that it has passed;
* `Draft.batch_induction`        what registrations keep holds behind an accepted batch;
* `Draft.accepted`               the registrations of the batches that are not refused;
* `Draft.batch_accepted`         a run gives what these registrations give as one batch;
* `Grammar.Records g rs`         every field of `g` as the registrations `rs` tell it;
* `Grammar.Registry nonDecimal g`   what ties the fields of a grammar to each other;
* `Grammar.Extends g g'`         `g'` has all that `g` has, and what was set is as it was;
* `registry_of_run`              all three, for every run;
* `Grammar.Assembled g`          some batches lead to `g`, whichever of them fail.
-/

namespace Calculator

/-! ## entries -/

namespace Grammar

variable (g : Grammar)

theorem entry?_update (k j : Kind) {f : Entry → Entry} (hf : ∀ e, (f e).kind = e.kind) :
    entry? (g.update k f) j = (g.entry? j).map fun e => if e.kind = k then f e else e := by
  unfold update entry?
  rw [List.find?_map]
  congr 2
  funext e
  show decide ((if e.kind = k then f e else e).kind = j) = decide (e.kind = j)
  split
  · rw [hf]
  · rfl

theorem kind_of_entry? {j : Kind} {e : Entry} (h : g.entry? j = some e) : e.kind = j := by
  have hk := List.find?_some h
  exact of_decide_eq_true hk

theorem exists_entry? {k : Kind} (h : k ∈ g.kinds) : ∃ e, g.entry? k = some e := by
  obtain ⟨e, he, hk⟩ := List.mem_map.mp h
  exact Option.isSome_iff_exists.mp (List.find?_isSome.mpr ⟨e, he, decide_eq_true hk⟩)

section
variable {α : Type} {role : Entry → Option α}

/-- one of the roles of a kind -/
def role? (role : Entry → Option α) (k : Kind) : Option α := (g.entry? k).bind role

theorem role_addKind (k j : Kind) (h : role ⟨k, none, none⟩ = none) :
    (g.addKind k).role? role j = g.role? role j := by
  unfold addKind
  split
  · rfl
  · unfold role? entry?
    rw [List.find?_append]
    cases g.entries.find? fun e => decide (e.kind = j) with
    | some e => rfl
    | none =>
      rw [Option.none_or, List.find?_singleton]
      split
      · exact h
      · rfl

theorem role_update_of_eq (k j : Kind) {f : Entry → Entry} (hf : ∀ e, (f e).kind = e.kind)
    (h : ∀ e, role (f e) = role e) : (g.update k f).role? role j = g.role? role j := by
  unfold role?
  rw [g.entry?_update k j hf]
  cases g.entry? j with
  | none => rfl
  | some e =>
    show role (if e.kind = k then f e else e) = role e
    split
    · exact h e
    · rfl

theorem role_update (k j : Kind) {f : Entry → Entry} {a : α} (hk : k ∈ g.kinds)
    (hf : ∀ e, (f e).kind = e.kind) (h : ∀ e, role (f e) = some a) :
    (g.update k f).role? role j = (if k = j then some a else none).or (g.role? role j) := by
  unfold role?
  rw [g.entry?_update k j hf]
  by_cases hj : k = j
  · subst hj
    obtain ⟨e, he⟩ := g.exists_entry? hk
    rw [he, if_pos rfl]
    show role (if e.kind = k then f e else e) = some a
    rw [if_pos (g.kind_of_entry? he), h]
  · rw [if_neg hj, Option.none_or]
    cases he : g.entry? j with
    | none => rfl
    | some e =>
      show role (if e.kind = k then f e else e) = role e
      rw [if_neg fun hk' => hj (hk'.symm.trans (g.kind_of_entry? he))]

end

end Grammar

/-! ## what a registration says -/

namespace Registration

/-- the kind that is registered -/
def kind? : Registration → Option Kind
  | kind k => some k
  | _ => none

/-- the role that a kind is given before an operand -/
def prefixFor? (k : Kind) : Registration → Option PrefixRole
  | prefixRole j role => if j = k then some role else none
  | _ => none

/-- the role that a kind is given behind an operand -/
def infixFor? (k : Kind) : Registration → Option InfixRole
  | infixRole j role => if j = k then some role else none
  | _ => none

/-- the delimiters that are set for a use -/
def pairFor? (use : Bracket) : Registration → Option (Char × Char)
  | delimiters other [opening, closing] => if other = use then some (opening, closing) else none
  | _ => none

/-- the separator that is set -/
def separator? : Registration → Option Char
  | separator c => some c
  | _ => none

/-- the kind of names that is set -/
def nameKind? : Registration → Option Kind
  | nameKind k => some k
  | _ => none

/-- the character belongs to the class that it is registered for -/
def InClass (nonDecimal : Bool) : Registration → Prop
  | whitespace c => Text.isBlank c = true
  | punctuator c => Draft.isReserved c = false
  | letter c => Text.isAlphabetic c = true
  | digit c => (if nonDecimal then Text.isAlphabetic c || Text.isNumeric c else c.isDigit) = true
  | _ => True

end Registration

/-! ## what a registration does -/

namespace Draft

/-- a registration that has passed its checks, and the draft behind it -/
inductive Registers (d : Draft) : Registration → Draft → Prop where
  | whitespace {c : Char} : Text.isBlank c = true →
      Registers d (.whitespace c)
        (d.changeAlphabet fun a => { a with whitespace := a.whitespace.insert c })
  | punctuator {c : Char} : isReserved c = false →
      Registers d (.punctuator c)
        (d.changeAlphabet fun a => { a with punctuators := a.punctuators.insert c })
  | letter {c : Char} : Text.isAlphabetic c = true →
      Registers d (.letter c) (d.changeAlphabet fun a => { a with letters := a.letters.insert c })
  | digit {c : Char} : d.acceptsDigit c = true →
      Registers d (.digit c) (d.changeAlphabet fun a => { a with digits := a.digits.insert c })
  | keyword {word : List Char} :
      Registers d (.keyword word)
        (d.changeAlphabet fun a => { a with keywords := a.keywords.insert word })
  | kind {k : Kind} : Registers d (.kind k) { d with grammar := d.grammar.addKind k }
  | prefixRole {k : Kind} {role : PrefixRole} : k ∈ d.grammar.kinds →
      Registers d (.prefixRole k role)
        { d with grammar := d.grammar.update k fun e => { e with prefixRole := some role } }
  | infixRole {k : Kind} {role : InfixRole} : k ∈ d.grammar.kinds →
      Registers d (.infixRole k role)
        { d with grammar := d.grammar.update k fun e => { e with infixRole := some role } }
  | delimiters {use : Bracket} {opening closing : Char} : d.grammar.pair use = none →
      d.grammar.isPunctuator opening = true → d.grammar.isPunctuator closing = true →
      Registers d (.delimiters use [opening, closing])
        { d with grammar := d.grammar.setPair (opening, closing) use }
  | separator {c : Char} : d.grammar.separator = none → d.grammar.isPunctuator c = true →
      Registers d (.separator c) { d with grammar := { d.grammar with separator := some c } }
  | nameKind {k : Kind} : d.grammar.nameKind = none → k ∈ d.grammar.kinds →
      Registers d (.nameKind k) { d with grammar := { d.grammar with nameKind := some k } }

theorem registers_of_register {d d' : Draft} {r : Registration} (h : d.register r = .ok d') :
    d.Registers r d' := by
  cases r with
  | whitespace c =>
    obtain ⟨hc, rfl⟩ := require_eq_ok h
    exact .whitespace hc
  | punctuator c =>
    obtain ⟨hc, rfl⟩ := require_eq_ok h
    exact .punctuator ((Bool.not_eq_true' _).mp hc)
  | letter c =>
    obtain ⟨hc, rfl⟩ := require_eq_ok h
    exact .letter hc
  | digit c =>
    obtain ⟨hc, rfl⟩ := require_eq_ok h
    exact .digit hc
  | keyword word =>
    cases h
    exact .keyword
  | kind k =>
    cases h
    exact .kind
  | prefixRole k role =>
    obtain ⟨hk, rfl⟩ := require_eq_ok h
    exact .prefixRole (of_decide_eq_true hk)
  | infixRole k role =>
    obtain ⟨hk, rfl⟩ := require_eq_ok h
    exact .infixRole (of_decide_eq_true hk)
  | delimiters use characters =>
    obtain ⟨hunset, h⟩ := requireUnset_eq_ok h
    split at h
    · obtain ⟨hopening, h⟩ := requirePunctuator_eq_ok h
      obtain ⟨hclosing, h⟩ := requirePunctuator_eq_ok h
      cases h
      exact .delimiters hunset hopening hclosing
    · cases h
  | separator c =>
    obtain ⟨hunset, h⟩ := requireUnset_eq_ok h
    obtain ⟨hc, h⟩ := requirePunctuator_eq_ok h
    cases h
    exact .separator hunset hc
  | nameKind k =>
    obtain ⟨hunset, h⟩ := requireUnset_eq_ok h
    obtain ⟨hk, rfl⟩ := require_eq_ok h
    exact .nameKind hunset (of_decide_eq_true hk)

namespace Registers

variable {d d' : Draft} {r : Registration} (h : d.Registers r d')
include h

theorem nonDecimal_eq : d'.nonDecimal = d.nonDecimal := by
  cases h <;> rfl

theorem inClass : r.InClass d.nonDecimal := by
  cases h with
  | whitespace hc => exact hc
  | punctuator hc => exact hc
  | letter hc => exact hc
  | digit hc => exact hc
  | _ => trivial

theorem alphabet_eq : d'.grammar.alphabet =
    match r with
    | .whitespace c => { d.grammar.alphabet with
        whitespace := d.grammar.alphabet.whitespace.insert c }
    | .punctuator c => { d.grammar.alphabet with
        punctuators := d.grammar.alphabet.punctuators.insert c }
    | .letter c => { d.grammar.alphabet with letters := d.grammar.alphabet.letters.insert c }
    | .digit c => { d.grammar.alphabet with digits := d.grammar.alphabet.digits.insert c }
    | .keyword w => { d.grammar.alphabet with keywords := d.grammar.alphabet.keywords.insert w }
    | _ => d.grammar.alphabet := by
  cases h with
  | kind =>
    show (d.grammar.addKind _).alphabet = _
    unfold Grammar.addKind
    split <;> rfl
  | @delimiters use => cases use <;> rfl
  | _ => rfl

theorem isWhitespace (c : Char) : d'.grammar.isWhitespace c = true ↔
    d.grammar.isWhitespace c = true ∨ .whitespace c = r := by
  unfold Grammar.isWhitespace
  rw [OrdSet.contains_iff, OrdSet.contains_iff, h.alphabet_eq]
  cases r <;> simp [OrdSet.mem_insert, or_comm]

theorem isPunctuator (c : Char) : d'.grammar.isPunctuator c = true ↔
    d.grammar.isPunctuator c = true ∨ .punctuator c = r := by
  unfold Grammar.isPunctuator
  rw [OrdSet.contains_iff, OrdSet.contains_iff, h.alphabet_eq]
  cases r <;> simp [OrdSet.mem_insert, or_comm]

theorem isLetter (c : Char) : d'.grammar.isLetter c = true ↔
    d.grammar.isLetter c = true ∨ .letter c = r := by
  unfold Grammar.isLetter
  rw [OrdSet.contains_iff, OrdSet.contains_iff, h.alphabet_eq]
  cases r <;> simp [OrdSet.mem_insert, or_comm]

theorem isDigit (c : Char) : d'.grammar.isDigit c = true ↔
    d.grammar.isDigit c = true ∨ .digit c = r := by
  unfold Grammar.isDigit
  rw [OrdSet.contains_iff, OrdSet.contains_iff, h.alphabet_eq]
  cases r <;> simp [OrdSet.mem_insert, or_comm]

theorem isKeyword (w : List Char) : d'.grammar.isKeyword w = true ↔
    d.grammar.isKeyword w = true ∨ .keyword w = r := by
  unfold Grammar.isKeyword
  rw [OrdSet.contains_iff, OrdSet.contains_iff, h.alphabet_eq]
  cases r <;> simp [OrdSet.mem_insert, or_comm]

theorem kinds_eq : d'.grammar.kinds =
    d.grammar.kinds ++ r.kind?.toList.filter (fun k => !d.grammar.isKind k) := by
  cases h with
  | @kind k =>
    show (d.grammar.addKind k).kinds = _
    rw [Grammar.kinds_addKind]
    cases hk : d.grammar.isKind k <;> simp [Registration.kind?, hk]
  | @prefixRole k role =>
    refine (d.grammar.kinds_update k ?_).trans (List.append_nil _).symm
    intro e
    rfl
  | @infixRole k role =>
    refine (d.grammar.kinds_update k ?_).trans (List.append_nil _).symm
    intro e
    rfl
  | @delimiters use => cases use <;> exact (List.append_nil _).symm
  | _ => exact (List.append_nil _).symm

theorem prefixRole?_eq (k : Kind) :
    d'.grammar.prefixRole? k = (r.prefixFor? k).or (d.grammar.prefixRole? k) := by
  cases h with
  | @kind j => exact d.grammar.role_addKind j k rfl
  | @prefixRole j role hj => exact d.grammar.role_update j k hj (fun _ => rfl) (fun _ => rfl)
  | @infixRole j role => exact d.grammar.role_update_of_eq j k (fun _ => rfl) (fun _ => rfl)
  | @delimiters use => cases use <;> rfl
  | _ => rfl

theorem infixRole?_eq (k : Kind) :
    d'.grammar.infixRole? k = (r.infixFor? k).or (d.grammar.infixRole? k) := by
  cases h with
  | @kind j => exact d.grammar.role_addKind j k rfl
  | @infixRole j role hj => exact d.grammar.role_update j k hj (fun _ => rfl) (fun _ => rfl)
  | @prefixRole j role => exact d.grammar.role_update_of_eq j k (fun _ => rfl) (fun _ => rfl)
  | @delimiters use => cases use <;> rfl
  | _ => rfl

theorem pair_eq (use : Bracket) :
    d'.grammar.pair use = (d.grammar.pair use).or (r.pairFor? use) := by
  cases h with
  | kind =>
    show (d.grammar.addKind _).pair use = _
    unfold Grammar.addKind
    split <;> exact (Option.or_none).symm
  | @delimiters other opening closing hunset =>
    by_cases he : other = use
    · subst he
      rw [hunset, Registration.pairFor?, if_pos rfl, Option.none_or]
      cases other <;> rfl
    · rw [Registration.pairFor?, if_neg he, Option.or_none]
      cases other <;> cases use <;> first | exact absurd rfl he | rfl
  | _ => cases use <;> exact (Option.or_none).symm

theorem separator_eq : d'.grammar.separator = (d.grammar.separator).or r.separator? := by
  cases h with
  | kind =>
    show (d.grammar.addKind _).separator = _
    unfold Grammar.addKind
    split <;> exact (Option.or_none).symm
  | @delimiters use => cases use <;> exact (Option.or_none).symm
  | separator hunset =>
    rw [hunset]
    rfl
  | _ => exact (Option.or_none).symm

theorem nameKind_eq : d'.grammar.nameKind = (d.grammar.nameKind).or r.nameKind? := by
  cases h with
  | kind =>
    show (d.grammar.addKind _).nameKind = _
    unfold Grammar.addKind
    split <;> exact (Option.or_none).symm
  | @delimiters use => cases use <;> exact (Option.or_none).symm
  | nameKind hunset =>
    rw [hunset]
    rfl
  | _ => exact (Option.or_none).symm

theorem pair_checked {use : Bracket} {p : Char × Char} (hp : r.pairFor? use = some p) :
    d.grammar.isPunctuator p.1 = true ∧ d.grammar.isPunctuator p.2 = true := by
  cases h with
  | delimiters _ hopening hclosing =>
    obtain ⟨-, hp⟩ := Option.ite_none_right_eq_some.mp hp
    cases hp
    exact ⟨hopening, hclosing⟩
  | _ => cases hp

theorem separator_checked {c : Char} (hc : r.separator? = some c) :
    d.grammar.isPunctuator c = true := by
  cases h with
  | separator _ hpunctuator =>
    cases hc
    exact hpunctuator
  | _ => cases hc

theorem nameKind_checked {k : Kind} (hk : r.nameKind? = some k) : k ∈ d.grammar.kinds := by
  cases h with
  | nameKind _ hregistered =>
    cases hk
    exact hregistered
  | _ => cases hk

end Registers

/-! ## accepted registrations -/

/-- what registrations keep, one at a time, holds behind every batch that is accepted -/
theorem batch_induction {P : List Registration → Draft → Prop}
    (step : ∀ {rs d r d'}, P rs d → d.Registers r d' → P (rs ++ [r]) d')
    {ss rs : List Registration} {d d' : Draft} (start : P ss d) (h : d.batch rs = .ok d') :
    P (ss ++ rs) d' := by
  induction rs generalizing ss d with
  | nil =>
    cases h
    rw [List.append_nil]
    exact start
  | cons r rs ih =>
    rw [batch] at h
    split at h
    · cases h
    · rename_i d₁ h₁
      have := ih (step start (registers_of_register h₁)) h
      rwa [List.append_assoc, List.singleton_append] at this

/-- the registrations of the batches that are not refused -/
def accepted (d : Draft) : List (List Registration) → List Registration
  | [] => []
  | rs :: rest =>
    match d.batch rs with
    | .error _ => accepted d rest
    | .ok d' => rs ++ accepted d' rest

/-- a run gives what its accepted registrations give as one batch -/
theorem batch_accepted (d : Draft) (batches : List (List Registration)) :
    d.batch (d.accepted batches) = .ok (d.run batches).1 := by
  induction batches generalizing d with
  | nil => rfl
  | cons rs rest ih =>
    rw [accepted, run]
    cases h : d.batch rs with
    | error e => exact ih d
    | ok d' =>
      show d.batch (rs ++ d'.accepted rest) = _
      rw [batch_append, h]
      exact ih d'

theorem accepted_append (d : Draft) (earlier later : List (List Registration)) :
    d.accepted (earlier ++ later) = d.accepted earlier ++ (d.run earlier).1.accepted later := by
  induction earlier generalizing d with
  | nil => rfl
  | cons rs rest ih =>
    rw [List.cons_append, accepted, accepted, run]
    cases d.batch rs with
    | error e => exact ih d
    | ok d' =>
      show rs ++ d'.accepted (rest ++ later) = rs ++ d'.accepted rest ++ _
      rw [ih d', List.append_assoc]

end Draft

/-! ## the fields of a grammar -/

namespace Grammar

/-- every field of a grammar as the registrations tell it -/
structure Records (g : Grammar) (rs : List Registration) : Prop where
  whitespace : ∀ c, g.isWhitespace c = true ↔ .whitespace c ∈ rs
  punctuators : ∀ c, g.isPunctuator c = true ↔ .punctuator c ∈ rs
  letters : ∀ c, g.isLetter c = true ↔ .letter c ∈ rs
  digits : ∀ c, g.isDigit c = true ↔ .digit c ∈ rs
  keywords : ∀ w, g.isKeyword w = true ↔ .keyword w ∈ rs
  /-- the kinds in the order in which they came first -/
  kinds : g.kinds = (rs.filterMap Registration.kind?).eraseDups
  /-- of the roles of a kind the last one counts -/
  prefixRole : ∀ k, g.prefixRole? k = (rs.filterMap (Registration.prefixFor? k)).getLast?
  infixRole : ∀ k, g.infixRole? k = (rs.filterMap (Registration.infixFor? k)).getLast?
  /-- what can be set only once has its first value -/
  pair : ∀ use, g.pair use = (rs.filterMap (Registration.pairFor? use)).head?
  separator : g.separator = (rs.filterMap Registration.separator?).head?
  nameKind : g.nameKind = (rs.filterMap Registration.nameKind?).head?

/-- what ties the fields of a grammar to each other and to the classes of characters -/
structure Registry (nonDecimal : Bool) (g : Grammar) : Prop where
  kinds : g.kinds.Nodup
  prefixRole : ∀ k, (g.prefixRole? k).isSome → k ∈ g.kinds
  infixRole : ∀ k, (g.infixRole? k).isSome → k ∈ g.kinds
  nameKind : ∀ k, g.nameKind = some k → k ∈ g.kinds
  pair : ∀ use p, g.pair use = some p → g.isPunctuator p.1 = true ∧ g.isPunctuator p.2 = true
  separator : ∀ c, g.separator = some c → g.isPunctuator c = true
  whitespace : ∀ c, g.isWhitespace c = true → Text.isBlank c = true
  punctuators : ∀ c, g.isPunctuator c = true →
    Text.isBlank c = false ∧ Text.isAlphabetic c = false ∧ Text.isNumeric c = false
  letters : ∀ c, g.isLetter c = true → Text.isAlphabetic c = true
  digits : ∀ c, g.isDigit c = true →
    if nonDecimal then Text.isAlphabetic c = true ∨ Text.isNumeric c = true else c.isDigit = true

/-- punctuators, whitespace and what words are made of have no character in common -/
structure Apart (g : Grammar) : Prop where
  punctuators : ∀ c, g.isPunctuator c = true →
    g.isWhitespace c = false ∧ g.isLetter c = false ∧ g.isDigit c = false
  whitespace : ∀ c, g.isWhitespace c = true → g.isLetter c = false ∧ g.isDigit c = false

/-- `g'` has all that `g` has, and what could be set only once is as it was -/
structure Extends (g g' : Grammar) : Prop where
  whitespace : ∀ c, g.isWhitespace c = true → g'.isWhitespace c = true
  punctuators : ∀ c, g.isPunctuator c = true → g'.isPunctuator c = true
  letters : ∀ c, g.isLetter c = true → g'.isLetter c = true
  digits : ∀ c, g.isDigit c = true → g'.isDigit c = true
  keywords : ∀ w, g.isKeyword w = true → g'.isKeyword w = true
  kinds : g.kinds <+: g'.kinds
  prefixRole : ∀ k, (g.prefixRole? k).isSome → (g'.prefixRole? k).isSome
  infixRole : ∀ k, (g.infixRole? k).isSome → (g'.infixRole? k).isSome
  pair : ∀ use p, g.pair use = some p → g'.pair use = some p
  separator : ∀ c, g.separator = some c → g'.separator = some c
  nameKind : ∀ k, g.nameKind = some k → g'.nameKind = some k

theorem records_empty : empty.Records [] where
  whitespace c := by simp [empty, isWhitespace, OrdSet.contains_iff, OrdSet.mem_empty c]
  punctuators c := by simp [empty, isPunctuator, OrdSet.contains_iff, OrdSet.mem_empty c]
  letters c := by simp [empty, isLetter, OrdSet.contains_iff, OrdSet.mem_empty c]
  digits c := by simp [empty, isDigit, OrdSet.contains_iff, OrdSet.mem_empty c]
  keywords w := by simp [empty, isKeyword, OrdSet.contains_iff, OrdSet.mem_empty w]
  kinds := rfl
  prefixRole _ := rfl
  infixRole _ := rfl
  pair use := by cases use <;> rfl
  separator := rfl
  nameKind := rfl

section
variable {d d' : Draft} {r : Registration} {rs ss : List Registration} {g g' : Grammar}

theorem filterMap_single {α : Type} (f : Registration → Option α) (r : Registration) :
    [r].filterMap f = (f r).toList := by
  rw [List.filterMap_cons]
  cases f r <;> rfl

theorem Records.mem_kinds (h : g.Records rs) (k : Kind) :
    k ∈ g.kinds ↔ k ∈ rs.filterMap Registration.kind? := by
  rw [h.kinds, List.mem_eraseDups]

/-- what one registration adds to what is told so far -/
theorem Records.register (h : d.grammar.Records rs) (hr : d.Registers r d') :
    d'.grammar.Records (rs ++ [r]) where
  whitespace c := by rw [hr.isWhitespace, h.whitespace, List.mem_append, List.mem_singleton]
  punctuators c := by rw [hr.isPunctuator, h.punctuators, List.mem_append, List.mem_singleton]
  letters c := by rw [hr.isLetter, h.letters, List.mem_append, List.mem_singleton]
  digits c := by rw [hr.isDigit, h.digits, List.mem_append, List.mem_singleton]
  keywords w := by rw [hr.isKeyword, h.keywords, List.mem_append, List.mem_singleton]
  kinds := by
    rw [hr.kinds_eq, List.filterMap_append, List.eraseDups_append, ← h.kinds, filterMap_single]
    congr 1
    cases r.kind? with
    | none => rfl
    | some k =>
      by_cases hk : ∃ r ∈ rs, r.kind? = some k
      · simp [isKind, h.mem_kinds, List.cons_removeAll, hk]
      · simp [isKind, h.mem_kinds, List.cons_removeAll, hk, List.eraseDups_cons]
  prefixRole k := by
    rw [hr.prefixRole?_eq, h.prefixRole, List.filterMap_append, List.getLast?_append,
      filterMap_single]
    cases r.prefixFor? k <;> rfl
  infixRole k := by
    rw [hr.infixRole?_eq, h.infixRole, List.filterMap_append, List.getLast?_append,
      filterMap_single]
    cases r.infixFor? k <;> rfl
  pair use := by
    rw [hr.pair_eq, h.pair, List.filterMap_append, List.head?_append, filterMap_single]
    cases r.pairFor? use <;> rfl
  separator := by
    rw [hr.separator_eq, h.separator, List.filterMap_append, List.head?_append, filterMap_single]
    cases r.separator? <;> rfl
  nameKind := by
    rw [hr.nameKind_eq, h.nameKind, List.filterMap_append, List.head?_append, filterMap_single]
    cases r.nameKind? <;> rfl

/-- further registrations take nothing away -/
theorem Records.extends (h : g.Records rs) (h' : g'.Records (rs ++ ss)) : g.Extends g' where
  whitespace c hc := (h'.whitespace c).mpr (List.mem_append_left ss ((h.whitespace c).mp hc))
  punctuators c hc := (h'.punctuators c).mpr (List.mem_append_left ss ((h.punctuators c).mp hc))
  letters c hc := (h'.letters c).mpr (List.mem_append_left ss ((h.letters c).mp hc))
  digits c hc := (h'.digits c).mpr (List.mem_append_left ss ((h.digits c).mp hc))
  keywords w hw := (h'.keywords w).mpr (List.mem_append_left ss ((h.keywords w).mp hw))
  kinds := by
    rw [h.kinds, h'.kinds, List.filterMap_append, List.eraseDups_append]
    exact List.prefix_append _ _
  prefixRole k hk := by
    rw [h'.prefixRole, List.filterMap_append, List.getLast?_append, Option.isSome_or,
      ← h.prefixRole, hk, Bool.or_true]
  infixRole k hk := by
    rw [h'.infixRole, List.filterMap_append, List.getLast?_append, Option.isSome_or,
      ← h.infixRole, hk, Bool.or_true]
  pair use p hp := by
    rw [h'.pair, List.filterMap_append, List.head?_append, ← h.pair, hp, Option.some_or]
  separator c hc := by
    rw [h'.separator, List.filterMap_append, List.head?_append, ← h.separator, hc, Option.some_or]
  nameKind k hk := by
    rw [h'.nameKind, List.filterMap_append, List.head?_append, ← h.nameKind, hk, Option.some_or]

theorem registry_empty (nonDecimal : Bool) : empty.Registry nonDecimal where
  kinds := List.nodup_nil
  prefixRole _ h := nomatch h
  infixRole _ h := nomatch h
  nameKind _ h := nomatch h
  pair use _ h := by cases use <;> cases h
  separator _ h := nomatch h
  whitespace c h := absurd ((OrdSet.contains_iff _ c).mp h) (OrdSet.mem_empty c)
  punctuators c h := absurd ((OrdSet.contains_iff _ c).mp h) (OrdSet.mem_empty c)
  letters c h := absurd ((OrdSet.contains_iff _ c).mp h) (OrdSet.mem_empty c)
  digits c h := absurd ((OrdSet.contains_iff _ c).mp h) (OrdSet.mem_empty c)

/-- a registration that passes its checks keeps the fields tied together -/
theorem Registry.register (h : d.grammar.Registry d.nonDecimal) (hr : d.Registers r d') :
    d'.grammar.Registry d.nonDecimal := by
  have hkinds : ∀ k ∈ d.grammar.kinds, k ∈ d'.grammar.kinds := fun k hk => by
    rw [hr.kinds_eq]
    exact List.mem_append_left _ hk
  have hpunctuator : ∀ c, d.grammar.isPunctuator c = true → d'.grammar.isPunctuator c = true :=
    fun c hc => (hr.isPunctuator c).mpr (.inl hc)
  refine ⟨?_, ?_, ?_, ?_, ?_, ?_, ?_, ?_, ?_, ?_⟩
  · rw [hr.kinds_eq, List.nodup_append]
    refine ⟨h.kinds, ?_, ?_⟩
    · cases r.kind? with
      | none => exact List.nodup_nil
      | some k =>
        have hone : [k].Nodup := List.nodup_cons.mpr ⟨List.not_mem_nil, List.nodup_nil⟩
        exact List.filter_sublist.nodup hone
    · rintro k hk j hj rfl
      have := (List.mem_filter.mp hj).2
      rw [Grammar.isKind, decide_eq_true hk] at this
      cases this
  · intro k hk
    obtain ⟨role, hrole⟩ := Option.isSome_iff_exists.mp hk
    exact d'.grammar.mem_kinds_of_prefixRole? hrole
  · intro k hk
    obtain ⟨role, hrole⟩ := Option.isSome_iff_exists.mp hk
    exact d'.grammar.mem_kinds_of_infixRole? hrole
  · intro k hk
    rw [hr.nameKind_eq] at hk
    rcases Option.or_eq_some_iff.mp hk with hk | ⟨-, hk⟩
    · exact hkinds k (h.nameKind k hk)
    · exact hkinds k (hr.nameKind_checked hk)
  · intro use p hp
    rw [hr.pair_eq] at hp
    have hboth : d.grammar.isPunctuator p.1 = true ∧ d.grammar.isPunctuator p.2 = true := by
      rcases Option.or_eq_some_iff.mp hp with hp | ⟨-, hp⟩
      · exact h.pair use p hp
      · exact hr.pair_checked hp
    exact ⟨hpunctuator _ hboth.1, hpunctuator _ hboth.2⟩
  · intro c hc
    rw [hr.separator_eq] at hc
    rcases Option.or_eq_some_iff.mp hc with hc | ⟨-, hc⟩
    · exact hpunctuator c (h.separator c hc)
    · exact hpunctuator c (hr.separator_checked hc)
  · intro c hc
    rcases (hr.isWhitespace c).mp hc with hc | rfl
    · exact h.whitespace c hc
    · exact hr.inClass
  · intro c hc
    rcases (hr.isPunctuator c).mp hc with hc | rfl
    · exact h.punctuators c hc
    · have hfree : Draft.isReserved c = false := hr.inClass
      simp only [Draft.isReserved, Bool.or_eq_false_iff] at hfree
      exact ⟨hfree.1.1, hfree.1.2, hfree.2⟩
  · intro c hc
    rcases (hr.isLetter c).mp hc with hc | rfl
    · exact h.letters c hc
    · exact hr.inClass
  · intro c hc
    rcases (hr.isDigit c).mp hc with hc | rfl
    · exact h.digits c hc
    · have hclass := hr.inClass
      cases hmode : d.nonDecimal with
      | false => simpa [Registration.InClass, hmode] using hclass
      | true => simpa [Registration.InClass, hmode] using hclass

theorem Registry.digit_word {nonDecimal : Bool} (h : g.Registry nonDecimal) {c : Char}
    (hc : g.isDigit c = true) : Text.isAlphabetic c = true ∨ Text.isNumeric c = true := by
  have hclass := h.digits c hc
  cases nonDecimal with
  | false => exact .inr (Text.isNumeric_of_isDigit hclass)
  | true => exact hclass

theorem Registry.not_punctuator {nonDecimal : Bool} (h : g.Registry nonDecimal) {c : Char}
    (hc : Text.isAlphabetic c = true ∨ Text.isNumeric c = true) : g.isPunctuator c = false := by
  refine Bool.eq_false_iff.mpr fun hp => ?_
  obtain ⟨-, halphabetic, hnumeric⟩ := h.punctuators c hp
  rcases hc with hc | hc
  · exact Bool.eq_false_iff.mp halphabetic hc
  · exact Bool.eq_false_iff.mp hnumeric hc

/-- the classes of characters are apart, and so are the sets -/
theorem Registry.apart {nonDecimal : Bool} (h : g.Registry nonDecimal) : g.Apart where
  punctuators c hc := by
    have hword : ¬ (Text.isAlphabetic c = true ∨ Text.isNumeric c = true) := fun hw =>
      Bool.eq_false_iff.mp (h.not_punctuator hw) hc
    refine ⟨Bool.eq_false_iff.mpr fun hw => ?_, Bool.eq_false_iff.mpr fun hl => ?_,
      Bool.eq_false_iff.mpr fun hd => ?_⟩
    · exact Bool.eq_false_iff.mp (h.punctuators c hc).1 (h.whitespace c hw)
    · exact hword (.inl (h.letters c hl))
    · exact hword (h.digit_word hd)
  whitespace c hc := by
    obtain ⟨halphabetic, hnumeric⟩ := Text.not_word_of_isBlank (h.whitespace c hc)
    refine ⟨Bool.eq_false_iff.mpr fun hl => ?_, Bool.eq_false_iff.mpr fun hd => ?_⟩
    · exact Bool.eq_false_iff.mp halphabetic (h.letters c hl)
    · rcases h.digit_word hd with ha | hn
      · exact Bool.eq_false_iff.mp halphabetic ha
      · exact Bool.eq_false_iff.mp hnumeric hn

end

end Grammar

theorem Draft.batch_records {nonDecimal : Bool} {rs : List Registration} {d : Draft}
    (h : (start nonDecimal).batch rs = .ok d) :
    d.grammar.Records rs ∧ d.grammar.Registry nonDecimal := by
  have hbatch := batch_induction
    (P := fun rs d => d.grammar.Records rs ∧ d.nonDecimal = nonDecimal ∧
      d.grammar.Registry nonDecimal)
    ?_ ⟨Grammar.records_empty, rfl, Grammar.registry_empty _⟩ h
  · exact ⟨hbatch.1, hbatch.2.2⟩
  · rintro rs d r d' ⟨hrecords, rfl, hregistry⟩ hr
    exact ⟨hrecords.register hr, hr.nonDecimal_eq, hregistry.register hr⟩

/-- the grammar behind a run is told by the accepted registrations, and its fields are tied -/
theorem Draft.run_records (nonDecimal : Bool) (batches : List (List Registration)) :
    ((start nonDecimal).run batches).1.grammar.Records ((start nonDecimal).accepted batches) ∧
      ((start nonDecimal).run batches).1.grammar.Registry nonDecimal :=
  batch_records (batch_accepted (start nonDecimal) batches)

theorem Draft.build_records {nonDecimal : Bool} {rs : List Registration} {g : Grammar}
    (h : build nonDecimal rs = .ok g) : g.Records rs ∧ g.Registry nonDecimal := by
  unfold build at h
  split at h
  · cases h
  · rename_i d hd
    cases h
    exact batch_records hd

/-- **In either mode and whatever batches are tried, some of them in vain**: the fields of the
grammar are told by the accepted registrations, they are tied to each other, the sets are apart,
and what the batches so far have entered stays through all later ones. -/
theorem registry_of_run (nonDecimal : Bool) (earlier later : List (List Registration)) :
    let start := Draft.start nonDecimal
    let g := (start.run earlier).1.grammar
    let g' := (start.run (earlier ++ later)).1.grammar
    g'.Records (start.accepted (earlier ++ later)) ∧ g'.Registry nonDecimal ∧ g'.Apart ∧
      g.Extends g' := by
  intro start g g'
  obtain ⟨hearlier, -⟩ := Draft.run_records nonDecimal earlier
  obtain ⟨hrecords, hregistry⟩ := Draft.run_records nonDecimal (earlier ++ later)
  refine ⟨hrecords, hregistry, hregistry.apart, ?_⟩
  rw [Draft.accepted_append] at hrecords
  exact hearlier.extends hrecords

/-! ## assembled grammars -/

namespace Grammar

/-- a grammar that some batches of registrations lead to, whichever of them fail -/
def Assembled (g : Grammar) : Prop :=
  ∃ nonDecimal batches, ((Draft.start nonDecimal).run batches).1.grammar = g

theorem assembled_of_build {nonDecimal : Bool} {rs : List Registration} {g : Grammar}
    (h : Draft.build nonDecimal rs = .ok g) : g.Assembled := by
  refine ⟨nonDecimal, [rs], ?_⟩
  unfold Draft.build at h
  unfold Draft.run
  split at h
  · cases h
  · cases h
    rfl

variable {g : Grammar} (hg : g.Assembled)
include hg

theorem Assembled.registry : ∃ nonDecimal, g.Registry nonDecimal := by
  obtain ⟨nonDecimal, batches, rfl⟩ := hg
  exact ⟨nonDecimal, (Draft.run_records nonDecimal batches).2⟩

theorem Assembled.apart : g.Apart := by
  obtain ⟨nonDecimal, h⟩ := hg.registry
  exact h.apart

theorem Assembled.isBlank_of_isWhitespace {c : Char} (h : g.isWhitespace c = true) :
    Text.isBlank c = true := by
  obtain ⟨nonDecimal, hregistry⟩ := hg.registry
  exact hregistry.whitespace c h

end Grammar

theorem Mode.language_apart (mode : Mode) : mode.language.Apart :=
  (Grammar.assembled_of_build mode.grammar_eq).apart

end Calculator
