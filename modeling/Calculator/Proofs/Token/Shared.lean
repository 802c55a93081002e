import Calculator.Proofs.Token.Respaced
import Mathlib.Data.List.Chain

/-!
# Texts that both modes read alike

The modes differ in their letters and digits, in what starts an exponent, and in what two characters
can be one symbol.  On digits, lower-case letters that mark no exponent, blanks and the signs of
both modes none of this shows, as long as `>` stands behind `-` alone: then it always is the end of
an arrow.  Lexers of the two modes give the same results on such a text, positions and errors
included.

* `sharedChars`, `SharedText`   the characters, and the texts;
* `SharedText.drop`             what is left of such a text is one, unless an arrow was cut;
* `Rules.ReadsShared`           what rules make of the characters by themselves;
* `Rules.Agree`                 rules that make the same of them;
* `Rules.Agree.scan`, `Rules.ReadsShared.scan_rest`   one scan, and what it leaves;
* `Mode.rules_agree`            the rules of the two modes agree;
* `Lexer.Twin`                  lexers at the same place of one text;
* `Lexer.Twin.result`           they give the same results, pull after pull.
-/

namespace Calculator

/-- digits, lower-case letters but for `e` and `p`, blanks, and the signs of both modes -/
def sharedChars : List Char :=
  charRange '0' '9' ++ (charRange 'a' 'z').filter (fun c => c ≠ 'e' && c ≠ 'p')
    ++ [' ', '\t', '\r', '\n']
    ++ ['(', ')', '[', ']', '\x7b', '\x7d', '.', ',', '+', '-', '*', '/', '^', '\x27', '_', '>']

/-- shared characters, with `>` directly behind `-` alone -/
structure SharedText (text : List Char) : Prop where
  chars : ∀ c ∈ text, c ∈ sharedChars
  first : text.head? ≠ some '>'
  arrows : text.IsChain fun c d => d = '>' → c = '-'

namespace SharedText

theorem nil : SharedText [] := ⟨List.forall_mem_nil _, by decide, .nil⟩

/-- what is left of a shared text is one, unless an arrow was cut -/
theorem drop (gone : List Char) {rest : List Char} (h : SharedText (gone ++ rest))
    (hcut : rest.head? = some '>' → gone.getLast? ≠ some '-') : SharedText rest := by
  obtain ⟨-, hrest, hseam⟩ := List.isChain_append.mp h.arrows
  refine ⟨fun c hc => h.chars c (List.mem_append_right _ hc), fun hhead => ?_, hrest⟩
  cases hlast : gone.getLast? with
  | none =>
    rw [List.getLast?_eq_none_iff.mp hlast] at h
    exact h.first hhead
  | some c =>
    have hc : c = '-' := hseam c hlast '>' hhead rfl
    rw [← hc] at hcut
    exact hcut hhead hlast

theorem drop_of_not_mem (gone : List Char) {rest : List Char} (h : SharedText (gone ++ rest))
    (hgone : '-' ∉ gone) : SharedText rest :=
  h.drop gone fun _ hlast => hgone (List.mem_of_getLast? hlast)

end SharedText

theorem takeWhile_congr {p q : Char → Bool} {cs : List Char} (h : ∀ c ∈ cs, p c = q c) :
    cs.takeWhile p = cs.takeWhile q ∧ cs.dropWhile p = cs.dropWhile q := by
  induction cs with
  | nil => exact ⟨rfl, rfl⟩
  | cons c cs ih =>
    obtain ⟨hc, hcs⟩ := List.forall_mem_cons.mp h
    obtain ⟨htake, hdrop⟩ := ih hcs
    rw [List.takeWhile_cons, List.takeWhile_cons, List.dropWhile_cons, List.dropWhile_cons, hc,
      htake, hdrop]
    exact ⟨rfl, rfl⟩

/-! ## one scan -/

/-- the kind of the arrow -/
def arrowKind : Kind := ⟨['-', '>'], .infix4⟩

namespace Rules

/-- what rules make of shared characters: no exponent starts, the arrow is the only symbol of two
characters, and a dash is a symbol and nothing else -/
structure ReadsShared (ρ : Rules) : Prop where
  exponent : ∀ c ∈ sharedChars, ∀ cs, exponentStarts ρ.mode (c :: cs) = false
  compound : ∀ c ∈ sharedChars, c ≠ '>' → ∀ d,
    ρ.mode.compound ρ.grammar c d = if c = '-' ∧ d = '>' then some arrowKind else none
  dash : ρ.grammar.isPunctuator '-' = true ∧ ρ.grammar.isWhitespace '-' = false ∧
    ρ.grammar.isLetter '-' = false ∧ ρ.grammar.isDigit '-' = false

/-- rules that make the same of shared characters -/
structure Agree (ρ ρ' : Rules) : Prop where
  left : ρ.ReadsShared
  right : ρ'.ReadsShared
  nameKind : ρ.nameKind = ρ'.nameKind
  radix : ρ.radix = ρ'.radix
  whitespace : ∀ c ∈ sharedChars, ρ.grammar.isWhitespace c = ρ'.grammar.isWhitespace c
  punctuator : ∀ c ∈ sharedChars, ρ.grammar.isPunctuator c = ρ'.grammar.isPunctuator c
  letter : ∀ c ∈ sharedChars, ρ.grammar.isLetter c = ρ'.grammar.isLetter c
  digit : ∀ c ∈ sharedChars, ρ.grammar.isDigit c = ρ'.grammar.isDigit c
  reserves : ∀ c ∈ sharedChars, ρ.mode.reserves c = ρ'.mode.reserves c
  kindOf : ∀ c ∈ sharedChars, c ≠ '>' → ρ.grammar.kindOf c = ρ'.grammar.kindOf c

theorem ReadsShared.no_exponent {ρ : Rules} (h : ρ.ReadsShared) {cs : List Char}
    (hcs : ∀ c ∈ cs, c ∈ sharedChars) : exponentStarts ρ.mode cs = false := by
  cases cs with
  | nil => rfl
  | cons c cs => exact h.exponent c (hcs c List.mem_cons_self) cs

theorem ReadsShared.numeral_eq {ρ : Rules} (h : ρ.ReadsShared) (c : Char) {cs : List Char}
    (hcs : ∀ c ∈ cs, c ∈ sharedChars) : ρ.numeral c cs = ρ.mantissa c cs := by
  have hrest := ρ.mantissa_rest c cs
  cases hm : ρ.mantissa c cs with
  | mk m rest =>
    rw [hm] at hrest
    cases m with
    | error fault =>
      unfold numeral
      rw [hm]
    | ok m =>
      exact numeral_of_mantissa hm (h.no_exponent fun d hd => hcs d (hrest.mem hd))

namespace Agree

variable {ρ ρ' : Rules} (h : ρ.Agree ρ')
include h

theorem mantissaTail (seen : Bool) {cs : List Char} (hcs : ∀ c ∈ cs, c ∈ sharedChars) :
    ρ.mantissaTail seen cs = ρ'.mantissaTail seen cs := by
  induction cs generalizing seen with
  | nil => rfl
  | cons c cs ih =>
    obtain ⟨hc, hrest⟩ := List.forall_mem_cons.mp hcs
    rw [Rules.mantissaTail, Rules.mantissaTail, h.left.exponent c hc, h.right.exponent c hc,
      h.digit c hc, ih seen hrest, ih true hrest]

theorem mantissa (c : Char) {cs : List Char} (hcs : ∀ c ∈ cs, c ∈ sharedChars) :
    ρ.mantissa c cs = ρ'.mantissa c cs := by
  unfold Rules.mantissa
  rw [h.mantissaTail false hcs, h.radix]

theorem scanNumeral (c : Char) {cs : List Char} (hcs : ∀ c ∈ cs, c ∈ sharedChars) :
    ρ.scanNumeral c cs = ρ'.scanNumeral c cs := by
  unfold Rules.scanNumeral
  rw [h.left.numeral_eq c hcs, h.right.numeral_eq c hcs, h.mantissa c hcs, h.nameKind]

theorem symbol {c : Char} {cs : List Char} (hc : c ∈ sharedChars) (hne : c ≠ '>') :
    ρ.symbol c cs = ρ'.symbol c cs := by
  have hsingle : ρ.single c = ρ'.single c := by
    funext ds
    unfold single
    rw [h.kindOf c hc hne]
  cases cs with
  | nil => exact congrFun hsingle []
  | cons d cs =>
    simp only [Rules.symbol, h.left.compound c hc hne, h.right.compound c hc hne, hsingle]

theorem name (c : Char) {cs : List Char} (hcs : ∀ c ∈ cs, c ∈ sharedChars) :
    ρ.name c cs = ρ'.name c cs := by
  obtain ⟨htake, hdrop⟩ := takeWhile_congr fun c hc => h.letter c (hcs c hc)
  unfold Rules.name
  rw [htake, hdrop, h.nameKind]

theorem scan {c : Char} {cs : List Char} (ht : SharedText (c :: cs)) :
    ρ.scan c cs = ρ'.scan c cs := by
  obtain ⟨hc, hcs⟩ := List.forall_mem_cons.mp ht.chars
  have hne : c ≠ '>' := fun e => ht.first (congrArg some e)
  unfold Rules.scan
  rw [h.punctuator c hc, h.reserves c hc, h.letter c hc, h.digit c hc, h.symbol hc hne,
    h.name c hcs, h.scanNumeral c hcs]

end Agree

theorem mantissa_cut {ρ : Rules} {c : Char} (hc : c ≠ '-') (cs : List Char)
    (hdash : ρ.grammar.isDigit '-' = false) :
    ∃ part, cs = part ++ (ρ.mantissa c cs).2 ∧ '-' ∉ c :: part := by
  obtain ⟨behind, hbehind⟩ := ρ.mantissaTail_prefix false cs
  obtain ⟨ds, fs, hall, htail⟩ := ρ.mantissaTail_digits false cs
  have hdigits : '-' ∉ ds ∧ '-' ∉ fs := by
    constructor
    · intro hin
      have := hall '-' (List.mem_append_left _ hin)
      rw [hdash] at this
      cases this
    · intro hin
      have := hall '-' (List.mem_append_right _ hin)
      rw [hdash] at this
      cases this
  have hno : '-' ∉ ρ.mantissaTail false cs := by
    rcases htail with htail | ⟨-, htail⟩
    · rw [htail]
      exact hdigits.1
    · rw [htail]
      simp [hdigits]
  have hsuffix : '-' ∉ Literal.writeSuffix (takeSuffix behind).1 := by
    have hdec := takeSuffix_digits behind
    cases hs : (takeSuffix behind).1 with
    | none => exact List.not_mem_nil
    | some suffix =>
      intro hin
      rcases List.mem_cons.mp hin with e | hin
      · cases e
      · exact absurd (hdec suffix hs '-' hin) (by decide)
  refine ⟨ρ.mantissaTail false cs ++ Literal.writeSuffix (takeSuffix behind).1, ?_, ?_⟩
  · have hrest : (ρ.mantissa c cs).2 = (takeSuffix behind).2 := by
      rw [mantissa_eq rfl hbehind]
      split
      · rename_i hsuf
        rw [hsuf]
      · rename_i hsuf
        rw [hsuf]
    rw [hrest, List.append_assoc, writeSuffix_takeSuffix, hbehind]
  · simp [Ne.symm hc, hno, hsuffix]

/-- what a scan leaves of a shared text is shared -/
theorem ReadsShared.scan_rest {ρ : Rules} (h : ρ.ReadsShared) {c : Char} {cs : List Char}
    (ht : SharedText (c :: cs)) : SharedText (ρ.scan c cs).rest := by
  obtain ⟨hc, hcs⟩ := List.forall_mem_cons.mp ht.chars
  obtain ⟨hpunctuator, -, hletter, hdigit⟩ := h.dash
  rw [scan_eq_reading]
  have hdash (hr : ρ.reading c ≠ .symbol) : c ≠ '-' := by
    rintro rfl
    exact hr (if_pos hpunctuator)
  cases hr : ρ.reading c with
  | symbol =>
    have hne : c ≠ '>' := fun e => ht.first (congrArg some e)
    cases cs with
    | nil =>
      show SharedText (ρ.single c []).rest
      rw [single_rest]
      exact SharedText.nil
    | cons d cs =>
      show SharedText (ρ.symbol c (d :: cs)).rest
      simp only [symbol, h.compound c hc hne]
      by_cases harrow : c = '-' ∧ d = '>'
      · obtain ⟨rfl, rfl⟩ := harrow
        exact SharedText.drop ['-', '>'] ht fun _ => by decide
      · rw [if_neg harrow]
        show SharedText (ρ.single c (d :: cs)).rest
        rw [single_rest]
        refine SharedText.drop [c] ht fun hd hlast => harrow ⟨?_, ?_⟩
        · exact Option.some.inj hlast
        · exact Option.some.inj hd
  | name =>
    have hno := hdash (by rw [hr]; decide)
    refine SharedText.drop_of_not_mem (c :: cs.takeWhile ρ.grammar.isLetter) ?_ ?_
    · show SharedText (c :: (cs.takeWhile _ ++ cs.dropWhile _))
      rw [List.takeWhile_append_dropWhile]
      exact ht
    · intro hin
      rcases List.mem_cons.mp hin with e | hin
      · exact hno e.symm
      · have := all_takeWhile _ hin
        rw [hletter] at this
        cases this
  | numeral =>
    have hno := hdash (by rw [hr]; decide)
    obtain ⟨part, hpart, hnot⟩ := mantissa_cut hno cs hdigit
    have hrest : (ρ.scanNumeral c cs).rest = (ρ.mantissa c cs).2 := by
      rw [← h.numeral_eq c hcs]
      unfold scanNumeral
      split
      · rename_i hn
        rw [hn]
      · rename_i hn
        rw [hn]
    show SharedText (ρ.scanNumeral c cs).rest
    rw [hrest]
    refine SharedText.drop_of_not_mem (c :: part) ?_ hnot
    rw [List.cons_append, ← hpart]
    exact ht
  | unknown =>
    have hno := hdash (by rw [hr]; decide)
    refine SharedText.drop_of_not_mem [c] ht ?_
    simpa using Ne.symm hno

end Rules

/-! ## the two modes -/

namespace Mode

theorem not_marker (mode : Mode) {c : Char} (hc : c ∈ sharedChars) :
    mode.markers.contains c = false ∧ mode.signedMarkers.contains c = false := by
  have hall : sharedChars.all (fun c =>
      !mode.markers.contains c && !mode.signedMarkers.contains c) = true := by
    cases mode <;> decide +kernel
  have h := List.all_eq_true.mp hall c hc
  rw [Bool.and_eq_true, Bool.not_eq_true', Bool.not_eq_true'] at h
  exact h

/-- of the kinds with names of two characters, those but the arrow do not start with a shared
character, `>` apart -/
theorem arrow_only (mode : Mode) :
    mode.language.kindNamed ['-', '>'] = some arrowKind ∧
    mode.language.kinds.all (fun k => match k.name with
      | [c, d] => (c = '-' && d = '>') || c = '>' || !sharedChars.contains c
      | _ => true) = true := by
  cases mode <;> decide +kernel

theorem compound_shared (mode : Mode) {c : Char} (hc : c ∈ sharedChars) (hne : c ≠ '>') (d : Char) :
    mode.compound mode.language c d = if c = '-' ∧ d = '>' then some arrowKind else none := by
  obtain ⟨harrow, hnames⟩ := mode.arrow_only
  split
  · rename_i h
    obtain ⟨rfl, rfl⟩ := h
    cases mode with
    | scientific => exact harrow
    | programmer => exact harrow
  · rename_i h
    refine Option.eq_none_iff_forall_ne_some.mpr fun k hk => h ?_
    have hnamed := Rules.compound_named hk
    have hname := Grammar.name_of_kindNamed hnamed
    have htable := List.all_eq_true.mp hnames k (Grammar.mem_kinds_of_kindNamed hnamed)
    rw [hname] at htable
    simpa [hne, hc] using htable

theorem readsShared (mode : Mode) (radix : Radix) : (mode.rules radix).ReadsShared where
  exponent c hc cs := by
    obtain ⟨hmarker, hsigned⟩ := mode.not_marker hc
    cases cs with
    | nil => exact hmarker
    | cons d cs =>
      show (mode.markers.contains c || (mode.signedMarkers.contains c && isSign d)) = false
      rw [hmarker, hsigned]
      rfl
  compound c hc hne d := mode.compound_shared hc hne d
  dash := by
    show mode.language.isPunctuator '-' = true ∧ mode.language.isWhitespace '-' = false ∧
      mode.language.isLetter '-' = false ∧ mode.language.isDigit '-' = false
    cases mode <;> decide +kernel

/-- have the modes the same classes and the same kind for a character -/
def sameClasses (c : Char) : Bool :=
  scientific.language.isWhitespace c == programmer.language.isWhitespace c
    && scientific.language.isPunctuator c == programmer.language.isPunctuator c
    && scientific.language.isLetter c == programmer.language.isLetter c
    && scientific.language.isDigit c == programmer.language.isDigit c
    && scientific.reserves c == programmer.reserves c
    && (c = '>' || scientific.language.kindOf c = programmer.language.kindOf c)

theorem sameClasses_shared : ∀ c ∈ sharedChars, sameClasses c = true :=
  List.all_eq_true.mp (by decide +kernel)

theorem rules_agree (radix : Radix) : (scientific.rules radix).Agree (programmer.rules radix) := by
  have h := sameClasses_shared
  simp only [sameClasses, Bool.and_eq_true, beq_iff_eq, Bool.or_eq_true, decide_eq_true_eq] at h
  refine ⟨scientific.readsShared radix, programmer.readsShared radix, rfl, rfl, ?_, ?_, ?_, ?_,
    fun c hc => (h c hc).1.2, ?_⟩
  all_goals
    intro c hc
    rw [rules_grammar, rules_grammar]
    obtain ⟨⟨⟨⟨⟨hwhitespace, hpunctuator⟩, hletter⟩, hdigit⟩, -⟩, hkind⟩ := h c hc
  · exact hwhitespace
  · exact hpunctuator
  · exact hletter
  · exact hdigit
  · exact hkind.resolve_left

end Mode

/-! ## pull after pull -/

namespace Lexer

/-- lexers at the same place of one text, shared from there on -/
structure Twin (l l' : Lexer) : Prop where
  rules : l.rules.Agree l'.rules
  source : l.source = l'.source
  cursor : l.cursor = l'.cursor
  text : SharedText l.rest

variable {l l' : Lexer} (h : l.Twin l')
include h

theorem Twin.rest : l.rest = l'.rest := by
  unfold Lexer.rest
  rw [h.source, h.cursor]

theorem Twin.blanks : l.startOfNext = l'.startOfNext ∧
    l.rest.dropWhile l.rules.grammar.isWhitespace
      = l'.rest.dropWhile l'.rules.grammar.isWhitespace ∧
    SharedText (l.rest.dropWhile l.rules.grammar.isWhitespace) := by
  obtain ⟨htake, hdrop⟩ := takeWhile_congr fun c hc => h.rules.whitespace c (h.text.chars c hc)
  refine ⟨?_, ?_, ?_⟩
  · unfold startOfNext Lexer.blanks
    rw [htake, h.rest, h.cursor]
  · rw [hdrop, h.rest]
  · refine SharedText.drop_of_not_mem (l.rest.takeWhile l.rules.grammar.isWhitespace) ?_ ?_
    · rw [List.takeWhile_append_dropWhile]
      exact h.text
    · intro hin
      have hblank := all_takeWhile _ hin
      rw [h.rules.left.dash.2.1] at hblank
      cases hblank

theorem Twin.next : l.next.1 = l'.next.1 ∧ l.next.2.Twin l'.next.2 := by
  obtain ⟨hstart, hbehind, htext⟩ := h.blanks
  have hpull : l.next.1 = l'.next.1 ∧ l.next.2.cursor = l'.next.2.cursor := by
    unfold Lexer.next
    rw [← hbehind, ← hstart]
    cases hd : l.rest.dropWhile l.rules.grammar.isWhitespace with
    | nil => exact ⟨rfl, rfl⟩
    | cons c cs =>
      rw [hd] at htext
      simp only [h.rules.scan htext, and_self]
  refine ⟨hpull.1, ⟨?_, ?_, hpull.2, ?_⟩⟩
  · rw [next_rules, next_rules]
    exact h.rules
  · rw [next_source, next_source]
    exact h.source
  · cases hd : l.rest.dropWhile l.rules.grammar.isWhitespace with
    | nil =>
      rw [(next_of_blank hd).2]
      exact SharedText.nil
    | cons c cs =>
      rw [hd] at htext
      rw [(next_of_scan hd).2]
      exact h.rules.left.scan_rest htext

theorem Twin.result (n : Nat) : l.result n = l'.result n := by
  induction n generalizing l l' with
  | zero => exact h.next.1
  | succ n ih => exact ih h.next.2

end Lexer

end Calculator
