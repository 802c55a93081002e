import Calculator.Ordered
import Calculator.Token.Basic

/-!
# Grammars

A grammar is what lexing and parsing are told about a language: the alphabet, the kinds of tokens
in the order of their registration, what a kind does before and behind an operand, and the
characters that group, call, list and separate.

* `PrefixRole`, `InfixRole`   what a kind does where an operand is expected, and behind one;
* `Entry`                     a registered kind with its roles;
* `Grammar.kindOf c`          the kind of a symbol: a kind named exactly `c` wins, else the first
                              longer one that starts with `c`;
* `Grammar.kindNamed`         the kind with a name, which must not be empty.
-/

namespace Calculator

/-- what a kind does where an operand is expected -/
inductive PrefixRole where
  /-- it is a name or a number by itself -/
  | leaf
  /-- it opens a group -/
  | grouping
  /-- it opens an array -/
  | array
  /-- it is an operator before its operand -/
  | operator
deriving DecidableEq

/-- what a kind does behind an operand -/
inductive InfixRole where
  /-- an operator between operands, grouping to the left -/
  | left
  /-- an operator between operands, grouping to the right -/
  | right
  /-- an operator behind its operand -/
  | suffix
  /-- it opens the arguments of a call -/
  | call
deriving DecidableEq

/-- the three uses of a pair of delimiters -/
inductive Bracket where
  | grouping
  | call
  | array
deriving DecidableEq

/-- the name of the pair in messages -/
def Bracket.label : Bracket → String
  | grouping => "grouping delimiters"
  | call => "function delimiters"
  | array => "array delimiters"

/-- the characters and words of a language -/
structure Alphabet where
  whitespace : OrdSet Char
  punctuators : OrdSet Char
  letters : OrdSet Char
  digits : OrdSet Char
  keywords : OrdSet (List Char)

/-- a registered kind with its roles -/
structure Entry where
  kind : Kind
  prefixRole : Option PrefixRole
  infixRole : Option InfixRole
deriving DecidableEq

structure Grammar where
  alphabet : Alphabet
  entries : List Entry
  grouping : Option (Char × Char)
  callDelimiters : Option (Char × Char)
  arrayDelimiters : Option (Char × Char)
  separator : Option Char
  nameKind : Option Kind

/-- is the kind named by this character alone -/
def Kind.isExactly (k : Kind) (c : Char) : Bool := decide (k.name = [c])

/-- has the kind a longer name that starts with this character -/
def Kind.startsLonger (k : Kind) (c : Char) : Bool :=
  match k.name with
  | d :: _ :: _ => decide (d = c)
  | _ => false

namespace Grammar

/-- the grammar in which nothing is registered -/
def empty : Grammar where
  alphabet := ⟨.empty, .empty, .empty, .empty, .empty⟩
  entries := []
  grouping := none
  callDelimiters := none
  arrayDelimiters := none
  separator := none
  nameKind := none

variable (g : Grammar)

def isWhitespace (c : Char) : Bool := g.alphabet.whitespace.contains c
def isPunctuator (c : Char) : Bool := g.alphabet.punctuators.contains c
def isLetter (c : Char) : Bool := g.alphabet.letters.contains c
def isDigit (c : Char) : Bool := g.alphabet.digits.contains c
def isKeyword (word : List Char) : Bool := g.alphabet.keywords.contains word

/-- the registered kinds, oldest first -/
def kinds : List Kind := g.entries.map Entry.kind

def isKind (k : Kind) : Bool := decide (k ∈ g.kinds)

/-- the entry of a kind -/
def entry? (k : Kind) : Option Entry := g.entries.find? (fun e => decide (e.kind = k))

/-- what the kind does where an operand is expected -/
def prefixRole? (k : Kind) : Option PrefixRole := (g.entry? k).bind Entry.prefixRole

/-- what the kind does behind an operand -/
def infixRole? (k : Kind) : Option InfixRole := (g.entry? k).bind Entry.infixRole

/-- the kinds with a role before an operand, in registration order -/
def prefixKinds : List Kind := (g.entries.filter (·.prefixRole.isSome)).map Entry.kind

/-- the kinds with a role behind an operand, in registration order -/
def infixKinds : List Kind := (g.entries.filter (·.infixRole.isSome)).map Entry.kind

/-- the pair of delimiters for a use -/
def pair : Bracket → Option (Char × Char)
  | .grouping => g.grouping
  | .call => g.callDelimiters
  | .array => g.arrayDelimiters

/-- the kind of a symbol of one character -/
def kindOf (c : Char) : Option Kind :=
  match g.kinds.find? (·.isExactly c) with
  | some k => some k
  | none => g.kinds.find? (·.startsLonger c)

/-- the first registered kind with a name that is not empty -/
def kindNamed (name : List Char) : Option Kind :=
  if name.isEmpty then none else g.kinds.find? (fun k => decide (k.name = name))

/-- the kind of the closing delimiter for a use -/
def closing? (use : Bracket) : Option Kind := (g.pair use).bind fun p => g.kindOf p.2

/-- the kind that separates the items of a list -/
def separator? : Option Kind := g.separator.bind g.kindOf

/-! ## registration -/

/-- a kind without roles behind the kinds so far, unless it is there -/
def addKind (k : Kind) : Grammar :=
  if g.isKind k then g else { g with entries := g.entries ++ [⟨k, none, none⟩] }

/-- changes the entry of a kind -/
def update (k : Kind) (f : Entry → Entry) : Grammar :=
  { g with entries := g.entries.map fun e => if e.kind = k then f e else e }

/-- sets the pair of delimiters for a use -/
def setPair (p : Char × Char) : Bracket → Grammar
  | .grouping => { g with grouping := some p }
  | .call => { g with callDelimiters := some p }
  | .array => { g with arrayDelimiters := some p }

theorem kinds_addKind (k : Kind) :
    (g.addKind k).kinds = if g.isKind k then g.kinds else g.kinds ++ [k] := by
  unfold addKind
  split
  · rfl
  · simp [kinds]

theorem kinds_update (k : Kind) {f : Entry → Entry} (hf : ∀ e, (f e).kind = e.kind) :
    (g.update k f).kinds = g.kinds := by
  simp only [update, kinds, List.map_map]
  refine List.map_congr_left fun e _ => ?_
  show (if e.kind = k then f e else e).kind = e.kind
  split
  · exact hf e
  · rfl

theorem mem_kinds_of_kindOf {c : Char} {k : Kind} (h : g.kindOf c = some k) : k ∈ g.kinds := by
  unfold kindOf at h
  split at h
  · rename_i h'
    cases h
    exact List.mem_of_find?_eq_some h'
  · exact List.mem_of_find?_eq_some h

theorem mem_kinds_of_prefixRole? {k : Kind} {r : PrefixRole} (h : g.prefixRole? k = some r) :
    k ∈ g.kinds := by
  unfold prefixRole? entry? at h
  obtain ⟨e, he, _⟩ := Option.bind_eq_some_iff.mp h
  have hk := List.find?_some he
  exact List.mem_map.mpr ⟨e, List.mem_of_find?_eq_some he, of_decide_eq_true hk⟩

theorem mem_kinds_of_infixRole? {k : Kind} {r : InfixRole} (h : g.infixRole? k = some r) :
    k ∈ g.kinds := by
  unfold infixRole? entry? at h
  obtain ⟨e, he, _⟩ := Option.bind_eq_some_iff.mp h
  have hk := List.find?_some he
  exact List.mem_map.mpr ⟨e, List.mem_of_find?_eq_some he, of_decide_eq_true hk⟩

end Grammar
end Calculator
