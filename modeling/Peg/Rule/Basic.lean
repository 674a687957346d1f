import Peg.Text.Basic

/-!
# Parsing expressions

A rule is a parsing expression: it looks at a text from a position on and either fails or consumes a
stretch of characters. Rules refer to each other by name inside a grammar. A grammar keeps its rules
in numbered slots, and a reference is *linked* when it knows the slot of the rule it names. A
*bound* rule is a slot together with its whole grammar, and so can be used anywhere.
-/

namespace Peg

/-! ## Parts of rules -/

/-- A closed range of characters. -/
structure CharRange where
  /-- The lowest member. -/
  low : CodePoint
  /-- The highest member. -/
  high : CodePoint
deriving DecidableEq

namespace CharRange

def single (c : CodePoint) : CharRange := ⟨c, c⟩

/-- The range between two characters, given in either order. -/
def between (c d : CodePoint) : CharRange := if c ≤ d then ⟨c, d⟩ else ⟨d, c⟩

def contains (r : CharRange) (c : CodePoint) : Bool := r.low ≤ c && c ≤ r.high

/-- A range contains what lies between its ends. -/
@[simp] theorem contains_iff (r : CharRange) (c : CodePoint) :
    r.contains c = true ↔ r.low ≤ c ∧ c ≤ r.high := by
  simp [contains]

@[simp] theorem contains_single (c d : CodePoint) : (single c).contains d = true ↔ d = c := by
  simp only [contains_iff, single, Fin.le_def, Fin.ext_iff]
  omega

/-- The range between two characters is never empty. -/
theorem low_le_high_between (c d : CodePoint) : (between c d).low ≤ (between c d).high := by
  unfold between
  split
  · assumption
  · simp only [Fin.le_def] at *
    omega

end CharRange

/-- How often a repeated rule may match. -/
inductive Quantifier where
  /-- At most once. -/
  | optional
  /-- Any number of times. -/
  | zeroOrMore
  /-- At least once. -/
  | oneOrMore
  /-- A symbol without a meaning; a rule that carries it can be built but not run. -/
  | unknown (symbol : Text)
deriving DecidableEq

namespace Quantifier

/-- The quantifier that a symbol stands for. -/
def ofSymbol (symbol : Text) : Quantifier :=
  if symbol = "?" then optional
  else if symbol = "*" then zeroOrMore
  else if symbol = "+" then oneOrMore
  else unknown symbol

def symbol : Quantifier → Text
  | optional => "?"
  | zeroOrMore => "*"
  | oneOrMore => "+"
  | unknown symbol => symbol

/-- Every symbol is the symbol of its quantifier. -/
@[simp] theorem symbol_ofSymbol (symbol : Text) : (ofSymbol symbol).symbol = symbol := by
  unfold ofSymbol
  split
  · simp_all [Quantifier.symbol]
  · split
    · simp_all [Quantifier.symbol]
    · split <;> simp_all [Quantifier.symbol]

end Quantifier

/-! ## Rules and grammars -/

/-- A grammar over rules of type `R`: named rules in numbered slots. -/
structure GrammarOf (R : Type) where
  /-- The stamp that tells the grammar from every other one, even from one with the same rules. -/
  id : Nat
  /-- The rule names by slot. -/
  names : List Text
  /-- The linked rules by slot. -/
  rules : List R
  /-- The name of the rule the grammar starts with. -/
  start : Text

/-- A parsing expression. -/
inductive Rule where
  /-- Exactly the given text. -/
  | literal (text : Text)
  /-- One character that lies in one of the ranges. -/
  | charRange (ranges : List CharRange)
  /-- One character, whichever. -/
  | anyChar
  /-- A rule repeated as often as it goes, within the quantifier. -/
  | repeated (inner : Rule) (quantifier : Quantifier)
  /-- Positive lookahead: succeeds without consuming where the rule matches. -/
  | followedBy (inner : Rule)
  /-- Negative lookahead: succeeds without consuming where the rule fails. -/
  | notFollowedBy (inner : Rule)
  /-- One rule after the other. -/
  | sequence (items : List Rule)
  /-- The first alternative that matches. -/
  | choice (alternatives : List Rule)
  /-- The rule of that name in the grammar at hand; the slot is known once the reference is linked.
  -/
  | reference (name : Text) (slot : Option Int)
  /-- The rule in a slot of a grammar of its own. -/
  | bound (grammar : GrammarOf Rule) (slot : Nat)

/-- A closed set of named rules. -/
abbrev Grammar := GrammarOf Rule

/-! ## Slots -/

/-- The element a possibly negative position stands for: 0 is the first one, -1 the last one. -/
def fromEitherEnd? {α : Type} (xs : List α) : Int → Option α
  | .ofNat n => xs[n]?
  | .negSucc n => xs.reverse[n]?

@[simp] theorem fromEitherEnd?_natCast {α : Type} (xs : List α) (n : Nat) :
    fromEitherEnd? xs n = xs[n]? := rfl

/-- Whether a position takes more than the 64 bits, with a sign, that lists are indexed with. -/
def isOversized (slot : Int) : Bool := slot < -0x8000000000000000 || 0x8000000000000000 ≤ slot

/-- The wording for a position where a list has nothing. -/
def noSuchSlotMessage (slot : Int) : Text :=
  if isOversized slot then "cannot fit 'int' into an index-sized integer"
  else "list index out of range"

namespace GrammarOf

variable {R : Type}

def size (g : GrammarOf R) : Nat := g.names.length

/-- The slot of the rule called `name`. -/
def slot? (g : GrammarOf R) (name : Text) : Option Nat := g.names.idxOf? name

def ruleAt? (g : GrammarOf R) (slot : Int) : Option R := fromEitherEnd? g.rules slot

def nameAt? (g : GrammarOf R) (slot : Int) : Option Text := fromEitherEnd? g.names slot

end GrammarOf

end Peg
