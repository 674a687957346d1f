import Peg.Proofs.Notation.Derivation

/-!
# Printing rules

A rule is printed in the notation with parentheses around every part that could be taken for
something else. In a literal and in a class a backslash stands before the characters that would
mean something else there.
-/

namespace Peg

/-! ## Characters, literals and classes -/

namespace Notation

/-- A character with a backslash before it if it is special. -/
def spelling (special : Text) (c : CodePoint) : Text :=
  if special.contains c then ['\\', c] else [c]

/-- The characters that mean something else between quotes. -/
def specialInLiteral : Text := "'\\"

/-- The characters that mean something else between brackets. -/
def specialInClass : Text := "\\]^-"

def printLiteral (t : Text) : Text :=
  ("'" : Text) ++ t.flatMap (spelling specialInLiteral) ++ "'"

/-- The ends of a range with a dash between them. -/
def printRange (r : CharRange) : Text :=
  spelling specialInClass r.low ++ "-" ++ spelling specialInClass r.high

def printClass (ranges : List CharRange) : Text :=
  ("[" : Text) ++ ranges.flatMap printRange ++ "]"

end Notation

/-! ## Rules -/

namespace Rule

open Notation

mutual

/-- The rule in the notation; a bound rule has none. -/
def print : Rule → Text
  | literal t => printLiteral t
  | charRange ranges => printClass ranges
  | anyChar => "."
  | repeated inner quantifier => ("(" : Text) ++ inner.print ++ ")" ++ quantifier.symbol
  | followedBy inner => ("&(" : Text) ++ inner.print ++ ")"
  | notFollowedBy inner => ("!(" : Text) ++ inner.print ++ ")"
  | sequence [notFollowedBy (charRange []), anyChar] => "[^]"
  | sequence items => ("(" : Text) ++ printAll " " items ++ ")"
  | choice [] => "[]"
  | choice alternatives => ("(" : Text) ++ printAll " / " alternatives ++ ")"
  | reference name _ => name
  | bound _ _ => []

def printAll (separator : Text) : List Rule → Text
  | [] => []
  | r :: rest => r.print ++ printBehind separator rest

/-- The rules with a separator before each of them. -/
def printBehind (separator : Text) : List Rule → Text
  | [] => []
  | r :: rest => separator ++ r.print ++ printBehind separator rest

end

mutual

def unlinked : Rule → Rule
  | literal t => literal t
  | charRange ranges => charRange ranges
  | anyChar => anyChar
  | repeated inner quantifier => repeated inner.unlinked quantifier
  | followedBy inner => followedBy inner.unlinked
  | notFollowedBy inner => notFollowedBy inner.unlinked
  | sequence items => sequence (unlinkedAll items)
  | choice alternatives => choice (unlinkedAll alternatives)
  | reference name _ => reference name none
  | bound grammar slot => bound grammar slot

def unlinkedAll : List Rule → List Rule
  | [] => []
  | r :: rest => r.unlinked :: unlinkedAll rest

end

/-- The rules of a list are unlinked one by one. -/
theorem unlinkedAll_eq_map (rs : List Rule) : unlinkedAll rs = rs.map unlinked := by
  induction rs with
  | nil => rfl
  | cons r rs ih => rw [unlinkedAll, ih, List.map_cons]

end Rule

/-! ## Tables -/

/-- A name that may stand in the notation. -/
def Text.IsIdentifier : Text → Prop
  | [] => False
  | c :: rest => c.isIdentifierStart = true ∧ ∀ d ∈ rest, d.isIdentifierContinue = true

/-- The rules that the notation can express if the rules of the given names are there. -/
inductive Rule.Printable (names : List Text) : Rule → Prop where
  /-- Any text. -/
  | literal (t : Text) : Printable names (.literal t)
  /-- Ranges that are not empty, at least one. -/
  | charRange {ranges : List CharRange} (ranges_ne_nil : ranges ≠ [])
      (low_le_high : ∀ r ∈ ranges, r.low ≤ r.high) : Printable names (.charRange ranges)
  /-- Any character. -/
  | anyChar : Printable names .anyChar
  /-- A repetition of a known kind. -/
  | repeated {inner : Rule} (h : Printable names inner) {quantifier : Quantifier}
      (known : ∀ symbol, quantifier ≠ .unknown symbol) :
      Printable names (.repeated inner quantifier)
  /-- A positive lookahead. -/
  | followedBy {inner : Rule} (h : Printable names inner) : Printable names (.followedBy inner)
  /-- A negative lookahead. -/
  | notFollowedBy {inner : Rule} (h : Printable names inner) :
      Printable names (.notFollowedBy inner)
  /-- Any character outside of an empty class. -/
  | outsideNothing : Printable names (.sequence [.notFollowedBy (.charRange []), .anyChar])
  /-- None or several rules one after the other. -/
  | sequence {items : List Rule} (h : ∀ r ∈ items, Printable names r) (several : items.length ≠ 1) :
      Printable names (.sequence items)
  /-- None or several alternatives. -/
  | choice {alternatives : List Rule} (h : ∀ r ∈ alternatives, Printable names r)
      (several : alternatives.length ≠ 1) : Printable names (.choice alternatives)
  /-- A reference to one of the rules, linked or not. -/
  | reference {name : Text} (mem : name ∈ names) (slot : Option Int) :
      Printable names (.reference name slot)

namespace Notation

/-- The named rules in the notation, one a line. -/
def print (table : List (Text × Rule)) : Text :=
  table.flatMap fun (name, r) ↦ (name ++ " <- " ++ r.print).line

def unlinked (table : List (Text × Rule)) : List (Text × Rule) :=
  table.map fun (name, r) ↦ (name, r.unlinked)

/-- The tables of named rules that the notation can express. -/
structure Printable (table : List (Text × Rule)) : Prop where
  /-- There is a rule. -/
  ne_nil : table ≠ []
  /-- The names are identifiers. -/
  identifiers : ∀ entry ∈ table, entry.1.IsIdentifier
  /-- The names are different. -/
  nodup : (table.map Prod.fst).Nodup
  /-- The rules can be expressed. -/
  rules : ∀ entry ∈ table, entry.2.Printable (table.map Prod.fst)

end Notation

end Peg
