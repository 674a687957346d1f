import Peg.Grammar.Build

/-!
# Looking up rules

A rule is taken out of its grammar by name and comes bound to it, or by slot and comes bare.
-/

namespace Peg

/-- Why a lookup finds nothing. -/
inductive LookupError where
  /-- The grammar has no rule of that name. -/
  | undefinedRule (name : Value)
  /-- The grammar has no such slot. -/
  | noSuchSlot (slot : Int)
  /-- The slot is a number that no list can have as a position. -/
  | oversizedSlot (slot : Int)
  /-- The name cannot be looked up because of a part of the given type. -/
  | unkeyable (typeName : Text)

def LookupError.message : LookupError → Text
  | undefinedRule name => ("undefined rule '" : Text) ++ name.display ++ "'"
  | noSuchSlot slot | oversizedSlot slot => noSuchSlotMessage slot
  | unkeyable typeName => (DefinitionError.unkeyable typeName).message

namespace Grammar

/-- The slot of the rule called by a value, if it is the name of one. -/
def slotCalled (g : Grammar) : Value → Except LookupError (Option Nat)
  | .text name => .ok (g.slot? name)
  | v =>
      match v.unkeyable? with
      | some typeName => .error (.unkeyable typeName)
      | none => .ok none

/-- Whether the grammar has a rule of that name. -/
def defines (g : Grammar) (name : Value) : Except LookupError Bool :=
  return (← g.slotCalled name).isSome

/-- The rule of that name, bound to the grammar. -/
def rule (g : Grammar) (name : Value) : Except LookupError Rule := do
  match ← g.slotCalled name with
  | some slot => .ok (.bound g slot)
  | none => .error (.undefinedRule name)

/-- A name that has a slot gives the rule bound in that slot. -/
theorem rule_text {g : Grammar} {name : Text} {slot : Nat} (h : g.slot? name = some slot) :
    g.rule (.text name) = .ok (.bound g slot) := by
  have called : g.slotCalled (.text name) = .ok (some slot) := congrArg Except.ok h
  rw [rule, called]
  rfl

/-- What a lookup by slot finds. -/
def inSlot {α : Type} (slot : Int) (found : Option α) : Except LookupError α :=
  if isOversized slot then .error (.oversizedSlot slot)
  else
    match found with
    | some a => .ok a
    | none => .error (.noSuchSlot slot)

def ruleInSlot (g : Grammar) (slot : Int) : Except LookupError Rule := inSlot slot (g.ruleAt? slot)

/-- The name of the rule in a slot. -/
def nameOf (g : Grammar) (slot : Int) : Except LookupError Text := inSlot slot (g.nameAt? slot)

end Grammar

end Peg
