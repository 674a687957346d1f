import Peg.Rule.Basic
import Peg.Value

/-!
# Building rules

Rules are built by combinators that check their arguments. Wherever a rule is expected a text will
do, and stands for its literal. Of several bad arguments the first one in reading order is the one
that is refused.
-/

namespace Peg

/-- Why a rule or a grammar cannot be built. -/
inductive DefinitionError where
  /-- A value of the given type stands where a rule or a text belongs. -/
  | notARule (typeName : Text)
  /-- A literal was given a value of the given type for its text. -/
  | literalNotText (typeName : Text)
  /-- A reference was given something else than a name. -/
  | badReferenceName (name : Value)
  /-- A character range without members. -/
  | noRanges
  /-- A range that is not given by two ends. -/
  | notAPair (range : Value)
  /-- A low end that is not a character. -/
  | badRangeStart (low : Value)
  /-- A high end that is not a character. -/
  | badRangeEnd (high : Value)
  /-- A member that is not a character. -/
  | badCharacter (member : Value)
  /-- A range whose low end lies above its high end. -/
  | emptyRange (low high : CodePoint)
  /-- A sequence or choice of a value that has no parts. -/
  | notIterable (typeName : Text)
  /-- A grammar without rules. -/
  | noRules
  /-- A rule with something else than a name for its name. -/
  | badRuleName (name : Value)
  /-- A start rule that the grammar does not define. -/
  | undefinedStart (start : Value)
  /-- A reference to a rule that the grammar does not define. -/
  | undefinedReference (name : Text)
  /-- A value that cannot be looked up in a table because of a part of the given type. -/
  | unkeyable (typeName : Text)

namespace DefinitionError

/-- The wording of the error. -/
def message : DefinitionError → Text
  | notARule typeName => ("expected a rule or a string, got " : Text) ++ typeName
  | literalNotText typeName => ("literal text must be a string, got " : Text) ++ typeName
  | badReferenceName name => ("alias name must be a non-empty string, got " : Text) ++ name.quoted
  | noRanges => "char_range needs at least one range or character"
  | notAPair range => ("range must be a (low, high) pair, got " : Text) ++ range.quoted
  | badRangeStart low => ("range start must be a single character, got " : Text) ++ low.quoted
  | badRangeEnd high => ("range end must be a single character, got " : Text) ++ high.quoted
  | badCharacter member => ("character must be a single character, got " : Text) ++ member.quoted
  | emptyRange low high =>
      ("empty range " : Text) ++ Text.quoted [low] ++ "-" ++ Text.quoted [high]
  | notIterable typeName => ("'" : Text) ++ typeName ++ "' object is not iterable"
  | noRules => "grammar needs at least one rule"
  | badRuleName name => ("rule name must be a non-empty string, got " : Text) ++ name.quoted
  | undefinedStart start => ("start rule '" : Text) ++ start.display ++ "' is not defined"
  | undefinedReference name => ("alias to undefined rule '" : Text) ++ name ++ "'"
  | unkeyable typeName => ("unhashable type: '" : Text) ++ typeName ++ "'"

end DefinitionError

/-- What a combinator is applied to: a rule, or a value that may stand for one. -/
inductive Operand where
  /-- A rule. -/
  | rule (r : Rule)
  /-- A plain value. -/
  | value (v : Value)

namespace Operand

/-- The rule of an operand: a rule is itself and a text its literal. -/
def toRule : Operand → Except DefinitionError Rule
  | rule r => .ok r
  | value (.text t) => .ok (.literal t)
  | value v => .error (.notARule v.typeName)

@[simp] theorem toRule_rule (r : Rule) : (rule r).toRule = .ok r := rfl

/-- The parts of a value: the characters of a text, the items of a list or a tuple. -/
def partsOf : Value → Except DefinitionError (List Operand)
  | .text t => .ok (t.map fun c ↦ value (.text [c]))
  | .list items => .ok (items.map value)
  | .tuple items => .ok (items.map value)
  | v => .error (.notIterable v.typeName)

end Operand

namespace Rule

/-! ## Single characters and texts -/

def literalOf : Value → Except DefinitionError Rule
  | .text t => .ok (.literal t)
  | v => .error (.literalNotText v.typeName)

/-- The character that a value stands for, if it is a text of length one. -/
def character? : Value → Option CodePoint
  | .text [c] => some c
  | _ => none

/-- One argument of a character range: a pair of ends or a single character. -/
def rangeOf : Value → Except DefinitionError CharRange
  | .tuple [low, high] =>
      match character? low, character? high with
      | none, _ => .error (.badRangeStart low)
      | some _, none => .error (.badRangeEnd high)
      | some l, some h => if h < l then .error (.emptyRange l h) else .ok ⟨l, h⟩
  | .tuple items => .error (.notAPair (.tuple items))
  | v =>
      match character? v with
      | some c => .ok (.single c)
      | none => .error (.badCharacter v)

/-- The rule that matches one character of the union of the arguments. -/
def charRangeOf (members : List Value) : Except DefinitionError Rule :=
  if members.isEmpty then .error .noRanges
  else return .charRange (← members.mapM rangeOf)

/-! ## References -/

def referenceTo : Value → Except DefinitionError Rule
  | .text (c :: rest) => .ok (.reference (c :: rest) none)
  | v => .error (.badReferenceName v)

/-! ## Combinations -/

/-- The operand repeated within a quantifier. -/
def repeatedOf (o : Operand) (quantifier : Quantifier) : Except DefinitionError Rule :=
  return .repeated (← o.toRule) quantifier

def optionalOf (o : Operand) : Except DefinitionError Rule := repeatedOf o .optional

def zeroOrMoreOf (o : Operand) : Except DefinitionError Rule := repeatedOf o .zeroOrMore

def oneOrMoreOf (o : Operand) : Except DefinitionError Rule := repeatedOf o .oneOrMore

/-- The rule that succeeds without consuming where the operand matches. -/
def followedByOf (o : Operand) : Except DefinitionError Rule :=
  return .followedBy (← o.toRule)

/-- The rule that succeeds without consuming where the operand fails. -/
def notFollowedByOf (o : Operand) : Except DefinitionError Rule :=
  return .notFollowedBy (← o.toRule)

/-- The operands one after the other. -/
def sequenceOf (operands : List Operand) : Except DefinitionError Rule :=
  return .sequence (← operands.mapM Operand.toRule)

/-- The first of the operands that matches. -/
def choiceOf (operands : List Operand) : Except DefinitionError Rule :=
  return .choice (← operands.mapM Operand.toRule)

end Rule

end Peg
