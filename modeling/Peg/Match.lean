import Peg.Evaluate
import Peg.Text.Quoted

/-!
# Matching texts

What a caller can ask of a rule and of a grammar: the tree at a position, the stretch that it
consumes at the beginning of a text, whether it matches there, and both of these for the whole text.
-/

namespace Peg

/-- The number of nested runs that rules get. -/
def frameLimit : Nat := 1000

/-- The stretch of a text that a rule consumed. -/
structure Span where
  /-- Where the stretch begins. -/
  start : Nat
  /-- Where it ends. -/
  stop : Nat
  /-- The characters consumed. -/
  value : Text
deriving DecidableEq

namespace Span

/-- The stretch of the text that a tree covers. -/
def ofTree (text : Text) (t : Tree) : Span := ⟨t.start, t.stop, (text.drop t.start).take t.width⟩

end Span

/-- Why a rule gives no answer on a text. -/
inductive MatchError where
  /-- The position lies outside of the text. -/
  | positionOutside (pos : Int) (length : Nat)
  /-- The rule does not match. -/
  | noMatch
  /-- The run was cut off. -/
  | halted (halt : Halt)
deriving DecidableEq

/-- The wording of a halt; running out of frames has none. -/
def Halt.message : Halt → Text
  | outOfFrames => ""
  | unresolved name => ("alias '" : Text) ++ name ++ "' evaluated outside of a grammar"
  | unknownQuantifier symbol => ("unknown repeat kind " : Text) ++ symbol.quoted
  | missingSlot slot => noSuchSlotMessage slot

def MatchError.message : MatchError → Text
  | positionOutside pos length =>
      ("position " : Text) ++ Text.ofInt pos ++ " outside of input (0.." ++ Text.ofNat length ++ ")"
  | noMatch => "no match"
  | halted halt => halt.message

namespace Rule

/-- The tree of a rule at a position of a text, or `none` where it fails. -/
def evaluate (frames : Nat) (r : Rule) (text : Text) (pos : Int) :
    Except MatchError (Option Tree) :=
  if 0 ≤ pos ∧ pos ≤ text.length then
    (eval text.toArray frames none r pos.toNat).mapError .halted
  else .error (.positionOutside pos text.length)

/-- At a position of the text a rule gives what its run gives. -/
theorem evaluate_natCast (frames : Nat) (r : Rule) {text : Text} {pos : Nat}
    (within : pos ≤ text.length) :
    r.evaluate frames text pos = (eval text.toArray frames none r pos).mapError .halted :=
  if_pos ⟨Int.natCast_nonneg pos, Int.ofNat_le.mpr within⟩

/-- The stretch that a rule consumes at the beginning of a text. -/
def parse (frames : Nat) (r : Rule) (text : Text) : Except MatchError Span := do
  match ← r.evaluate frames text 0 with
  | some t => .ok (.ofTree text t)
  | none => .error .noMatch

/-- The whole text as one stretch, if the rule consumes all of it. -/
def parseAll (frames : Nat) (r : Rule) (text : Text) : Except MatchError Span := do
  match ← r.evaluate frames text 0 with
  | some t => if t.stop = text.length then .ok (.ofTree text t) else .error .noMatch
  | none => .error .noMatch

/-- Whether a rule matches at the beginning of a text. -/
def accepts (frames : Nat) (r : Rule) (text : Text) : Except MatchError Bool := do
  return (← r.evaluate frames text 0).isSome

/-- Whether a rule consumes the whole text. -/
def acceptsAll (frames : Nat) (r : Rule) (text : Text) : Except MatchError Bool := do
  match ← r.evaluate frames text 0 with
  | some t => return t.stop = text.length
  | none => return false

end Rule

namespace Grammar

/-- The rule that the grammar starts with, bound to the grammar. -/
def startRule (g : Grammar) : Rule := .bound g ((g.slot? g.start).getD 0)

/-- The stretch that the start rule consumes at the beginning of a text. -/
def parse (frames : Nat) (g : Grammar) (text : Text) : Except MatchError Span :=
  g.startRule.parse frames text

/-- The whole text as one stretch, if the start rule consumes all of it. -/
def parseAll (frames : Nat) (g : Grammar) (text : Text) : Except MatchError Span :=
  g.startRule.parseAll frames text

/-- Whether the start rule matches at the beginning of a text. -/
def accepts (frames : Nat) (g : Grammar) (text : Text) : Except MatchError Bool :=
  g.startRule.accepts frames text

/-- Whether the start rule consumes the whole text. -/
def acceptsAll (frames : Nat) (g : Grammar) (text : Text) : Except MatchError Bool :=
  g.startRule.acceptsAll frames text

end Grammar

end Peg
