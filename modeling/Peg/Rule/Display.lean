import Peg.Rule.Basic
import Peg.Text.Quoted

/-!
# Rules and grammars as text

A rule is shown as the tree of its parts with their names. A bound rule is shown by its name alone,
and a grammar by its start rule and the names of its rules, so the text stays finite where rules
refer to each other.
-/

namespace Peg

def CharRange.display (r : CharRange) : Text :=
  Text.inParentheses [Text.quoted [r.low], Text.quoted [r.high]]

namespace Rule

mutual

/-- The rule as text. -/
def display : Rule → Text
  | literal t => ("Literal(text=" : Text) ++ t.quoted ++ ")"
  | charRange ranges =>
      ("CharRange(ranges=" : Text) ++ Text.inParentheses (ranges.map CharRange.display) ++ ")"
  | anyChar => "AnyChar()"
  | repeated inner quantifier =>
      ("Repeat(node=" : Text) ++ inner.display ++ ", kind=" ++ quantifier.symbol.quoted ++ ")"
  | followedBy inner => ("And(node=" : Text) ++ inner.display ++ ")"
  | notFollowedBy inner => ("Not(node=" : Text) ++ inner.display ++ ")"
  | sequence items => ("Seq(items=" : Text) ++ Text.inParentheses (displayAll items) ++ ")"
  | choice alternatives =>
      ("Choice(alts=" : Text) ++ Text.inParentheses (displayAll alternatives) ++ ")"
  | reference name slot =>
      let index := (slot.map Text.ofInt).getD "None"
      ("Alias(name=" : Text) ++ name.quoted ++ ", index=" ++ index ++ ")"
  | bound grammar slot =>
      ("Bound(" : Text) ++ ((grammar.nameAt? slot).getD []).quoted ++ ")"

def displayAll : List Rule → List Text
  | [] => []
  | r :: rest => r.display :: displayAll rest

end

end Rule

def GrammarOf.display {R : Type} (g : GrammarOf R) : Text :=
  let names := Text.inBrackets (g.names.map Text.quoted)
  ("Grammar(start=" : Text) ++ g.start.quoted ++ ", rules=" ++ names ++ ")"

end Peg
