import Peg.Match

/-!
# Matching nothing

Nothing, in place of a text, has no characters, so a rule runs on it as on the empty text. But it is
no text, and a literal cannot be compared with it: a run that comes to a literal is cut off.

The rules for nothing are those of the grammar with all literals *barred*, that is replaced by
references that lead nowhere.
-/

namespace Peg

namespace Rule

mutual

/-- The rule with its literals barred. Rules bound to other grammars stay as they are. -/
def barLiterals : Rule → Rule
  | literal t => .reference t none
  | charRange ranges => .charRange ranges
  | anyChar => .anyChar
  | repeated inner quantifier => .repeated inner.barLiterals quantifier
  | followedBy inner => .followedBy inner.barLiterals
  | notFollowedBy inner => .notFollowedBy inner.barLiterals
  | sequence items => .sequence (barAllLiterals items)
  | choice alternatives => .choice (barAllLiterals alternatives)
  | reference name slot => .reference name slot
  | bound grammar slot => .bound grammar slot

def barAllLiterals : List Rule → List Rule
  | [] => []
  | r :: rest => r.barLiterals :: barAllLiterals rest

end

end Rule

namespace Grammar

/-- The grammar with the literals of its rules barred. -/
def barLiterals (g : Grammar) : Grammar := { g with rules := g.rules.map Rule.barLiterals }

end Grammar

end Peg
