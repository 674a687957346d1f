import Peg.Rule.Basic

/-!
# Equality of rules

Two rules are the same when they have the same shape and the same parts, the slots of references
included. Bound rules are the same when they are the same slot of the same grammar; what that
grammar holds is not compared, so the comparison also ends on grammars that hold one another.
-/

namespace Peg.Rule

mutual

/-- Whether two rules are the same. -/
def same : Rule → Rule → Bool
  | literal s, literal t => s = t
  | charRange r, charRange s => r = s
  | anyChar, anyChar => true
  | repeated r p, repeated s q => same r s && p = q
  | followedBy r, followedBy s => same r s
  | notFollowedBy r, notFollowedBy s => same r s
  | sequence rs, sequence ss => sameAll rs ss
  | choice rs, choice ss => sameAll rs ss
  | reference m i, reference n j => m = n && i = j
  | bound g i, bound h j => g.id = h.id && i = j
  | _, _ => false

def sameAll : List Rule → List Rule → Bool
  | [], [] => true
  | r :: rs, s :: ss => same r s && sameAll rs ss
  | _, _ => false

end

instance : BEq Rule := ⟨same⟩

end Peg.Rule
