import Peg.Rule.Basic

/-!
# Induction over rules

What holds of a rule as soon as it holds of its parts holds of every rule. The parts of a bound rule
are the rules of the grammar it is bound to.
-/

namespace Peg.Rule

/-- Induction over the parts of a rule. -/
theorem induction {motive : Rule → Prop} (literal : ∀ t, motive (.literal t))
    (charRange : ∀ ranges, motive (.charRange ranges)) (anyChar : motive .anyChar)
    (repeated : ∀ inner quantifier, motive inner → motive (.repeated inner quantifier))
    (followedBy : ∀ inner, motive inner → motive (.followedBy inner))
    (notFollowedBy : ∀ inner, motive inner → motive (.notFollowedBy inner))
    (sequence : ∀ items, (∀ r ∈ items, motive r) → motive (.sequence items))
    (choice : ∀ alternatives, (∀ r ∈ alternatives, motive r) → motive (.choice alternatives))
    (reference : ∀ name slot, motive (.reference name slot))
    (bound : ∀ (g : Grammar) slot, (∀ r ∈ g.rules, motive r) → motive (.bound g slot)) (r : Rule) :
    motive r := by
  refine @Rule.rec motive (fun rs ↦ ∀ r ∈ rs, motive r) (fun g ↦ ∀ r ∈ g.rules, motive r)
    literal charRange anyChar repeated followedBy notFollowedBy sequence choice reference bound
    ?_ ?_ ?_ r
  · intro r mem
    cases mem
  · rintro head tail first others r (_ | ⟨_, mem⟩)
    · exact first
    · exact others r mem
  · intro id names rules start all
    exact all

end Peg.Rule
