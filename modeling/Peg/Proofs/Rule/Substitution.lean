import Peg.Proofs.Evaluation.Simulation
import Peg.Proofs.Grammar.Linking

/-!
# Substitution

Other rules can be put in the place of the references and the bound rules of a rule; everything else
stays as it is. A rule can be linked afterwards if what was put in can be linked, and it runs as
before if what was put in runs like what it replaces.
-/

namespace Peg

namespace Rule

section Substitute

variable (onReference : Text → Option Int → Rule) (onBound : Grammar → Nat → Rule)

mutual

/-- The rule with other rules in the place of its references and bound rules. -/
def substitute : Rule → Rule
  | literal t => literal t
  | charRange ranges => charRange ranges
  | anyChar => anyChar
  | repeated inner quantifier => repeated inner.substitute quantifier
  | followedBy inner => followedBy inner.substitute
  | notFollowedBy inner => notFollowedBy inner.substitute
  | sequence items => sequence (substituteAll items)
  | choice alternatives => choice (substituteAll alternatives)
  | reference name slot => onReference name slot
  | bound grammar slot => onBound grammar slot

def substituteAll : List Rule → List Rule
  | [] => []
  | r :: rest => r.substitute :: substituteAll rest

end

/-- In the rules of a list rules are replaced one by one. -/
theorem substituteAll_eq_map (rs : List Rule) :
    substituteAll onReference onBound rs = rs.map (substitute onReference onBound) := by
  induction rs with
  | nil => rfl
  | cons r rs ih => rw [substituteAll, ih, List.map_cons]

variable {onReference onBound} {slotOf : Text → Option Nat}

/-- A part of a rule that can be linked can be linked. -/
theorem Linkable.of_part {r part : Rule} (h : r.Linkable slotOf) (h' : PartOf part r) :
    part.Linkable slotOf := by
  induction h' with
  | refl => exact h
  | repeated _ quantifier ih => exact ih ((linkable_repeated _ quantifier).mp h)
  | followedBy _ ih => exact ih ((linkable_followedBy _).mp h)
  | notFollowedBy _ ih => exact ih ((linkable_notFollowedBy _).mp h)
  | sequence mem _ ih => exact ih ((linkable_sequence _).mp h _ mem)
  | choice mem _ ih => exact ih ((linkable_choice _).mp h _ mem)

/-- A rule can be linked if what stands in the place of its references and bound rules can be. -/
theorem linkable_substitute {r : Rule}
    (reference : ∀ name slot, PartOf (.reference name slot) r →
      (onReference name slot).Linkable slotOf)
    (bound : ∀ g slot, PartOf (.bound g slot) r → (onBound g slot).Linkable slotOf) :
    (r.substitute onReference onBound).Linkable slotOf := by
  have all : ∀ rs : List Rule, (∀ r ∈ rs, (r.substitute onReference onBound).Linkable slotOf) →
      ∀ r ∈ substituteAll onReference onBound rs, r.Linkable slotOf := by
    intro rs h
    rw [substituteAll_eq_map]
    exact List.forall_mem_map.mpr h
  induction r using Rule.induction with
  | literal t => exact linkable_literal t
  | charRange ranges => exact linkable_charRange ranges
  | anyChar => exact linkable_anyChar
  | repeated inner quantifier ih =>
      exact (linkable_repeated _ quantifier).mpr <| ih
        (fun name slot part ↦ reference name slot (part.repeated quantifier))
        (fun g slot part ↦ bound g slot (part.repeated quantifier))
  | followedBy inner ih =>
      exact (linkable_followedBy _).mpr <| ih
        (fun name slot part ↦ reference name slot part.followedBy)
        (fun g slot part ↦ bound g slot part.followedBy)
  | notFollowedBy inner ih =>
      exact (linkable_notFollowedBy _).mpr <| ih
        (fun name slot part ↦ reference name slot part.notFollowedBy)
        (fun g slot part ↦ bound g slot part.notFollowedBy)
  | sequence items ih =>
      exact (linkable_sequence _).mpr <| all items fun r mem ↦ ih r mem
        (fun name slot part ↦ reference name slot (part.sequence mem))
        (fun g slot part ↦ bound g slot (part.sequence mem))
  | choice alternatives ih =>
      exact (linkable_choice _).mpr <| all alternatives fun r mem ↦ ih r mem
        (fun name slot part ↦ reference name slot (part.choice mem))
        (fun g slot part ↦ bound g slot (part.choice mem))
  | reference name slot => exact reference name slot .refl
  | bound g slot => exact bound g slot .refl

end Substitute

end Rule

/-! ## Runs -/

section Runs

variable {find find' : Resolver} {input : Array CodePoint} {R : Rule → Rule → Prop}
  {onReference : Text → Option Int → Rule} {onBound : Grammar → Nat → Rule} {P : Rule → Prop}

/-- Rules with some property that their parts share are simulated by what they become, if what is
put in the place of references and bound rules with that property is built like them. -/
theorem simulation_substitute (parts : ∀ r part, P r → Rule.PartOf part r → P part)
    (reference : ∀ name slot, P (.reference name slot) →
      Alike find find' input (fun r r' ↦ P r ∧ r' = r.substitute onReference onBound)
        (.reference name slot) (onReference name slot))
    (bound : ∀ g slot, P (.bound g slot) →
      Alike find find' input (fun r r' ↦ P r ∧ r' = r.substitute onReference onBound)
        (.bound g slot) (onBound g slot)) :
    Simulation find find' input fun r r' ↦ P r ∧ r' = r.substitute onReference onBound := by
  have all : ∀ rs : List Rule, (∀ r ∈ rs, P r) →
      List.Forall₂ (fun r r' ↦ P r ∧ r' = r.substitute onReference onBound) rs
        (Rule.substituteAll onReference onBound rs) := by
    intro rs h
    rw [Rule.substituteAll_eq_map]
    exact List.forall₂_map_right_iff.mpr (List.forall₂_same.mpr fun r mem ↦ ⟨h r mem, rfl⟩)
  rintro r _ ⟨h, rfl⟩
  cases r with
  | literal t => exact .literal t
  | charRange ranges => exact .charRange ranges
  | anyChar => exact .anyChar
  | repeated inner quantifier => exact .repeated ⟨parts _ _ h (.repeated .refl _), rfl⟩ quantifier
  | followedBy inner => exact .followedBy ⟨parts _ _ h (.followedBy .refl), rfl⟩
  | notFollowedBy inner => exact .notFollowedBy ⟨parts _ _ h (.notFollowedBy .refl), rfl⟩
  | sequence items => exact .sequence (all items fun r mem ↦ parts _ _ h (.sequence mem .refl))
  | choice alternatives =>
      exact .choice (all alternatives fun r mem ↦ parts _ _ h (.choice mem .refl))
  | reference name slot => exact reference name slot h
  | bound g slot => exact bound g slot h

end Runs

end Peg
