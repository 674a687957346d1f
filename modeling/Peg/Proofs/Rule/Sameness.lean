import Peg.Proofs.Rule.Induction
import Peg.Proofs.Rule.Parts
import Peg.Rule.Same

/-!
# Rules that compare equal

The comparison of rules looks at the stamp of a bound grammar and not at what the grammar holds.
Where stamps tell the grammars of two rules apart, rules that compare equal are one rule.
-/

namespace Peg.Rule

/-- The stamps of grammars bound in two rules tell these grammars apart. -/
def StampsTell (r s : Rule) : Prop :=
  ∀ (g h : Grammar) (i j : Nat), PartOf (.bound g i) r → PartOf (.bound h j) s → g.id = h.id → g = h

/-- Stamps that tell the grammars of two rules apart do so for the parts of the rules. -/
theorem StampsTell.parts {r r' s s' : Rule} (h : StampsTell r s) (part : PartOf r' r)
    (part' : PartOf s' s) : StampsTell r' s' :=
  fun g g' i j in' in'' ↦ h g g' i j (in'.trans part) (in''.trans part')

/-- Lists of rules are one list if their rules compare equal one by one and this makes them one
rule. -/
theorem eq_of_sameAll {rs ss : List Rule} (same : sameAll rs ss)
    (one : ∀ r ∈ rs, ∀ s ∈ ss, r.same s → r = s) : rs = ss := by
  induction rs generalizing ss with
  | nil =>
      cases ss with
      | nil => rfl
      | cons s ss => cases same
  | cons r rs ih =>
      cases ss with
      | nil => cases same
      | cons s ss =>
          obtain ⟨first, others⟩ := Bool.and_eq_true_iff.mp same
          rw [one r List.mem_cons_self s List.mem_cons_self first, ih others]
          intro r mem s mem'
          exact one r (List.mem_cons_of_mem _ mem) s (List.mem_cons_of_mem _ mem')

/-- Rules that compare equal are one rule if stamps tell their grammars apart. -/
theorem eq_of_same {r s : Rule} (h : r.same s) (stamps : StampsTell r s) : r = s := by
  induction r using Rule.induction generalizing s with
  | literal t =>
      cases s with
      | literal t' => rw [of_decide_eq_true h]
      | _ => cases h
  | charRange ranges =>
      cases s with
      | charRange ranges' => rw [of_decide_eq_true h]
      | _ => cases h
  | anyChar =>
      cases s with
      | anyChar => rfl
      | _ => cases h
  | repeated r quantifier ih =>
      cases s with
      | repeated s quantifier' =>
          obtain ⟨inner, same⟩ := Bool.and_eq_true_iff.mp h
          rw [ih inner (stamps.parts (.repeated .refl _) (.repeated .refl _)),
            of_decide_eq_true same]
      | _ => cases h
  | followedBy r ih =>
      cases s with
      | followedBy s => rw [ih h (stamps.parts (.followedBy .refl) (.followedBy .refl))]
      | _ => cases h
  | notFollowedBy r ih =>
      cases s with
      | notFollowedBy s => rw [ih h (stamps.parts (.notFollowedBy .refl) (.notFollowedBy .refl))]
      | _ => cases h
  | sequence rs ih =>
      cases s with
      | sequence ss =>
          rw [eq_of_sameAll h fun r mem s mem' same ↦
            ih r mem same (stamps.parts (.sequence mem .refl) (.sequence mem' .refl))]
      | _ => cases h
  | choice rs ih =>
      cases s with
      | choice ss =>
          rw [eq_of_sameAll h fun r mem s mem' same ↦
            ih r mem same (stamps.parts (.choice mem .refl) (.choice mem' .refl))]
      | _ => cases h
  | reference name slot =>
      cases s with
      | reference name' slot' =>
          obtain ⟨names, slots⟩ := Bool.and_eq_true_iff.mp h
          rw [of_decide_eq_true names, of_decide_eq_true slots]
      | _ => cases h
  | bound g i _ =>
      cases s with
      | bound g' i' =>
          obtain ⟨ids, slots⟩ := Bool.and_eq_true_iff.mp h
          rw [stamps g g' i i' .refl .refl (of_decide_eq_true ids), of_decide_eq_true slots]
      | _ => cases h

end Peg.Rule
