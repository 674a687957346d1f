import Mathlib.Data.List.Pairwise
import Peg.Proofs.Grammar.History
import Peg.Proofs.Rule.Induction

/-!
# Families of grammars

The family of a grammar is the grammar itself and all grammars that can be entered from its rules.
A grammar may be bound in many places; in the family it counts once. Grammars are told apart by
their stamps, which are different for all grammars of a history.
-/

namespace Peg

/-! ## Parts and grammars of a rule -/

namespace Rule

mutual

/-- The parts of a rule, each as often as it stands there. -/
def parts : Rule → List Rule
  | repeated r quantifier => repeated r quantifier :: r.parts
  | followedBy r => followedBy r :: r.parts
  | notFollowedBy r => notFollowedBy r :: r.parts
  | sequence items => sequence items :: partsAll items
  | choice alternatives => choice alternatives :: partsAll alternatives
  | r => [r]

def partsAll : List Rule → List Rule
  | [] => []
  | r :: rs => r.parts ++ partsAll rs

end

mutual

/-- The grammars that can be entered from a rule, each as often as there is a way to it. -/
def entered : Rule → List Grammar
  | repeated r _ | followedBy r | notFollowedBy r => r.entered
  | sequence rs | choice rs => enteredAll rs
  | bound g _ => enteredIn g
  | _ => []

def enteredAll : List Rule → List Grammar
  | [] => []
  | r :: rs => r.entered ++ enteredAll rs

/-- A grammar and the grammars that can be entered from its rules. -/
def enteredIn : GrammarOf Rule → List Grammar
  | ⟨id, names, rules, start⟩ => ⟨id, names, rules, start⟩ :: enteredAll rules

end

variable {part r : Rule} {g h : Grammar}

theorem mem_partsAll_iff {rs : List Rule} : part ∈ partsAll rs ↔ ∃ r ∈ rs, part ∈ r.parts := by
  induction rs with
  | nil => simp [partsAll]
  | cons r rs ih => simp [partsAll, ih]

theorem mem_enteredAll_iff {rs : List Rule} : h ∈ enteredAll rs ↔ ∃ r ∈ rs, h ∈ r.entered := by
  induction rs with
  | nil => simp [enteredAll]
  | cons r rs ih => simp [enteredAll, ih]

theorem mem_enteredIn_iff : h ∈ enteredIn g ↔ h = g ∨ ∃ r ∈ g.rules, h ∈ r.entered := by
  obtain ⟨id, names, rules, start⟩ := g
  rw [enteredIn, List.mem_cons, mem_enteredAll_iff]

/-- The list of parts holds the parts. -/
theorem mem_parts_iff : part ∈ r.parts ↔ PartOf part r := by
  induction r using Rule.induction with
  | literal | charRange | anyChar | reference | bound => simp [parts]
  | repeated _ _ ih | followedBy _ ih | notFollowedBy _ ih => simp [parts, ih]
  | sequence items ih =>
      simp only [parts, List.mem_cons, mem_partsAll_iff, partOf_sequence_iff]
      exact or_congr_right (exists_congr fun r ↦ and_congr_right fun mem ↦ ih r mem)
  | choice alternatives ih =>
      simp only [parts, List.mem_cons, mem_partsAll_iff, partOf_choice_iff]
      exact or_congr_right (exists_congr fun r ↦ and_congr_right fun mem ↦ ih r mem)

/-- What can be entered from a part of a rule can be entered from the rule. -/
theorem entered_of_part (h' : PartOf part r) (mem : h ∈ part.entered) : h ∈ r.entered := by
  induction h' with
  | refl => exact mem
  | repeated _ _ ih | followedBy _ ih | notFollowedBy _ ih => exact ih
  | sequence mem' _ ih | choice mem' _ ih => exact mem_enteredAll_iff.mpr ⟨_, mem', ih⟩

/-- What can be entered from a grammar that can be entered from a rule can be entered from the
rule. -/
theorem entered_trans (mem : g ∈ r.entered) (mem' : h ∈ enteredIn g) : h ∈ r.entered := by
  induction r using Rule.induction with
  | literal | charRange | anyChar | reference => cases mem
  | repeated _ _ ih | followedBy _ ih | notFollowedBy _ ih => exact ih mem
  | sequence items ih | choice alternatives ih =>
      obtain ⟨r, mem'', entered⟩ := mem_enteredAll_iff.mp mem
      exact mem_enteredAll_iff.mpr ⟨r, mem'', ih r mem'' entered⟩
  | bound g' slot ih =>
      rcases mem_enteredIn_iff.mp mem with rfl | ⟨r, mem'', entered⟩
      · exact mem'
      · exact mem_enteredIn_iff.mpr (.inr ⟨r, mem'', ih r mem'' entered⟩)

/-- What can be entered from a rule that is made of closed grammars is one of them. -/
theorem ComposedOf.mem_of_entered {symbols : Text → Prop} {gs : List Grammar}
    (composed : r.ComposedOf symbols gs) (closed : SelfContained symbols gs)
    (mem : h ∈ r.entered) : h ∈ gs := by
  induction r using Rule.induction with
  | literal | charRange | anyChar | reference => cases mem
  | repeated _ _ ih => exact ih (composed.of_part (.repeated .refl _)) mem
  | followedBy _ ih => exact ih (composed.of_part (.followedBy .refl)) mem
  | notFollowedBy _ ih => exact ih (composed.of_part (.notFollowedBy .refl)) mem
  | sequence items ih =>
      obtain ⟨r, mem', entered⟩ := mem_enteredAll_iff.mp mem
      exact ih r mem' (composed.of_part (.sequence mem' .refl)) entered
  | choice alternatives ih =>
      obtain ⟨r, mem', entered⟩ := mem_enteredAll_iff.mp mem
      exact ih r mem' (composed.of_part (.choice mem' .refl)) entered
  | bound g slot ih =>
      obtain ⟨mem', -⟩ := composed.bound g slot .refl
      rcases mem_enteredIn_iff.mp mem with rfl | ⟨r, mem'', entered⟩
      · exact mem'
      · exact ih r mem'' (closed.composedOf g mem' r mem'') entered

end Rule

/-! ## Families -/

namespace Grammar

/-- The grammar and the grammars that can be entered from its rules, each one once. -/
def family (g : Grammar) : List Grammar := (Rule.enteredIn g).pwFilter fun h h' ↦ h.id ≠ h'.id

def nodes (g : Grammar) : List Rule := g.rules.flatMap Rule.parts

/-- The number of nodes of the rules of a grammar and of the grammars that can be entered from
them. -/
def nodeCount (g : Grammar) : Nat := (g.family.flatMap nodes).length

variable {symbols : Text → Prop} {gs : List Grammar} {g h : Grammar}

theorem mem_nodes_iff {part : Rule} : part ∈ g.nodes ↔ ∃ r ∈ g.rules, Rule.PartOf part r := by
  simp [nodes, Rule.mem_parts_iff]

theorem mem_of_mem_enteredIn (history : History symbols gs) (mem : g ∈ gs)
    (mem' : h ∈ Rule.enteredIn g) : h ∈ gs := by
  rcases Rule.mem_enteredIn_iff.mp mem' with rfl | ⟨r, mem'', entered⟩
  · exact mem
  · have closed := history.selfContained
    exact (closed.composedOf g mem r mem'').mem_of_entered closed entered

/-- In a history nothing that can be entered is missing from the family. -/
theorem mem_family_iff (history : History symbols gs) (mem : g ∈ gs) :
    h ∈ g.family ↔ h ∈ Rule.enteredIn g := by
  constructor
  · exact fun mem' ↦ List.pwFilter_subset _ mem'
  · intro mem'
    by_contra absent
    have other : ∀ h' ∈ g.family, h.id ≠ h'.id := by
      intro h' mem'' same
      have entered := List.pwFilter_subset _ mem''
      have eq : h = h' := history.eq_of_id_eq (mem_of_mem_enteredIn history mem mem')
        (mem_of_mem_enteredIn history mem entered) same
      exact absent (eq ▸ mem'')
    -- Then its stamp is missing from everything that can be entered, itself included.
    have missing : ∀ h' ∈ Rule.enteredIn g, h.id ≠ h'.id := by
      refine (List.forall_mem_pwFilter ?_ h (Rule.enteredIn g)).mp other
      intro x y z differ
      by_contra! same
      exact differ (same.1.trans same.2)
    exact missing h mem' rfl

theorem mem_of_mem_family (history : History symbols gs) (mem : g ∈ gs) (mem' : h ∈ g.family) :
    h ∈ gs :=
  mem_of_mem_enteredIn history mem ((mem_family_iff history mem).mp mem')

theorem self_mem_family (history : History symbols gs) (mem : g ∈ gs) : g ∈ g.family :=
  (mem_family_iff history mem).mpr (Rule.mem_enteredIn_iff.mpr (.inl rfl))

/-- A grammar that is bound in a rule of the family is in the family. -/
theorem mem_family_of_bound (history : History symbols gs) (mem : g ∈ gs) (mem' : h ∈ g.family)
    {r : Rule} (mem'' : r ∈ h.rules) {h' : Grammar} {slot : Nat}
    (part : Rule.PartOf (.bound h' slot) r) : h' ∈ g.family := by
  rw [mem_family_iff history mem] at mem' ⊢
  have self : h' ∈ (Rule.bound h' slot).entered := Rule.mem_enteredIn_iff.mpr (.inl rfl)
  have entered : h' ∈ Rule.enteredIn h :=
    Rule.mem_enteredIn_iff.mpr (.inr ⟨r, mem'', Rule.entered_of_part part self⟩)
  exact @Rule.entered_trans (.bound g 0) h h' mem' entered

end Grammar

end Peg
