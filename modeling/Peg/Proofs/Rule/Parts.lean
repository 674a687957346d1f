import Peg.Rule.Basic

/-!
# Parts of rules

The parts of a rule are the rule itself and the parts of the rules it is made of. A bound rule is
not made of the rules of its grammar: what stands there is not a part of it.
-/

namespace Peg.Rule

/-- One rule stands in another one, bound rules not entered. -/
inductive PartOf (part : Rule) : Rule → Prop where
  /-- A rule is a part of itself. -/
  | refl : PartOf part part
  /-- The inner rule of a repetition. -/
  | repeated {inner : Rule} (h : PartOf part inner) (quantifier : Quantifier) :
      PartOf part (.repeated inner quantifier)
  /-- The inner rule of a positive lookahead. -/
  | followedBy {inner : Rule} (h : PartOf part inner) : PartOf part (.followedBy inner)
  /-- The inner rule of a negative lookahead. -/
  | notFollowedBy {inner : Rule} (h : PartOf part inner) : PartOf part (.notFollowedBy inner)
  /-- An item of a sequence. -/
  | sequence {items : List Rule} {r : Rule} (mem : r ∈ items) (h : PartOf part r) :
      PartOf part (.sequence items)
  /-- An alternative of a choice. -/
  | choice {alternatives : List Rule} {r : Rule} (mem : r ∈ alternatives) (h : PartOf part r) :
      PartOf part (.choice alternatives)

variable {part r : Rule}

/-- A part of a part is a part. -/
theorem PartOf.trans {whole : Rule} (h : PartOf part r) (h' : PartOf r whole) :
    PartOf part whole := by
  induction h' with
  | refl => exact h
  | repeated _ quantifier ih => exact ih.repeated quantifier
  | followedBy _ ih => exact ih.followedBy
  | notFollowedBy _ ih => exact ih.notFollowedBy
  | sequence mem _ ih => exact ih.sequence mem
  | choice mem _ ih => exact ih.choice mem

/-- A literal has no other part. -/
@[simp] theorem partOf_literal_iff {t : Text} : PartOf part (.literal t) ↔ part = .literal t := by
  constructor
  · rintro ⟨⟩
    rfl
  · rintro rfl
    exact .refl

/-- A character range has no other part. -/
@[simp] theorem partOf_charRange_iff {ranges : List CharRange} :
    PartOf part (.charRange ranges) ↔ part = .charRange ranges := by
  constructor
  · rintro ⟨⟩
    rfl
  · rintro rfl
    exact .refl

/-- Any character has no other part. -/
@[simp] theorem partOf_anyChar_iff : PartOf part .anyChar ↔ part = .anyChar := by
  constructor
  · rintro ⟨⟩
    rfl
  · rintro rfl
    exact .refl

/-- A reference has no other part. -/
@[simp] theorem partOf_reference_iff {name : Text} {slot : Option Int} :
    PartOf part (.reference name slot) ↔ part = .reference name slot := by
  constructor
  · rintro ⟨⟩
    rfl
  · rintro rfl
    exact .refl

/-- A bound rule has no other part. -/
@[simp] theorem partOf_bound_iff {g : Grammar} {slot : Nat} :
    PartOf part (.bound g slot) ↔ part = .bound g slot := by
  constructor
  · rintro ⟨⟩
    rfl
  · rintro rfl
    exact .refl

/-- The parts of a repetition are itself and those of its inner rule. -/
@[simp] theorem partOf_repeated_iff {quantifier : Quantifier} :
    PartOf part (.repeated r quantifier) ↔ part = .repeated r quantifier ∨ PartOf part r := by
  constructor
  · rintro (_ | ⟨h, _⟩)
    · exact .inl rfl
    · exact .inr h
  · rintro (rfl | h)
    · exact .refl
    · exact h.repeated quantifier

/-- The parts of a positive lookahead are itself and those of its inner rule. -/
@[simp] theorem partOf_followedBy_iff :
    PartOf part (.followedBy r) ↔ part = .followedBy r ∨ PartOf part r := by
  constructor
  · rintro (_ | _ | h)
    · exact .inl rfl
    · exact .inr h
  · rintro (rfl | h)
    · exact .refl
    · exact h.followedBy

/-- The parts of a negative lookahead are itself and those of its inner rule. -/
@[simp] theorem partOf_notFollowedBy_iff :
    PartOf part (.notFollowedBy r) ↔ part = .notFollowedBy r ∨ PartOf part r := by
  constructor
  · rintro (_ | _ | _ | h)
    · exact .inl rfl
    · exact .inr h
  · rintro (rfl | h)
    · exact .refl
    · exact h.notFollowedBy

/-- The parts of a sequence are itself and those of its items. -/
@[simp] theorem partOf_sequence_iff {items : List Rule} :
    PartOf part (.sequence items) ↔ part = .sequence items ∨ ∃ r ∈ items, PartOf part r := by
  constructor
  · rintro (_ | _ | _ | _ | ⟨mem, h⟩)
    · exact .inl rfl
    · exact .inr ⟨_, mem, h⟩
  · rintro (rfl | ⟨r, mem, h⟩)
    · exact .refl
    · exact h.sequence mem

/-- The parts of a choice are itself and those of its alternatives. -/
@[simp] theorem partOf_choice_iff {alternatives : List Rule} :
    PartOf part (.choice alternatives) ↔
      part = .choice alternatives ∨ ∃ r ∈ alternatives, PartOf part r := by
  constructor
  · rintro (_ | _ | _ | _ | _ | ⟨mem, h⟩)
    · exact .inl rfl
    · exact .inr ⟨_, mem, h⟩
  · rintro (rfl | ⟨r, mem, h⟩)
    · exact .refl
    · exact h.choice mem

end Peg.Rule
