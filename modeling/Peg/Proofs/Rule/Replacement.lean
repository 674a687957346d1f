import Peg.Proofs.Grammar.Linking

/-!
# Replacing parts of rules

Any number of the places where a rule stands in another one can be filled with a new rule, at any
depth. What comes out has the same shape down to these places, and it can be linked if the rule and
the new part can be. The rules that a bound rule brings along are no part of the rule and stay as
they are.
-/

namespace Peg.Rule

open Except
open List (Forall₂)

/-! ## Shapes -/

/-- Two rules have the same shape: they are of the same kind and their parts are related. -/
inductive SameShape (R : Rule → Rule → Prop) : Rule → Rule → Prop where
  /-- The same literal. -/
  | literal (t : Text) : SameShape R (.literal t) (.literal t)
  /-- The same class. -/
  | charRange (ranges : List CharRange) : SameShape R (.charRange ranges) (.charRange ranges)
  /-- Any character. -/
  | anyChar : SameShape R .anyChar .anyChar
  /-- Repetitions of related rules within the same quantifier. -/
  | repeated {r r' : Rule} (h : R r r') (quantifier : Quantifier) :
      SameShape R (.repeated r quantifier) (.repeated r' quantifier)
  /-- Positive lookaheads of related rules. -/
  | followedBy {r r' : Rule} (h : R r r') : SameShape R (.followedBy r) (.followedBy r')
  /-- Negative lookaheads of related rules. -/
  | notFollowedBy {r r' : Rule} (h : R r r') : SameShape R (.notFollowedBy r) (.notFollowedBy r')
  /-- Related rules one after the other. -/
  | sequence {items items' : List Rule} (h : Forall₂ R items items') :
      SameShape R (.sequence items) (.sequence items')
  /-- Related alternatives. -/
  | choice {alternatives alternatives' : List Rule} (h : Forall₂ R alternatives alternatives') :
      SameShape R (.choice alternatives) (.choice alternatives')
  /-- The same reference. -/
  | reference (name : Text) (slot : Option Int) :
      SameShape R (.reference name slot) (.reference name slot)
  /-- The same bound rule. -/
  | bound (g : Grammar) (slot : Nat) : SameShape R (.bound g slot) (.bound g slot)

namespace SameShape

variable {R : Rule → Rule → Prop} {r r' : Rule}

/-- Every rule has its own shape. -/
theorem refl (h : ∀ r, R r r) (r : Rule) : SameShape R r r := by
  cases r with
  | literal t => exact .literal t
  | charRange ranges => exact .charRange ranges
  | anyChar => exact .anyChar
  | repeated inner quantifier => exact .repeated (h inner) quantifier
  | followedBy inner => exact .followedBy (h inner)
  | notFollowedBy inner => exact .notFollowedBy (h inner)
  | sequence items => exact .sequence (List.forall₂_same.mpr fun r _ ↦ h r)
  | choice alternatives => exact .choice (List.forall₂_same.mpr fun r _ ↦ h r)
  | reference name slot => exact .reference name slot
  | bound g slot => exact .bound g slot

/-- Two rules have the same shape in either order. -/
theorem flip (h : SameShape R r r') : SameShape (fun r r' ↦ R r' r) r' r := by
  cases h with
  | literal t => exact .literal t
  | charRange ranges => exact .charRange ranges
  | anyChar => exact .anyChar
  | repeated h quantifier => exact .repeated (R := fun r r' ↦ R r' r) h quantifier
  | followedBy h => exact .followedBy h
  | notFollowedBy h => exact .notFollowedBy h
  | sequence h => exact .sequence h.flip
  | choice h => exact .choice h.flip
  | reference name slot => exact .reference name slot
  | bound g slot => exact .bound g slot

end SameShape

/-! ## Replacements -/

/-- The second rule is the first one with the new rule in some of the places of the old one. -/
inductive Replaced (old new : Rule) : Rule → Rule → Prop where
  /-- The old rule is replaced as a whole. -/
  | here : Replaced old new old new
  /-- Parts of the rule are replaced, or none. -/
  | parts {r r' : Rule} (h : SameShape (Replaced old new) r r') : Replaced old new r r'

namespace Replaced

variable {old new r r' : Rule}

/-- Where nothing is replaced the rule stays as it is. -/
theorem refl (r : Rule) : Replaced old new r r := by
  induction r using Rule.induction with
  | literal t => exact .parts (.literal t)
  | charRange ranges => exact .parts (.charRange ranges)
  | anyChar => exact .parts .anyChar
  | repeated inner quantifier ih => exact .parts (.repeated ih quantifier)
  | followedBy inner ih => exact .parts (.followedBy ih)
  | notFollowedBy inner ih => exact .parts (.notFollowedBy ih)
  | sequence items ih => exact .parts (.sequence (List.forall₂_same.mpr ih))
  | choice alternatives ih => exact .parts (.choice (List.forall₂_same.mpr ih))
  | reference name slot => exact .parts (.reference name slot)
  | bound g slot => exact .parts (.bound g slot)

/-- The old rule is replaced as a whole, or what is replaced are parts. -/
theorem here_or_parts (h : Replaced old new r r') :
    r = old ∧ r' = new ∨ SameShape (Replaced old new) r r' := by
  cases h with
  | here => exact .inl ⟨rfl, rfl⟩
  | parts h => exact .inr h

/-! ## Linking -/

variable {slotOf : Text → Option Nat} {old' new' linked : Rule}

theorem exists_linkAll {rs rs' linkeds : List Rule} (h : Forall₂ (Replaced old new) rs rs')
    (link : linkAll slotOf rs = .ok linkeds)
    (each : ∀ r ∈ rs, ∀ r' linked, Replaced old new r r' → r.link slotOf = .ok linked →
      ∃ linked', r'.link slotOf = .ok linked' ∧ Replaced old' new' linked linked') :
    ∃ linkeds', linkAll slotOf rs' = .ok linkeds' ∧
      Forall₂ (Replaced old' new') linkeds linkeds' := by
  obtain ⟨linkeds', links, replaced⟩ := h.exists_square (linkAll_eq_ok_iff.mp link) each
  exact ⟨linkeds', linkAll_eq_ok_iff.mpr links, replaced⟩

/-- A rule with parts replaced can be linked if the rule and the new part can be, and is the linked
rule with the linked new part in the place of the linked old one. -/
theorem exists_link (h : Replaced old new r r') (linkOld : old.link slotOf = .ok old')
    (linkNew : new.link slotOf = .ok new') (link : r.link slotOf = .ok linked) :
    ∃ linked', r'.link slotOf = .ok linked' ∧ Replaced old' new' linked linked' := by
  -- It is enough to look at rules of the same shape: the old rule itself becomes the new one.
  have whole : ∀ r, (∀ r' linked, SameShape (Replaced old new) r r' → r.link slotOf = .ok linked →
      ∃ linked', r'.link slotOf = .ok linked' ∧ Replaced old' new' linked linked') →
      ∀ r' linked, Replaced old new r r' → r.link slotOf = .ok linked →
        ∃ linked', r'.link slotOf = .ok linked' ∧ Replaced old' new' linked linked' := by
    intro r parts r' linked h link
    cases h with
    | here =>
        cases linkOld.symm.trans link
        exact ⟨new', linkNew, .here⟩
    | parts shape => exact parts r' linked shape link
  refine whole r ?_ r' linked h link
  clear h link
  induction r using Rule.induction with
  | literal | charRange | anyChar | reference | bound =>
      intro r' linked shape link
      cases shape
      exact ⟨linked, link, .refl linked⟩
  | repeated inner quantifier ih =>
      intro r' linked shape link
      cases shape with
      | repeated h =>
          obtain ⟨part, linkPart, same⟩ := bind_eq_ok_iff.mp link
          cases same
          obtain ⟨part', linkPart', replaced⟩ := whole inner ih _ part h linkPart
          exact ⟨.repeated part' quantifier, by rw [link_repeated, linkPart']; rfl,
            .parts (.repeated replaced quantifier)⟩
  | followedBy inner ih =>
      intro r' linked shape link
      cases shape with
      | followedBy h =>
          obtain ⟨part, linkPart, same⟩ := bind_eq_ok_iff.mp link
          cases same
          obtain ⟨part', linkPart', replaced⟩ := whole inner ih _ part h linkPart
          exact ⟨.followedBy part', by rw [link_followedBy, linkPart']; rfl,
            .parts (.followedBy replaced)⟩
  | notFollowedBy inner ih =>
      intro r' linked shape link
      cases shape with
      | notFollowedBy h =>
          obtain ⟨part, linkPart, same⟩ := bind_eq_ok_iff.mp link
          cases same
          obtain ⟨part', linkPart', replaced⟩ := whole inner ih _ part h linkPart
          exact ⟨.notFollowedBy part', by rw [link_notFollowedBy, linkPart']; rfl,
            .parts (.notFollowedBy replaced)⟩
  | sequence items ih =>
      intro r' linked shape link
      cases shape with
      | sequence h =>
          obtain ⟨parts, linkParts, same⟩ := bind_eq_ok_iff.mp link
          cases same
          obtain ⟨parts', linkParts', replaced⟩ :=
            exists_linkAll h linkParts fun r mem ↦ whole r (ih r mem)
          exact ⟨.sequence parts', by rw [link_sequence, linkParts']; rfl,
            .parts (.sequence replaced)⟩
  | choice alternatives ih =>
      intro r' linked shape link
      cases shape with
      | choice h =>
          obtain ⟨parts, linkParts, same⟩ := bind_eq_ok_iff.mp link
          cases same
          obtain ⟨parts', linkParts', replaced⟩ :=
            exists_linkAll h linkParts fun r mem ↦ whole r (ih r mem)
          exact ⟨.choice parts', by rw [link_choice, linkParts']; rfl,
            .parts (.choice replaced)⟩

end Replaced

end Peg.Rule
