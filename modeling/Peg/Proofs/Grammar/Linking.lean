import Peg.Grammar.Build
import Peg.Proofs.Result
import Peg.Proofs.Rule.Induction
import Peg.Proofs.Rule.Parts

/-!
# Linking rules

Linking goes through a rule from left to right and gives each reference its slot. It succeeds if
there is a slot for the name of every reference, those inside of bound rules aside.
-/

namespace Peg.Rule

open Except
open List (Forall₂)

variable {slotOf : Text → Option Nat}

/-- Every reference in the rule has a slot. -/
def Linkable (slotOf : Text → Option Nat) (r : Rule) : Prop := ∃ r', r.link slotOf = .ok r'

theorem linkAll_eq_mapM (rs : List Rule) : linkAll slotOf rs = rs.mapM (link slotOf) := by
  induction rs with
  | nil => rfl
  | cons r rs ih => rw [linkAll_cons, ih, List.mapM_cons]

theorem exists_linkAll_iff (rs : List Rule) :
    (∃ rs', linkAll slotOf rs = .ok rs') ↔ ∀ r ∈ rs, Linkable slotOf r := by
  induction rs with
  | nil =>
      constructor
      · rintro - r mem
        cases mem
      · intro _
        exact ⟨[], rfl⟩
  | cons r rs ih =>
      rw [List.forall_mem_cons, ← ih]
      constructor
      · rintro ⟨all, linked⟩
        obtain ⟨r', first, tail⟩ := bind_eq_ok_iff.mp linked
        obtain ⟨rs', others, -⟩ := bind_eq_ok_iff.mp tail
        exact ⟨⟨r', first⟩, rs', others⟩
      · rintro ⟨⟨r', first⟩, rs', others⟩
        exact ⟨r' :: rs', by rw [linkAll_cons, first, others]; rfl⟩

@[simp] theorem linkable_literal (t : Text) : Linkable slotOf (.literal t) := ⟨_, rfl⟩

@[simp] theorem linkable_charRange (ranges : List CharRange) :
    Linkable slotOf (.charRange ranges) := ⟨_, rfl⟩

@[simp] theorem linkable_anyChar : Linkable slotOf .anyChar := ⟨_, rfl⟩

@[simp] theorem linkable_bound (g : Grammar) (slot : Nat) : Linkable slotOf (.bound g slot) :=
  ⟨_, rfl⟩

/-- A reference is linked if there is a slot for its name. -/
@[simp] theorem linkable_reference (name : Text) (slot : Option Int) :
    Linkable slotOf (.reference name slot) ↔ (slotOf name).isSome = true := by
  rw [Linkable, link_reference]
  cases slotOf name with
  | none =>
      constructor
      · rintro ⟨r', linked⟩
        cases linked
      · exact nofun
  | some slot' =>
      constructor
      · exact fun _ ↦ rfl
      · exact fun _ ↦ ⟨.reference name (some slot'), rfl⟩

theorem exists_link_iff {inner : Rule} {wrap : Rule → Rule} :
    (∃ r', (do return wrap (← inner.link slotOf) : Except DefinitionError Rule) = .ok r') ↔
      Linkable slotOf inner := by
  constructor
  · rintro ⟨r', linked⟩
    obtain ⟨inner', part, -⟩ := bind_eq_ok_iff.mp linked
    exact ⟨inner', part⟩
  · rintro ⟨inner', part⟩
    exact ⟨wrap inner', by rw [part]; rfl⟩

/-- A repetition is linked if its inner rule is. -/
@[simp] theorem linkable_repeated (inner : Rule) (quantifier : Quantifier) :
    Linkable slotOf (.repeated inner quantifier) ↔ Linkable slotOf inner := by
  rw [Linkable, link_repeated]
  exact exists_link_iff

/-- A positive lookahead is linked if its inner rule is. -/
@[simp] theorem linkable_followedBy (inner : Rule) :
    Linkable slotOf (.followedBy inner) ↔ Linkable slotOf inner := by
  rw [Linkable, link_followedBy]
  exact exists_link_iff

/-- A negative lookahead is linked if its inner rule is. -/
@[simp] theorem linkable_notFollowedBy (inner : Rule) :
    Linkable slotOf (.notFollowedBy inner) ↔ Linkable slotOf inner := by
  rw [Linkable, link_notFollowedBy]
  exact exists_link_iff

theorem exists_link_all_iff {parts : List Rule} {combine : List Rule → Rule} :
    (∃ r', (do return combine (← linkAll slotOf parts) : Except DefinitionError Rule) = .ok r') ↔
      ∀ r ∈ parts, Linkable slotOf r := by
  rw [← exists_linkAll_iff]
  constructor
  · rintro ⟨r', linked⟩
    obtain ⟨parts', all, -⟩ := bind_eq_ok_iff.mp linked
    exact ⟨parts', all⟩
  · rintro ⟨parts', all⟩
    exact ⟨combine parts', by rw [all]; rfl⟩

/-- A sequence is linked if its items are. -/
@[simp] theorem linkable_sequence (items : List Rule) :
    Linkable slotOf (.sequence items) ↔ ∀ r ∈ items, Linkable slotOf r := by
  rw [Linkable, link_sequence]
  exact exists_link_all_iff

/-- A choice is linked if its alternatives are. -/
@[simp] theorem linkable_choice (alternatives : List Rule) :
    Linkable slotOf (.choice alternatives) ↔ ∀ r ∈ alternatives, Linkable slotOf r := by
  rw [Linkable, link_choice]
  exact exists_link_all_iff

/-! ## Linked rules -/

/-- The second rule is the first one with each reference at the slot of its name, whatever slot it
had before. Bound rules are not entered. -/
inductive LinksTo (slotOf : Text → Option Nat) : Rule → Rule → Prop where
  /-- The same literal. -/
  | literal (t : Text) : LinksTo slotOf (.literal t) (.literal t)
  /-- The same class. -/
  | charRange (ranges : List CharRange) : LinksTo slotOf (.charRange ranges) (.charRange ranges)
  /-- Any character. -/
  | anyChar : LinksTo slotOf .anyChar .anyChar
  /-- A repetition of the linked rule within the same quantifier. -/
  | repeated {inner inner' : Rule} (h : LinksTo slotOf inner inner') (quantifier : Quantifier) :
      LinksTo slotOf (.repeated inner quantifier) (.repeated inner' quantifier)
  /-- A positive lookahead for the linked rule. -/
  | followedBy {inner inner' : Rule} (h : LinksTo slotOf inner inner') :
      LinksTo slotOf (.followedBy inner) (.followedBy inner')
  /-- A negative lookahead for the linked rule. -/
  | notFollowedBy {inner inner' : Rule} (h : LinksTo slotOf inner inner') :
      LinksTo slotOf (.notFollowedBy inner) (.notFollowedBy inner')
  /-- As many linked rules one after the other. -/
  | sequence {items items' : List Rule} (h : Forall₂ (LinksTo slotOf) items items') :
      LinksTo slotOf (.sequence items) (.sequence items')
  /-- As many linked alternatives. -/
  | choice {alternatives alternatives' : List Rule}
      (h : Forall₂ (LinksTo slotOf) alternatives alternatives') :
      LinksTo slotOf (.choice alternatives) (.choice alternatives')
  /-- A reference to the same name, at the slot of that name. -/
  | reference {name : Text} (slot : Option Int) {n : Nat} (found : slotOf name = some n) :
      LinksTo slotOf (.reference name slot) (.reference name (some n))
  /-- The very same bound rule. -/
  | bound (g : Grammar) (slot : Nat) : LinksTo slotOf (.bound g slot) (.bound g slot)

/-- The rules of a list are linked to those that each of them is linked to. -/
theorem linkAll_eq_ok_iff {rs rs' : List Rule} :
    linkAll slotOf rs = .ok rs' ↔ Forall₂ (fun r r' ↦ r.link slotOf = .ok r') rs rs' := by
  rw [linkAll_eq_mapM, mapM_eq_ok_iff]

/-- What a rule is linked to differs from it in the slots of its references, and in nothing else. -/
theorem link_eq_ok_iff {r r' : Rule} : r.link slotOf = .ok r' ↔ LinksTo slotOf r r' := by
  have all : ∀ {rs rs' : List Rule},
      (∀ r ∈ rs, ∀ {r'}, r.link slotOf = .ok r' ↔ LinksTo slotOf r r') →
        (linkAll slotOf rs = .ok rs' ↔ Forall₂ (LinksTo slotOf) rs rs') := by
    intro rs rs' each
    rw [linkAll_eq_ok_iff]
    induction rs generalizing rs' with
    | nil => rw [List.forall₂_nil_left_iff, List.forall₂_nil_left_iff]
    | cons r rs ih =>
        obtain ⟨first, others⟩ := List.forall_mem_cons.mp each
        simp only [List.forall₂_cons_left_iff, first, ih others]
  induction r using Rule.induction generalizing r' with
  | literal t =>
      constructor
      · rintro ⟨⟩
        exact .literal t
      · rintro ⟨⟩
        rfl
  | charRange ranges =>
      constructor
      · rintro ⟨⟩
        exact .charRange ranges
      · rintro ⟨⟩
        rfl
  | anyChar =>
      constructor
      · rintro ⟨⟩
        exact .anyChar
      · rintro ⟨⟩
        rfl
  | repeated inner quantifier ih =>
      rw [link_repeated, bind_eq_ok_iff]
      constructor
      · rintro ⟨inner', linked, ⟨⟩⟩
        exact .repeated (ih.mp linked) quantifier
      · rintro ⟨⟩
        next inner' h => exact ⟨inner', ih.mpr h, rfl⟩
  | followedBy inner ih =>
      rw [link_followedBy, bind_eq_ok_iff]
      constructor
      · rintro ⟨inner', linked, ⟨⟩⟩
        exact .followedBy (ih.mp linked)
      · rintro ⟨⟩
        next inner' h => exact ⟨inner', ih.mpr h, rfl⟩
  | notFollowedBy inner ih =>
      rw [link_notFollowedBy, bind_eq_ok_iff]
      constructor
      · rintro ⟨inner', linked, ⟨⟩⟩
        exact .notFollowedBy (ih.mp linked)
      · rintro ⟨⟩
        next inner' h => exact ⟨inner', ih.mpr h, rfl⟩
  | sequence items ih =>
      rw [link_sequence, bind_eq_ok_iff]
      constructor
      · rintro ⟨items', linked, ⟨⟩⟩
        exact .sequence ((all ih).mp linked)
      · rintro ⟨⟩
        next items' h => exact ⟨items', (all ih).mpr h, rfl⟩
  | choice alternatives ih =>
      rw [link_choice, bind_eq_ok_iff]
      constructor
      · rintro ⟨alternatives', linked, ⟨⟩⟩
        exact .choice ((all ih).mp linked)
      · rintro ⟨⟩
        next alternatives' h => exact ⟨alternatives', (all ih).mpr h, rfl⟩
  | reference name slot =>
      rw [link_reference]
      constructor
      · intro linked
        split at linked
        next n found =>
          cases linked
          exact .reference slot found
        next => cases linked
      · rintro ⟨⟩
        next n found => rw [found]
  | bound g slot =>
      constructor
      · rintro ⟨⟩
        exact .bound g slot
      · rintro ⟨⟩
        rfl

/-! ## Parts of linked rules -/

/-- A rule that is linked to a reference is a reference of the same name, and the slot is that of
the name. -/
theorem link_eq_reference {r : Rule} {name : Text} {slot : Option Int}
    (h : r.link slotOf = .ok (.reference name slot)) :
    ∃ n : Nat, slotOf name = some n ∧ slot = some (n : Int) := by
  cases link_eq_ok_iff.mp h with
  | reference _ found => exact ⟨_, found, rfl⟩

theorem link_eq_bound {r : Rule} {g : Grammar} {slot : Nat}
    (h : r.link slotOf = .ok (.bound g slot)) : r = .bound g slot := by
  cases link_eq_ok_iff.mp h with
  | bound => rfl

/-- A rule that is linked to a repetition is a repetition with the same quantifier. -/
theorem link_eq_repeated {r inner' : Rule} {quantifier : Quantifier}
    (h : r.link slotOf = .ok (.repeated inner' quantifier)) :
    ∃ inner, r = .repeated inner quantifier := by
  cases link_eq_ok_iff.mp h with
  | repeated => exact ⟨_, rfl⟩

/-- Every part of a linked rule is a part of the rule, linked. -/
theorem exists_part_of_link {r r' part' : Rule} (linked : r.link slotOf = .ok r')
    (h : PartOf part' r') : ∃ part, PartOf part r ∧ part.link slotOf = .ok part' := by
  have items : ∀ {parts parts' : List Rule}, linkAll slotOf parts = .ok parts' → ∀ r' ∈ parts',
      ∃ r ∈ parts, r.link slotOf = .ok r' := by
    intro parts parts' all r' mem
    exact (linkAll_eq_ok_iff.mp all).exists_left mem
  induction r using Rule.induction generalizing r' with
  | literal | charRange | anyChar | bound =>
      cases linked
      cases h
      exact ⟨_, .refl, rfl⟩
  | reference name slot =>
      obtain ⟨n, found⟩ : ∃ n, slotOf name = some n :=
        Option.isSome_iff_exists.mp ((linkable_reference name slot).mp ⟨r', linked⟩)
      have same : r' = .reference name (some n) := by
        rw [link_reference, found] at linked
        exact (Except.ok.inj linked).symm
      rw [same, partOf_reference_iff] at h
      exact ⟨.reference name slot, .refl, by rw [linked, same, h]⟩
  | repeated inner quantifier ih =>
      obtain ⟨inner', part, same⟩ := bind_eq_ok_iff.mp linked
      cases same
      rcases partOf_repeated_iff.mp h with rfl | h
      · exact ⟨_, .refl, linked⟩
      · obtain ⟨part, h', linked'⟩ := ih part h
        exact ⟨part, h'.repeated quantifier, linked'⟩
  | followedBy inner ih =>
      obtain ⟨inner', part, same⟩ := bind_eq_ok_iff.mp linked
      cases same
      rcases partOf_followedBy_iff.mp h with rfl | h
      · exact ⟨_, .refl, linked⟩
      · obtain ⟨part, h', linked'⟩ := ih part h
        exact ⟨part, h'.followedBy, linked'⟩
  | notFollowedBy inner ih =>
      obtain ⟨inner', part, same⟩ := bind_eq_ok_iff.mp linked
      cases same
      rcases partOf_notFollowedBy_iff.mp h with rfl | h
      · exact ⟨_, .refl, linked⟩
      · obtain ⟨part, h', linked'⟩ := ih part h
        exact ⟨part, h'.notFollowedBy, linked'⟩
  | sequence parts ih =>
      obtain ⟨parts', all, same⟩ := bind_eq_ok_iff.mp linked
      cases same
      rcases partOf_sequence_iff.mp h with rfl | ⟨item', mem', h⟩
      · exact ⟨_, .refl, linked⟩
      · obtain ⟨item, mem, linked'⟩ := items all item' mem'
        obtain ⟨part, h', linked''⟩ := ih item mem linked' h
        exact ⟨part, h'.sequence mem, linked''⟩
  | choice parts ih =>
      obtain ⟨parts', all, same⟩ := bind_eq_ok_iff.mp linked
      cases same
      rcases partOf_choice_iff.mp h with rfl | ⟨item', mem', h⟩
      · exact ⟨_, .refl, linked⟩
      · obtain ⟨item, mem, linked'⟩ := items all item' mem'
        obtain ⟨part, h', linked''⟩ := ih item mem linked' h
        exact ⟨part, h'.choice mem, linked''⟩

/-! ## Names without a slot -/

mutual

/-- The names of the references in a rule from left to right, bound rules not entered. -/
def references : Rule → List Text
  | reference name _ => [name]
  | repeated inner _ | followedBy inner | notFollowedBy inner => inner.references
  | sequence parts | choice parts => referencesAll parts
  | _ => []

def referencesAll : List Rule → List Text
  | [] => []
  | r :: rest => r.references ++ referencesAll rest

end

theorem mem_referencesAll_iff {name : Text} {rs : List Rule} :
    name ∈ referencesAll rs ↔ ∃ r ∈ rs, name ∈ r.references := by
  induction rs with
  | nil => simp [referencesAll]
  | cons r rs ih => simp [referencesAll, ih]

/-- The names are those of the references that are parts of the rule. -/
theorem mem_references_iff {name : Text} {r : Rule} :
    name ∈ r.references ↔ ∃ slot, PartOf (.reference name slot) r := by
  induction r using Rule.induction with
  | literal | charRange | anyChar | bound | reference => simp [references]
  | repeated _ _ ih | followedBy _ ih | notFollowedBy _ ih => simp [references, ih]
  | sequence parts ih | choice parts ih =>
      simp only [references, mem_referencesAll_iff, partOf_sequence_iff, partOf_choice_iff,
        reduceCtorEq, false_or]
      constructor
      · rintro ⟨r, mem, inside⟩
        obtain ⟨slot, part⟩ := (ih r mem).mp inside
        exact ⟨slot, r, mem, part⟩
      · rintro ⟨slot, r, mem, part⟩
        exact ⟨r, mem, (ih r mem).mpr ⟨slot, part⟩⟩

/-- The error of a name that has no slot. -/
def undefined? (slotOf : Text → Option Nat) (name : Text) : Option DefinitionError :=
  match slotOf name with
  | some _ => none
  | none => some (.undefinedReference name)

theorem undefined?_eq_some_iff {name : Text} {e : DefinitionError} :
    undefined? slotOf name = some e ↔ slotOf name = none ∧ e = .undefinedReference name := by
  unfold undefined?
  split
  next slot found => simp [found]
  next none => simp [none, eq_comm]

theorem undefined?_eq_none_iff {name : Text} :
    undefined? slotOf name = none ↔ (slotOf name).isSome = true := by
  unfold undefined?
  split
  next slot found => simp [found]
  next none => simp [none]

/-- Linking fails with the first name that has no slot. -/
theorem failure?_link (r : Rule) :
    (r.link slotOf).failure? = r.references.findSome? (undefined? slotOf) := by
  have all : ∀ rs : List Rule,
      (∀ r ∈ rs, (r.link slotOf).failure? = r.references.findSome? (undefined? slotOf)) →
        (linkAll slotOf rs).failure? = (referencesAll rs).findSome? (undefined? slotOf) := by
    intro rs each
    induction rs with
    | nil => rfl
    | cons r rs ih =>
        obtain ⟨first, others⟩ := List.forall_mem_cons.mp each
        rw [linkAll_cons, failure?_bind fun r' _ ↦ failure?_map (linkAll slotOf rs) (r' :: ·),
          first, ih others, referencesAll, List.findSome?_append]
  induction r using Rule.induction with
  | literal | charRange | anyChar | bound => rfl
  | reference name slot =>
      rw [link_reference, references, List.findSome?_singleton, undefined?]
      cases slotOf name with
      | none => rfl
      | some slot => rfl
  | repeated _ _ ih | followedBy _ ih | notFollowedBy _ ih =>
      rw [references, ← ih]
      exact failure?_map _ _
  | sequence parts ih | choice parts ih =>
      rw [references, ← all parts ih]
      exact failure?_map _ _

theorem linkable_iff {r : Rule} :
    r.Linkable slotOf ↔ ∀ name ∈ r.references, (slotOf name).isSome = true := by
  rw [Linkable, ← failure?_eq_none_iff, failure?_link, List.findSome?_eq_none_iff]
  exact forall₂_congr fun _ _ ↦ undefined?_eq_none_iff

/-- Linking fails because of the leftmost name that has no slot. -/
theorem link_eq_error_iff {r : Rule} {e : DefinitionError} :
    r.link slotOf = .error e ↔ ∃ left name right, r.references = left ++ name :: right ∧
      (∀ n ∈ left, (slotOf n).isSome = true) ∧ slotOf name = none ∧
        e = .undefinedReference name := by
  rw [← failure?_eq_some_iff, failure?_link, List.findSome?_eq_some_iff]
  simp only [undefined?_eq_some_iff, undefined?_eq_none_iff]
  constructor
  · rintro ⟨left, name, right, split, ⟨missing, rfl⟩, defined⟩
    exact ⟨left, name, right, split, defined, missing, rfl⟩
  · rintro ⟨left, name, right, split, defined, missing, rfl⟩
    exact ⟨left, name, right, split, ⟨missing, rfl⟩, defined⟩

theorem undefinedReference_of_link {r : Rule} {e : DefinitionError}
    (h : r.link slotOf = .error e) : ∃ name, e = .undefinedReference name := by
  obtain ⟨_, name, _, _, _, _, same⟩ := link_eq_error_iff.mp h
  exact ⟨name, same⟩

end Peg.Rule
