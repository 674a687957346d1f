import Peg.Grammar.Lookup
import Peg.Proofs.Notation.Rereading

/-!
# Closed grammars

A grammar is built from rules of any origin: rules put together by hand, references that are not
linked or carry the slot of some other grammar, rules that were taken out of grammars built before.
Whatever it was built from, it is closed: its references are linked to its own slots, under their
own names, and the rules bound in it belong to grammars that are older than itself.

The shape of the argument: being composed of older grammars is preserved by every constructor and
by linking, and linking leaves no reference as it was.
-/

namespace Peg

open Except

/-! ## What rules are made of -/

namespace Rule

/-- The bound rules in a rule stand in slots of the given grammars, and the unknown quantifiers in
it have the given symbols. -/
structure ComposedOf (symbols : Text → Prop) (grammars : List Grammar) (r : Rule) : Prop where
  /-- A bound rule stands in a slot of one of the grammars. -/
  bound : ∀ (g : Grammar) slot, PartOf (.bound g slot) r → g ∈ grammars ∧ slot < g.size
  /-- An unknown quantifier has one of the symbols. -/
  unknown : ∀ inner symbol, PartOf (.repeated inner (.unknown symbol)) r → symbols symbol

/-- Every reference in the rule carries the slot of its name among the given ones. -/
def LinkedTo (names : List Text) (r : Rule) : Prop :=
  ∀ name slot, PartOf (.reference name slot) r →
    ∃ n : Nat, slot = some (n : Int) ∧ names[n]? = some name

namespace ComposedOf

variable {symbols : Text → Prop} {grammars : List Grammar} {r : Rule}

/-- Older grammars stay available. -/
theorem mono {grammars' : List Grammar} (h : r.ComposedOf symbols grammars)
    (sub : ∀ g ∈ grammars, g ∈ grammars') : r.ComposedOf symbols grammars' where
  bound g slot part := (h.bound g slot part).imp_left (sub g)
  unknown := h.unknown

/-- A part of a rule is made of what the rule is made of. -/
theorem of_part {part : Rule} (h : r.ComposedOf symbols grammars) (h' : PartOf part r) :
    part.ComposedOf symbols grammars where
  bound g slot part := h.bound g slot (part.trans h')
  unknown inner symbol part := h.unknown inner symbol (part.trans h')

/-- A rule is made of what its parts are made of, unless it is bound or has an unknown quantifier
itself. -/
theorem of_parts {whole : Rule} (bound : ∀ (g : Grammar) slot, .bound g slot ≠ whole)
    (unknown : ∀ inner symbol, .repeated inner (.unknown symbol) = whole → symbols symbol)
    (parts : ∀ part, PartOf part whole →
      part = whole ∨ ∃ r, r.ComposedOf symbols grammars ∧ PartOf part r) :
    whole.ComposedOf symbols grammars := by
  constructor
  · intro g slot part
    rcases parts _ part with same | ⟨r, h, part⟩
    · exact (bound g slot same).elim
    · exact h.bound g slot part
  · intro inner symbol part
    rcases parts _ part with same | ⟨r, h, part⟩
    · exact unknown inner symbol same
    · exact h.unknown inner symbol part

theorem literal (t : Text) : (Rule.literal t).ComposedOf symbols grammars :=
  of_parts nofun nofun fun _ part ↦ .inl (partOf_literal_iff.mp part)

theorem charRange (ranges : List CharRange) :
    (Rule.charRange ranges).ComposedOf symbols grammars :=
  of_parts nofun nofun fun _ part ↦ .inl (partOf_charRange_iff.mp part)

theorem anyChar : Rule.anyChar.ComposedOf symbols grammars :=
  of_parts nofun nofun fun _ part ↦ .inl (partOf_anyChar_iff.mp part)

theorem reference (name : Text) (slot : Option Int) :
    (Rule.reference name slot).ComposedOf symbols grammars :=
  of_parts nofun nofun fun _ part ↦ .inl (partOf_reference_iff.mp part)

theorem boundTo {g : Grammar} {slot : Nat} (mem : g ∈ grammars) (lt : slot < g.size) :
    (Rule.bound g slot).ComposedOf symbols grammars where
  bound g' slot' part := by
    cases partOf_bound_iff.mp part
    exact ⟨mem, lt⟩
  unknown := by simp

theorem repeated (h : r.ComposedOf symbols grammars) {quantifier : Quantifier}
    (known : ∀ symbol, quantifier = .unknown symbol → symbols symbol) :
    (Rule.repeated r quantifier).ComposedOf symbols grammars := by
  refine of_parts nofun ?_ ?_
  · intro inner symbol same
    cases same
    exact known symbol rfl
  · intro part part_repeated
    exact (partOf_repeated_iff.mp part_repeated).imp_right fun part_inner ↦ ⟨r, h, part_inner⟩

theorem followedBy (h : r.ComposedOf symbols grammars) :
    (Rule.followedBy r).ComposedOf symbols grammars :=
  of_parts nofun nofun fun _ part ↦
    (partOf_followedBy_iff.mp part).imp_right fun part ↦ ⟨r, h, part⟩

theorem notFollowedBy (h : r.ComposedOf symbols grammars) :
    (Rule.notFollowedBy r).ComposedOf symbols grammars :=
  of_parts nofun nofun fun _ part ↦
    (partOf_notFollowedBy_iff.mp part).imp_right fun part ↦ ⟨r, h, part⟩

theorem sequence {items : List Rule} (h : ∀ r ∈ items, r.ComposedOf symbols grammars) :
    (Rule.sequence items).ComposedOf symbols grammars := by
  refine of_parts nofun nofun ?_
  intro part part_sequence
  rcases partOf_sequence_iff.mp part_sequence with same | ⟨r, mem, part_item⟩
  · exact .inl same
  · exact .inr ⟨r, h r mem, part_item⟩

theorem choice {alternatives : List Rule}
    (h : ∀ r ∈ alternatives, r.ComposedOf symbols grammars) :
    (Rule.choice alternatives).ComposedOf symbols grammars := by
  refine of_parts nofun nofun ?_
  intro part part_choice
  rcases partOf_choice_iff.mp part_choice with same | ⟨r, mem, part_alternative⟩
  · exact .inl same
  · exact .inr ⟨r, h r mem, part_alternative⟩

/-- Linking changes nothing but references. -/
theorem link {slotOf : Text → Option Nat} {r' : Rule} (h : r.ComposedOf symbols grammars)
    (linked : r.link slotOf = .ok r') : r'.ComposedOf symbols grammars where
  bound g slot part' := by
    obtain ⟨part, h', link⟩ := exists_part_of_link linked part'
    exact h.bound g slot (link_eq_bound link ▸ h')
  unknown inner symbol part' := by
    obtain ⟨part, h', link⟩ := exists_part_of_link linked part'
    obtain ⟨inner', rfl⟩ := link_eq_repeated link
    exact h.unknown inner' symbol h'

end ComposedOf

/-- A rule that can be printed holds no bound rules and no unknown quantifiers. -/
theorem Printable.composedOf {names : List Text} {r : Rule} (h : r.Printable names)
    (symbols : Text → Prop) (grammars : List Grammar) : r.ComposedOf symbols grammars := by
  induction h with
  | literal t => exact .literal t
  | charRange => exact .charRange _
  | anyChar => exact .anyChar
  | repeated _ known ih => exact ih.repeated fun symbol same ↦ (known symbol same).elim
  | followedBy _ ih => exact ih.followedBy
  | notFollowedBy _ ih => exact ih.notFollowedBy
  | outsideNothing =>
      refine .sequence ?_
      rintro r (_ | ⟨_, _ | ⟨_, ⟨⟩⟩⟩)
      · exact (ComposedOf.charRange []).notFollowedBy
      · exact .anyChar
  | sequence _ _ ih => exact .sequence ih
  | choice _ _ ih => exact .choice ih
  | reference _ slot => exact .reference _ slot

/-- Linking gives every reference the slot of its name, whatever it carried before. -/
theorem linkedTo_of_link {names : List Text} {r r' : Rule}
    (linked : r.link names.idxOf? = .ok r') : r'.LinkedTo names := by
  intro name slot part'
  obtain ⟨part, -, link⟩ := exists_part_of_link linked part'
  obtain ⟨n, found, rfl⟩ := link_eq_reference link
  obtain ⟨lt, here, -⟩ := List.idxOf?_eq_some_iff.mp found
  exact ⟨n, rfl, List.getElem?_eq_some_iff.mpr ⟨lt, here⟩⟩

end Rule

/-! ## Closed grammars -/

namespace Grammar

/-- What holds of every grammar that is built when the given ones are there already. -/
structure Closed (symbols : Text → Prop) (earlier : List Grammar) (g : Grammar) : Prop where
  /-- Its stamp is the number of grammars that are older. -/
  id_eq : g.id = earlier.length
  /-- It has a rule. -/
  names_ne_nil : g.names ≠ []
  /-- Its names are not empty. -/
  name_ne_nil : ∀ name ∈ g.names, name ≠ []
  /-- Its names are different. -/
  nodup : g.names.Nodup
  /-- Every name has a slot, and its slot has that name. -/
  nameAt?_slot : ∀ name ∈ g.names, ∃ n : Nat, g.slot? name = some n ∧ g.nameAt? n = some name
  /-- There is one rule for each name. -/
  length_rules : g.rules.length = g.size
  /-- The start rule is one of its rules. -/
  start_mem : g.start ∈ g.names
  /-- Its references carry the slots of their names. -/
  linkedTo : ∀ r ∈ g.rules, r.LinkedTo g.names
  /-- Its bound rules stand in slots of older grammars. -/
  composedOf : ∀ r ∈ g.rules, r.ComposedOf symbols earlier

variable {symbols : Text → Prop} {earlier : List Grammar} {g : Grammar}

/-- A name has the first slot that has that name. -/
theorem exists_slot {name : Text} (mem : name ∈ g.names) :
    ∃ n : Nat, g.slot? name = some n ∧ n < g.size ∧ g.nameAt? n = some name := by
  obtain ⟨n, found⟩ := Option.isSome_iff_exists.mp (List.isSome_idxOf?.mpr mem)
  obtain ⟨lt, here, -⟩ := List.idxOf?_eq_some_iff.mp found
  exact ⟨n, found, lt, List.getElem?_eq_some_iff.mpr ⟨lt, here⟩⟩

/-- A rule in a slot is one of the rules. -/
theorem mem_rules_of_ruleAt? {slot : Int} {r : Rule} (h : g.ruleAt? slot = some r) :
    r ∈ g.rules := by
  cases slot with
  | ofNat n => exact List.mem_of_getElem? h
  | negSucc n => exact List.mem_reverse.mp (List.mem_of_getElem? h)

/-- A grammar is closed if it is built from rules that are composed of older grammars. -/
theorem closed_of_build {table : Table} {start : Value}
    (built : build earlier.length table start = .ok g) (nodup : table.texts.Nodup)
    (composed : ∀ entry ∈ table, ∀ r, entry.2.toRule = .ok r → r.ComposedOf symbols earlier) :
    g.Closed symbols earlier := by
  obtain ⟨-, id_eq, named, -, linked⟩ := build_eq_ok_iff.mp built
  obtain ⟨names_ne_nil, start_mem⟩ := start_mem_of_build built
  refine ⟨id_eq, names_ne_nil, ?_, ?_, ?_, ?_, start_mem, ?_, ?_⟩
  · intro name mem
    obtain ⟨entry, -, named⟩ := named.exists_left mem
    exact (ruleName_eq_ok_iff.mp named).2
  · rw [← texts_eq_names named]
    exact nodup
  · intro name mem
    obtain ⟨n, slot, -, same⟩ := exists_slot mem
    exact ⟨n, slot, same⟩
  · exact linked.length_eq.symm.trans named.length_eq
  · intro r mem
    obtain ⟨entry, -, r', -, linked⟩ := linked.exists_left mem
    exact Rule.linkedTo_of_link linked
  · intro r mem
    obtain ⟨entry, mem', r', rule, linked⟩ := linked.exists_left mem
    exact (composed entry mem' r' rule).link linked

/-- A grammar of a source is closed. -/
theorem closed_of_ofSource {frames : Nat} {src : Text} {start : Value}
    (h : ofSource frames earlier.length src start = .ok g) : g.Closed symbols earlier := by
  obtain ⟨table, rules, built⟩ := exists_build_of_ofSource h
  obtain ⟨printable, -⟩ := Notation.printable_of_rulesOf rules (linkable_of_build built)
  apply closed_of_build built
  · rw [texts_tableOf]
    exact printable.nodup
  · intro entry mem r rule
    obtain ⟨entry', mem', rfl⟩ := List.mem_map.mp mem
    cases rule
    exact (printable.rules entry' mem').composedOf symbols earlier

end Grammar

end Peg
