import Peg.Proofs.Grammar.Renaming
import Peg.Proofs.Rule.Replacement

/-!
# Linking again

Linking writes a slot into every reference and leaves all else as it is. So nothing of an earlier
linking is left when a rule is linked once more: the rules of a grammar can be taken out of its
slots and put into any other table, as a whole or as parts of other rules, and they are linked there
as the rules would be that the grammar was built of.
-/

namespace Peg

open Except
open List (Forall₂)

namespace Rule

variable {slotOf : Text → Option Nat} {old new r r' : Rule}

/-! ## Linking linked rules -/

/-- Without slots a rule and what it is linked to are the same. -/
theorem LinksTo.unlinked_eq (h : LinksTo slotOf r r') : r'.unlinked = r.unlinked := by
  have all : ∀ {rs rs' : List Rule},
      (∀ r ∈ rs, ∀ {r'}, LinksTo slotOf r r' → r'.unlinked = r.unlinked) →
        Forall₂ (LinksTo slotOf) rs rs' → unlinkedAll rs' = unlinkedAll rs := by
    intro rs rs' each linked
    induction linked with
    | nil => rfl
    | cons first _ ih =>
        rw [unlinkedAll, unlinkedAll, each _ List.mem_cons_self first,
          ih fun r mem ↦ each r (List.mem_cons_of_mem _ mem)]
  induction r using Rule.induction generalizing r' with
  | literal | charRange | anyChar | reference | bound =>
      cases h
      rfl
  | repeated inner quantifier ih =>
      cases h with
      | repeated h => rw [unlinked, unlinked, ih h]
  | followedBy inner ih =>
      cases h with
      | followedBy h => rw [unlinked, unlinked, ih h]
  | notFollowedBy inner ih =>
      cases h with
      | notFollowedBy h => rw [unlinked, unlinked, ih h]
  | sequence items ih =>
      cases h with
      | sequence h => rw [unlinked, unlinked, all ih h]
  | choice alternatives ih =>
      cases h with
      | choice h => rw [unlinked, unlinked, all ih h]

theorem link_link {first : Text → Option Nat} (h : r.link first = .ok r')
    (second : Text → Option Nat) : r'.link second = r.link second := by
  rw [← link_unlinked r', (link_eq_ok_iff.mp h).unlinked_eq, link_unlinked]

/-- A rule with parts replaced is linked as before if the new part is linked as the old one. -/
theorem Replaced.link_eq (h : Replaced old new r r') (same : new.link slotOf = old.link slotOf) :
    r'.link slotOf = r.link slotOf := by
  -- It is enough to look at rules of the same shape: the old rule itself becomes the new one.
  have whole : ∀ r, (∀ r', SameShape (Replaced old new) r r' → r'.link slotOf = r.link slotOf) →
      ∀ r', Replaced old new r r' → r'.link slotOf = r.link slotOf := by
    intro r parts r' h
    cases h with
    | here => exact same
    | parts shape => exact parts r' shape
  have all : ∀ {rs rs' : List Rule}, (∀ r ∈ rs, ∀ r', SameShape (Replaced old new) r r' →
      r'.link slotOf = r.link slotOf) → Forall₂ (Replaced old new) rs rs' →
        linkAll slotOf rs' = linkAll slotOf rs := by
    intro rs rs' each replaced
    induction replaced with
    | nil => rfl
    | @cons r r' rs rs' first _ ih =>
        rw [linkAll_cons, linkAll_cons, whole r (each r List.mem_cons_self) r' first,
          ih fun r mem ↦ each r (List.mem_cons_of_mem _ mem)]
  refine whole r ?_ r' h
  clear h
  induction r using Rule.induction with
  | literal | charRange | anyChar | reference | bound =>
      intro r' shape
      cases shape
      rfl
  | repeated inner quantifier ih =>
      intro r' shape
      cases shape with
      | repeated h => rw [link_repeated, link_repeated, whole inner ih _ h]
  | followedBy inner ih =>
      intro r' shape
      cases shape with
      | followedBy h => rw [link_followedBy, link_followedBy, whole inner ih _ h]
  | notFollowedBy inner ih =>
      intro r' shape
      cases shape with
      | notFollowedBy h => rw [link_notFollowedBy, link_notFollowedBy, whole inner ih _ h]
  | sequence items ih =>
      intro r' shape
      cases shape with
      | sequence h => rw [link_sequence, link_sequence, all ih h]
  | choice alternatives ih =>
      intro r' shape
      cases shape with
      | choice h => rw [link_choice, link_choice, all ih h]

end Rule

/-! ## Tables with parts replaced -/

section Replacing

variable {old new : Rule}

/-- The second operand is the first one, or its rule with the new rule in some of the places of the
old one. -/
inductive Operand.Refilled (old new : Rule) : Operand → Operand → Prop where
  /-- Nothing is replaced. -/
  | same (o : Operand) : Refilled old new o o
  /-- Parts of the rule are replaced, or all of it. -/
  | rule {o : Operand} {r r' : Rule} (h : o.toRule = .ok r)
      (replaced : Rule.Replaced old new r r') : Refilled old new o (.rule r')

/-- The second table is the first one with the new rule in some of the places of the old one. -/
def Table.Refilled (old new : Rule) : Table → Table → Prop :=
  Forall₂ fun entry entry' ↦ entry'.1 = entry.1 ∧ entry.2.Refilled old new entry'.2

theorem Operand.Refilled.link_eq {o o' : Operand} (h : o.Refilled old new o')
    {slotOf : Text → Option Nat} (same : new.link slotOf = old.link slotOf) :
    o'.toRule >>= Rule.link slotOf = o.toRule >>= Rule.link slotOf := by
  cases h with
  | same => rfl
  | rule h replaced =>
      rw [h]
      exact replaced.link_eq same

/-- A table with parts replaced makes the same grammar, or fails for the same reason, if the new
part is always linked as the old one. -/
theorem Table.Refilled.build_eq {table table' : Table} (h : table.Refilled old new table')
    (same : ∀ slotOf, new.link slotOf = old.link slotOf) (id : Nat) (start : Value) :
    Grammar.build id table' start = Grammar.build id table start := by
  have names : (table'.mapM fun entry ↦ Grammar.ruleName entry.1) =
      table.mapM fun entry ↦ Grammar.ruleName entry.1 :=
    mapM_congr h fun _ _ both ↦ congrArg Grammar.ruleName both.1
  have rules : ∀ slotOf : Text → Option Nat,
      (table'.mapM fun entry ↦ entry.2.toRule >>= Rule.link slotOf) =
        table.mapM fun entry ↦ entry.2.toRule >>= Rule.link slotOf :=
    fun slotOf ↦ mapM_congr h fun _ _ both ↦ both.2.link_eq (same slotOf)
  have empty : table'.isEmpty = table.isEmpty := by
    cases h with
    | nil | cons => rfl
  simp only [Grammar.build, names, rules, empty]

end Replacing

/-! ## Grammars as tables -/

theorem Table.set_of_notMem {name : Text} {o : Operand} {table : Table}
    (absent : name ∉ table.texts) : table.set name o = table ++ [(.text name, o)] := by
  fun_induction set name o table with
  | case1 => rfl
  | case2 => exact (absent List.mem_cons_self).elim
  | case3 n old rest _ ih =>
      rw [ih fun mem ↦ absent (List.mem_cons_of_mem n mem), List.cons_append]
  | case4 entry rest notText ih =>
      obtain ⟨v, o'⟩ := entry
      have none : text? (v, o') = none :=
        text?_eq_none (fun n found ↦ notText n o' (by rw [found])) o'
      rw [texts_cons_of_text?_eq_none none] at absent
      rw [ih absent, List.cons_append]

namespace Grammar

/-- Rules of different names are their own table. -/
theorem ofList_tableOf {rules : List (Text × Rule)} (nodup : (rules.map Prod.fst).Nodup) :
    Table.ofList (tableOf rules) = .ok (tableOf rules) := by
  have behind : ∀ front : Table, (front.texts ++ rules.map Prod.fst).Nodup →
      (tableOf rules).foldlM Table.insert front = .ok (front ++ tableOf rules) := by
    clear nodup
    induction rules with
    | nil =>
        intro front _
        exact congrArg Except.ok (List.append_nil front).symm
    | cons entry rules ih =>
        intro front nodup
        have absent : entry.1 ∉ front.texts := fun mem ↦
          List.disjoint_of_nodup_append nodup mem List.mem_cons_self
        have texts : (front ++ [(Value.text entry.1, Operand.rule entry.2)]).texts =
            front.texts ++ [entry.1] := List.filterMap_append
        have next := ih (front ++ [(.text entry.1, .rule entry.2)]) (by
          rwa [texts, List.append_assoc])
        rw [List.append_assoc] at next
        rw [tableOf, List.map_cons, List.foldlM_cons, Table.insert, Table.set_of_notMem absent]
        exact next
  exact behind [] nodup

variable {id : Nat} {table : Table} {start : Value} {g : Grammar}

theorem length_rules_of_build (built : build id table start = .ok g) :
    g.names.length = g.rules.length := by
  obtain ⟨-, -, named, -, linked⟩ := build_eq_ok_iff.mp built
  exact named.length_eq.symm.trans linked.length_eq

/-- The names and rules of a grammar make the same grammar again. -/
theorem build_again (built : build id table start = .ok g) (id' : Nat) :
    build id' (tableOf (g.names.zip g.rules)) (.text g.start) = .ok { g with id := id' } := by
  have lengths := length_rules_of_build built
  obtain ⟨names_ne_nil, start_mem⟩ := start_mem_of_build built
  obtain ⟨table_ne_nil, -, named, -, linked⟩ := build_eq_ok_iff.mp built
  refine build_eq_ok_iff.mpr ⟨?_, rfl, ?_, ?_, ?_⟩
  · intro none
    rw [tableOf, List.map_eq_nil_iff, List.zip_eq_nil_iff] at none
    rcases none with none | none
    · exact names_ne_nil none
    · rw [none, List.length_nil, List.length_eq_zero_iff] at lengths
      exact names_ne_nil lengths
  · have names : g.names = (g.names.zip g.rules).map Prod.fst :=
      (List.map_fst_zip lengths.le).symm
    conv => rhs; rw [names]
    rw [tableOf, List.forall₂_map_left_iff, List.forall₂_map_right_iff, List.forall₂_same]
    rintro ⟨name, r⟩ mem
    obtain ⟨entry, -, isName⟩ := named.exists_left (List.of_mem_zip mem).1
    exact ruleName_eq_ok_iff.mpr ⟨rfl, (ruleName_eq_ok_iff.mp isName).2⟩
  · exact if_pos (List.contains_iff_mem.mpr start_mem)
  · have rules : g.rules = (g.names.zip g.rules).map Prod.snd :=
      (List.map_snd_zip lengths.ge).symm
    conv => rhs; rw [rules]
    rw [tableOf, List.forall₂_map_left_iff, List.forall₂_map_right_iff, List.forall₂_same]
    rintro ⟨name, r⟩ mem
    obtain ⟨entry, -, r', -, link⟩ := linked.exists_left (List.of_mem_zip mem).2
    exact ⟨r, rfl, (Rule.link_link link _).trans link⟩

/-- What stands in a slot is the rule of the entry in that place of the table, linked. -/
theorem exists_entry_of_ruleAt? (built : build id table start = .ok g) {slot : Int} {linked : Rule}
    (found : g.ruleAt? slot = some linked) :
    ∃ entry r, fromEitherEnd? table slot = some entry ∧ entry.2.toRule = .ok r ∧
      r.link g.names.idxOf? = .ok linked := by
  obtain ⟨-, -, -, -, links⟩ := build_eq_ok_iff.mp built
  cases slot with
  | ofNat n =>
      obtain ⟨entry, at_slot, r, rule, link⟩ := links.flip.exists_getElem? found
      exact ⟨entry, r, at_slot, rule, link⟩
  | negSucc n =>
      obtain ⟨entry, at_slot, r, rule, link⟩ :=
        (List.forall₂_reverse_iff.mpr links.flip).exists_getElem? found
      exact ⟨entry, r, at_slot, rule, link⟩

/-! ## Laws -/

/-- What linking does to a rule, and what the rules of a grammar are good for outside of it. -/
structure LinkingLaws : Prop where
  /-- Linking succeeds with the rule that has each reference at the slot of its name, bound rules
  aside, and is the same in all else. -/
  link_iff : ∀ slotOf r r', Rule.link slotOf r = .ok r' ↔ Rule.LinksTo slotOf r r'
  /-- Of two links the last one counts, and it fails as if it were the only one. -/
  link_link : ∀ first second r r', Rule.link first r = .ok r' → r'.link second = r.link second
  /-- A grammar can be built again of its own names and rules, and it is the same but for the stamp.
  -/
  build_again : ∀ entries table id start g, Table.ofList entries = .ok table →
    build id table start = .ok g → ∀ id',
      (do build id' (← Table.ofList (tableOf (g.names.zip g.rules))) (.text g.start)) =
        .ok { g with id := id' }
  /-- The rule in a slot is as good in every table as the rule that the grammar was given there: it
  is linked alike, and with it in any places of the other one, as a whole entry or inside of rules,
  the same grammar is built or the same error is found. -/
  reuse : ∀ table id start g, build id table start = .ok g → ∀ slot linked,
    g.ruleAt? slot = some linked → ∃ entry r, fromEitherEnd? table slot = some entry ∧
      entry.2.toRule = .ok r ∧ (∀ slotOf, linked.link slotOf = r.link slotOf) ∧
      ∀ other other', Table.Refilled r linked other other' →
        ∀ id start, build id other' start = build id other start

/-- Linking changes the slots of references and nothing else, and the last link wins. -/
theorem linkingLaws : LinkingLaws where
  link_iff _ _ _ := Rule.link_eq_ok_iff
  link_link _ second _ _ link := Rule.link_link link second
  build_again entries table id start g collected built id' := by
    obtain ⟨-, -, named, -, -⟩ := build_eq_ok_iff.mp built
    have nodup : ((g.names.zip g.rules).map Prod.fst).Nodup := by
      rw [List.map_fst_zip (length_rules_of_build built).le, ← texts_eq_names named]
      exact Table.nodup_texts collected
    rw [ofList_tableOf nodup]
    exact Grammar.build_again built id'
  reuse table id start g built slot linked found := by
    obtain ⟨entry, r, at_slot, rule, link⟩ := exists_entry_of_ruleAt? built found
    have same : ∀ slotOf, linked.link slotOf = r.link slotOf := Rule.link_link link
    exact ⟨entry, r, at_slot, rule, same, fun _ _ replaced ↦ replaced.build_eq same⟩

/-- A rule is taken out of its slot, counted from the end, and repeated in another grammar that has
the names in other slots. The rule that is bound in it stays as it is. -/
theorem linkingLaws_reused : ∃ (inner g g' : Grammar) (linked : Rule),
    build 1 [(.text "S", .rule (.sequence [.reference "C" none, .bound inner 0,
      .reference "S" (some 5)])), (.text "C", .value (.text "c"))] .null = .ok g ∧
    g.ruleAt? (-2) = some linked ∧
    linked = .sequence [.reference "C" (some 1), .bound inner 0, .reference "S" (some 0)] ∧
    build 2 [(.text "C", .value (.text "d")), (.text "T", .value (.text "t")),
      (.text "S", .rule (.repeated linked .optional))] .null = .ok g' ∧
    g'.rules = [.literal "d", .literal "t", .repeated (.sequence [.reference "C" (some 0),
      .bound inner 0, .reference "S" (some 2)]) .optional] := by
  let inner : Grammar := ⟨0, ["S"], [.reference "S" (some 0)], "S"⟩
  let original : Rule := .sequence [.reference "C" none, .bound inner 0, .reference "S" (some 5)]
  let linked : Rule := .sequence [.reference "C" (some 1), .bound inner 0, .reference "S" (some 0)]
  let other (r : Rule) : Table := [(.text "C", .value (.text "d")), (.text "T", .value (.text "t")),
    (.text "S", .rule (.repeated r .optional))]
  obtain ⟨entry, r, at_slot, rule, -, same⟩ := linkingLaws.reuse
    [(.text "S", .rule original), (.text "C", .value (.text "c"))] 1 .null _ rfl (-2) linked rfl
  cases at_slot
  cases rule
  have replaced : Table.Refilled original linked (other original) (other linked) :=
    .cons ⟨rfl, .same _⟩ (.cons ⟨rfl, .same _⟩
      (.cons ⟨rfl, .rule rfl (.parts (.repeated .here .optional))⟩ .nil))
  exact ⟨inner, _, _, linked, rfl, rfl, rfl, same _ _ replaced 2 .null, rfl⟩

end Grammar

end Peg
