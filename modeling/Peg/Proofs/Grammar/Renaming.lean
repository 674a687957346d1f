import Peg.Proofs.Grammar.Merging
import Peg.Proofs.Notation.Rereading

/-!
# Other names, another order, more rules

What a rule of a grammar does depends on nothing but the rules that its references lead to. A table
can list its rules in another order, call them by other names and hold rules that nothing refers to:
the slots that references are linked to are other ones then, but what stands in them is the same.
-/

namespace Peg

open Except

/-! ## Rules without slots -/

namespace Rule

variable {onReference : Text → Option Int → Rule} {onBound : Grammar → Nat → Rule}

/-- What is put in the place of references and bound rules can be unlinked before or afterwards. -/
theorem unlinked_substitute (r : Rule) : (r.substitute onReference onBound).unlinked =
    r.substitute (fun name slot ↦ (onReference name slot).unlinked)
      fun g slot ↦ (onBound g slot).unlinked := by
  have all : ∀ rs : List Rule, (∀ r ∈ rs, (r.substitute onReference onBound).unlinked =
      r.substitute (fun name slot ↦ (onReference name slot).unlinked)
        fun g slot ↦ (onBound g slot).unlinked) →
      unlinkedAll (substituteAll onReference onBound rs) =
        substituteAll (fun name slot ↦ (onReference name slot).unlinked)
          (fun g slot ↦ (onBound g slot).unlinked) rs := by
    intro rs same
    rw [unlinkedAll_eq_map, substituteAll_eq_map, substituteAll_eq_map, List.map_map]
    exact List.map_congr_left same
  induction r using Rule.induction with
  | literal | charRange | anyChar | reference | bound => rfl
  | repeated inner quantifier ih => rw [substitute, unlinked, ih, substitute]
  | followedBy inner ih => rw [substitute, unlinked, ih, substitute]
  | notFollowedBy inner ih => rw [substitute, unlinked, ih, substitute]
  | sequence items ih => rw [substitute, unlinked, all items ih, substitute]
  | choice alternatives ih => rw [substitute, unlinked, all alternatives ih, substitute]

end Rule

namespace Table

/-- The table with the slots of all references left out. -/
def unlinked (table : Table) : Table :=
  table.map fun (name, o) ↦ (name, o.mapRule Rule.unlinked)

/-- The slots in a table make no difference to the grammar. -/
theorem build_unlinked (id : Nat) (table : Table) (start : Value) :
    Grammar.build id table.unlinked start = Grammar.build id table start := by
  have rule : ∀ (o : Operand) (slotOf : Text → Option Nat),
      (o.mapRule Rule.unlinked).toRule >>= Rule.link slotOf = o.toRule >>= Rule.link slotOf := by
    intro o slotOf
    rw [Operand.toRule_mapRule fun _ ↦ rfl]
    cases o.toRule with
    | error e => rfl
    | ok r => exact r.link_unlinked
  simp only [Grammar.build, unlinked, List.mapM_map, List.isEmpty_map, Function.comp_def, rule]

end Table

/-! ## Renamed tables -/

/-- The rules of one table are rules of another one, under other names and with their references
renamed alike. The slots of references do not matter. -/
def Table.RenamedInto (rename : Text → Text) (names : List Text) (table table' : Table) : Prop :=
  ∀ name ∈ names, ∃ r r', table.ruleCalled name = .ok r ∧
    table'.ruleCalled (rename name) = .ok r' ∧ r'.unlinked = (r.renamed rename).unlinked

section Renaming

variable {rename : Text → Text} {table table' : Table} {id id' : Nat} {start start' : Value}
  {g g' : Grammar}

/-- A rule runs in its table as it does under its new name, with its references renamed, in the
other one. -/
theorem simulation_renamedInto (input : Array CodePoint)
    (built : Grammar.build id table start = .ok g)
    (renamed : Table.RenamedInto rename g.names table table') :
    Simulation table.byName table'.unlinked.byName input fun r r' ↦
      r.Linkable g.names.idxOf? ∧
        r' = r.substitute (fun name _ ↦ .reference (rename name) none) .bound := by
  obtain ⟨-, -, named, -, linked⟩ := Grammar.build_eq_ok_iff.mp built
  refine simulation_substitute (fun r part h h' ↦ h.of_part h') ?_ fun g slot _ ↦ .bound g slot
  intro name slot linkable
  obtain ⟨n, found⟩ := Option.isSome_iff_exists.mp ((Rule.linkable_reference name slot).mp linkable)
  have mem : name ∈ g.names := List.isSome_idxOf?.mp (Option.isSome_iff_exists.mpr ⟨n, found⟩)
  obtain ⟨r, r', held, held', same⟩ := renamed name mem
  obtain ⟨_, linkedRule, called, -, link⟩ := Table.exists_rule_of_slot named linked found
  cases held.symm.trans called
  have bare := Table.ruleCalled_map (f := Rule.unlinked) (fun _ ↦ rfl) held'
  rw [same, Rule.renamed, Rule.unlinked_substitute] at bare
  exact .reference held bare ⟨⟨linkedRule, link⟩, rfl⟩

namespace Grammar

theorem evalByName_renamedInto (built : build id table start = .ok g)
    (renamed : Table.RenamedInto rename g.names table table') {name : Text} (mem : name ∈ g.names)
    (input : Array CodePoint) (frames pos : Nat) :
    table.evalByName input frames name pos =
      table'.unlinked.evalByName input frames (rename name) pos :=
  (simulation_renamedInto input built renamed).evalWith_eq ⟨by simpa using mem, rfl⟩ frames pos

/-- Rules do not depend on their names, on their order or on other rules. If the rules of a table
are among those of another one, under other names and with their references renamed alike, each of
them gives the same trees, failures and halts in the grammars of both tables, with the same number
of frames, and so it consumes and accepts the same texts. Different rules may even get the same new
name. -/
theorem evaluate_renamed (built : build id table start = .ok g)
    (built' : build id' table' start' = .ok g')
    (renamed : Table.RenamedInto rename g.names table table') {name : Text}
    (mem : name ∈ g.names) : ∃ r r', g.rule (.text name) = .ok r ∧
      g'.rule (.text (rename name)) = .ok r' ∧
      (∀ frames text pos, r.evaluate frames text pos = r'.evaluate frames text pos) ∧
      ∀ frames text, r.parse frames text = r'.parse frames text ∧
        r.parseAll frames text = r'.parseAll frames text ∧
        r.accepts frames text = r'.accepts frames text ∧
        r.acceptsAll frames text = r'.acceptsAll frames text := by
  have mem' : rename name ∈ g'.names := by
    obtain ⟨-, -, named', -⟩ := build_eq_ok_iff.mp built'
    obtain ⟨-, r', -, held', -⟩ := renamed name mem
    obtain ⟨entry, memEntry, called, -⟩ := Table.exists_mem_of_ruleCalled held'
    rw [← texts_eq_names named']
    exact Table.mem_texts_iff.mpr ⟨entry, memEntry, called⟩
  obtain ⟨r, called, runs⟩ := exists_rule_evalByName built mem
  rw [← Table.build_unlinked] at built'
  obtain ⟨r', called', runs'⟩ := exists_rule_evalByName built' mem'
  have same : ∀ frames text pos, r.evaluate frames text pos = r'.evaluate frames text pos := by
    intro frames text pos
    simp only [Rule.evaluate, runs, runs', evalByName_renamedInto built renamed mem]
  refine ⟨r, r', called, called', same, fun frames text ↦ ?_⟩
  simp only [Rule.parse, Rule.parseAll, Rule.accepts, Rule.acceptsAll, same, and_self]

/-- Two rules that call each other, in the other order behind one more rule, with another start rule
and with slots of nowhere. -/
theorem evaluate_renamed_reordered : ∃ (g g' : Grammar) (r r' : Rule),
    g.names = ["S", "T"] ∧ g'.names = ["X", "U", "V"] ∧ g'.start = "X" ∧
    g.rules = [.sequence [.reference "T" (some 1),
      .repeated (.reference "S" (some 0)) .optional], .literal "a"] ∧
    g'.rules = [.literal "c", .literal "a", .sequence [.reference "U" (some 1),
      .repeated (.reference "V" (some 2)) .optional]] ∧
    g.rule (.text "S") = .ok r ∧ g'.rule (.text "V") = .ok r' ∧
    r.evaluate 12 "aab" 0 = r'.evaluate 12 "aab" 0 ∧ r.parse 12 "aab" = r'.parse 12 "aab" ∧
    ∃ t, r.evaluate 12 "aab" 0 = .ok (some t) ∧ t.stop = 2 := by
  let table : Table := [(.text "S", .rule (.sequence [.reference "T" none,
    .repeated (.reference "S" (some 7)) .optional])), (.text "T", .value (.text "a"))]
  let table' : Table := [(.text "X", .value (.text "c")), (.text "U", .rule (.literal "a")),
    (.text "V", .rule (.sequence [.reference "U" (some (-1)),
      .repeated (.reference "V" none) .optional]))]
  let rename : Text → Text := fun name ↦ if name = "S" then "V" else "U"
  have renamed : Table.RenamedInto rename ["S", "T"] table table' := by
    rintro name (_ | ⟨_, _ | ⟨_, ⟨⟩⟩⟩)
    · exact ⟨_, _, rfl, rfl, rfl⟩
    · exact ⟨_, _, rfl, rfl, rfl⟩
  have built : build 0 table .null = .ok ⟨0, ["S", "T"], _, "S"⟩ := rfl
  have built' : build 1 table' (.text "X") = .ok ⟨1, ["X", "U", "V"], _, "X"⟩ := rfl
  have mem : ("S" : Text) ∈ (["S", "T"] : List Text) := List.mem_cons_self
  obtain ⟨r, r', called, called', same, agree⟩ := evaluate_renamed built built' renamed mem
  refine ⟨_, _, r, r', rfl, rfl, rfl, rfl, rfl, called, called', same 12 "aab" 0,
    (agree 12 "aab").1, ?_⟩
  cases called
  exact ⟨_, rfl, rfl⟩

end Grammar

end Renaming

end Peg
