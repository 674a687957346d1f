import Peg.Match
import Peg.Grammar.Lookup
import Peg.Proofs.Evaluation.Simulation
import Peg.Proofs.Grammar.Building

/-!
# Rules by name

A table can be run without building a grammar from it: wherever a reference is met, the rule of that
name is looked up in the table, and whatever slot the reference carries is ignored. A grammar that
is built from the table does the same with the slots it has linked its references to, frame by
frame: a rule and the rule it is linked to run alike.
-/

namespace Peg

open Except

/-! ## Tables -/

namespace Table

/-- The rule that a table holds under a name. -/
def ruleCalled (table : Table) (name : Text) : Except Halt Rule :=
  match table.find? fun entry ↦ text? entry = some name with
  | some entry => entry.2.toRule.mapError fun _ ↦ .unresolved name
  | none => .error (.unresolved name)

/-- References stand for the rules that a table holds under their names. -/
def byName (table : Table) : Resolver := fun name _ ↦ table.ruleCalled name

/-- Runs the rule of that name and looks up by name whatever it refers to. Entering a rule takes a
frame. -/
def evalByName (table : Table) (input : Array CodePoint) (frames : Nat) (name : Text) : Matcher :=
  evalWith table.byName input frames (.reference name none)

theorem ruleCalled_cons_self (name : Text) (o : Operand) (table : Table) {r : Rule}
    (rule : o.toRule = .ok r) : ruleCalled ((.text name, o) :: table) name = .ok r := by
  simp [ruleCalled, text?, mapError_eq_ok_iff, rule]

theorem ruleCalled_cons_of_ne {name name' : Text} (o : Operand) (table : Table)
    (other : name' ≠ name) :
    ruleCalled ((.text name', o) :: table) name = ruleCalled table name := by
  simp [ruleCalled, text?, other]

end Table

/-! ## Linked rules -/

section Linked

variable {table : Table} {names : List Text} {rules : List Rule} {slotOf : Text → Option Nat}

/-- In the slot of a name stands the rule that the table holds under it, linked. -/
theorem Table.exists_rule_of_slot
    (named : List.Forall₂ (fun entry name ↦ Grammar.ruleName entry.1 = .ok name) table names)
    (linked : List.Forall₂ (fun entry r ↦ ∃ r', entry.2.toRule = .ok r' ∧ r'.link slotOf = .ok r)
      table rules) {name : Text} {n : Nat} (found : names.idxOf? name = some n) :
    ∃ r r', table.ruleCalled name = .ok r ∧ rules[n]? = some r' ∧ r.link slotOf = .ok r' := by
  -- Both searches stop at the first entry of that name.
  induction named generalizing rules n with
  | nil => cases found
  | @cons entry name' table names first _ ih =>
      cases linked with
      | @cons _ r' _ rules rule others =>
          obtain ⟨v, o⟩ := entry
          obtain ⟨rfl, -⟩ := Grammar.ruleName_eq_ok_iff.mp first
          obtain ⟨r, rule, link⟩ := rule
          by_cases same : name' = name
          · subst same
            obtain rfl : 0 = n := by simpa [List.idxOf?_cons] using found
            exact ⟨r, r', ruleCalled_cons_self _ o table rule, rfl, link⟩
          · obtain ⟨m, found', rfl⟩ : ∃ m, names.idxOf? name = some m ∧ m + 1 = n := by
              simpa [List.idxOf?_cons, same] using found
            rw [ruleCalled_cons_of_ne o table same]
            exact ih others found'

/-- A rule and the rule it is linked to are built alike, references looked up by name in the one
and by slot in the other. -/
theorem simulation_link (input : Array CodePoint) {g : Grammar}
    (named : List.Forall₂ (fun entry name ↦ Grammar.ruleName entry.1 = .ok name) table g.names)
    (linked : List.Forall₂ (fun entry r ↦ ∃ r', entry.2.toRule = .ok r' ∧
      r'.link g.names.idxOf? = .ok r) table g.rules) :
    Simulation table.byName (fun name slot ↦ resolve name slot (some g)) input
      fun r r' ↦ r.link g.names.idxOf? = .ok r' := by
  intro r r' link
  cases r with
  | literal t =>
      cases link
      exact .literal t
  | charRange ranges =>
      cases link
      exact .charRange ranges
  | anyChar =>
      cases link
      exact .anyChar
  | bound g' slot =>
      cases link
      exact .bound g' slot
  | reference name slot =>
      rw [Rule.link_reference] at link
      split at link
      next n found =>
        cases link
        obtain ⟨r, r', held, stands, link⟩ := Table.exists_rule_of_slot named linked found
        refine .reference held ?_ link
        simp only [resolve, ruleIn, GrammarOf.ruleAt?, fromEitherEnd?_natCast, stands]
      next => cases link
  | repeated inner quantifier =>
      obtain ⟨inner', part, same⟩ := bind_eq_ok_iff.mp link
      cases same
      exact .repeated part quantifier
  | followedBy inner =>
      obtain ⟨inner', part, same⟩ := bind_eq_ok_iff.mp link
      cases same
      exact .followedBy part
  | notFollowedBy inner =>
      obtain ⟨inner', part, same⟩ := bind_eq_ok_iff.mp link
      cases same
      exact .notFollowedBy part
  | sequence items =>
      obtain ⟨items', parts, same⟩ := bind_eq_ok_iff.mp link
      cases same
      exact .sequence (Rule.linkAll_eq_ok_iff.mp parts)
  | choice alternatives =>
      obtain ⟨alternatives', parts, same⟩ := bind_eq_ok_iff.mp link
      cases same
      exact .choice (Rule.linkAll_eq_ok_iff.mp parts)

end Linked

/-! ## Grammars -/

namespace Grammar

variable {id : Nat} {table : Table} {start : Value} {g : Grammar}

/-- A grammar that is built from a table has a rule of each of its names, and that rule runs as the
table does when names are looked up in it. -/
theorem exists_rule_evalByName (built : build id table start = .ok g) {name : Text}
    (mem : name ∈ g.names) : ∃ r, g.rule (.text name) = .ok r ∧ ∀ input frames pos,
      eval input frames none r pos = table.evalByName input frames name pos := by
  obtain ⟨-, -, named, -, linked⟩ := build_eq_ok_iff.mp built
  obtain ⟨n, found⟩ := Option.isSome_iff_exists.mp (List.isSome_idxOf?.mpr mem)
  refine ⟨.bound g n, rule_text found, fun input frames pos ↦ ?_⟩
  obtain ⟨r, r', held, stands, link⟩ := Table.exists_rule_of_slot named linked found
  cases frames with
  | zero => rfl
  | succ frames =>
      have enters : ruleIn g n = .ok r' := by
        simp only [ruleIn, GrammarOf.ruleAt?, fromEitherEnd?_natCast, stands]
      rw [eval_bound, enters, ok_bind, eval_eq_evalWith,
        ← (simulation_link input named linked).evalWith_eq link, Table.evalByName, evalWith,
        Table.byName, held]
      rfl

/-- A grammar gives the trees, failures and halts that its table gives when every reference is
looked up by name, with the same number of frames. -/
theorem evaluate_eq_evalByName (built : build id table start = .ok g) {name : Text}
    (mem : name ∈ g.names) : ∃ r, g.rule (.text name) = .ok r ∧
      ∀ frames (text : Text) (pos : Nat), pos ≤ text.length → r.evaluate frames text pos =
        (table.evalByName text.toArray frames name pos).mapError .halted := by
  obtain ⟨r, called, runs⟩ := exists_rule_evalByName built mem
  refine ⟨r, called, fun frames text pos within ↦ ?_⟩
  rw [Rule.evaluate_natCast frames r within, runs]

/-- References that carry slots of nowhere, one to the rule that holds it and one to a rule that is
given by its text, next to a rule of the same name in another grammar. -/
theorem evaluate_eq_evalByName_stale : ∃ (table : Table) (g : Grammar) (r : Rule),
    table = [(.text "S", .rule (.sequence [.reference "T" (some 7),
      .bound ⟨0, ["T"], [.literal "b"], "T"⟩ 0, .repeated (.reference "S" (some 1)) .optional,
      .reference "T" none])), (.text "T", .value (.text "a"))] ∧
    build 1 table .null = .ok g ∧ ("S" : Text) ∈ g.names ∧ g.rule (.text "S") = .ok r ∧
    r.evaluate 12 "ababaa" 0 =
      (table.evalByName ("ababaa" : Text).toArray 12 "S" 0).mapError .halted ∧
    ∃ t, r.evaluate 12 "ababaa" 0 = .ok (some t) ∧ t.stop = 6 := by
  have built : build 1 [(.text "S", .rule (.sequence [.reference "T" (some 7),
      .bound ⟨0, ["T"], [.literal "b"], "T"⟩ 0, .repeated (.reference "S" (some 1)) .optional,
      .reference "T" none])), (.text "T", .value (.text "a"))] .null =
    .ok ⟨1, ["S", "T"], [.sequence [.reference "T" (some 1),
      .bound ⟨0, ["T"], [.literal "b"], "T"⟩ 0, .repeated (.reference "S" (some 0)) .optional,
      .reference "T" (some 1)], .literal "a"], "S"⟩ := rfl
  have mem : ("S" : Text) ∈ (["S", "T"] : List Text) := List.mem_cons_self
  obtain ⟨r, called, same⟩ := evaluate_eq_evalByName built mem
  refine ⟨_, _, r, rfl, built, mem, called, same 12 "ababaa" 0 (by decide), ?_⟩
  cases called
  exact ⟨_, rfl, rfl⟩

end Grammar

end Peg
