import Peg.Proofs.Grammar.Building

/-!
# Defects of tables

A table makes a grammar if it is *well formed*: it has rules, they are called by names, the start
rule is one of them, and every rule is a rule or a text and refers to rules of the table only. What
stands inside of rules that are bound to other grammars does not matter, and neither do slots that
references carry from elsewhere.

A table that is not well formed has a first *defect*, and building a grammar fails with that one.
The two descriptions do not speak of how a grammar is built. They meet in the error of the building,
which is put together from the errors of its steps.
-/

namespace Peg

open Except

/-- The value can be the name of a rule: a text that is not empty. -/
def Value.IsName (v : Value) : Prop := ∃ name, v = .text name ∧ name ≠ []

/-- The operand is a text, or it is a rule and all references in it, those inside of bound rules
aside, have one of the names. -/
def Operand.SoundFor (names : List Text) (o : Operand) : Prop :=
  (∃ t, o = .value (.text t)) ∨
    ∃ r, o = .rule r ∧ ∀ name slot, Rule.PartOf (.reference name slot) r → name ∈ names

namespace Table

/-- What it takes for a table to make a grammar with a start rule. -/
structure WellFormed (table : Table) (start : Value) : Prop where
  /-- There is a rule. -/
  ne_nil : table ≠ []
  /-- The names are names. -/
  named : ∀ entry ∈ table, entry.1.IsName
  /-- The start rule is left open or is one of the rules. -/
  started : start = .null ∨ ∃ name ∈ table.texts, start = .text name
  /-- The rules are rules or texts and refer to rules of the table. -/
  sound : ∀ entry ∈ table, entry.2.SoundFor table.texts

/-- The first defect of a table and a start rule. -/
inductive Defect (table : Table) (start : Value) : DefinitionError → Prop where
  /-- There are no rules. -/
  | noRules (empty : table = []) : Defect table start .noRules
  /-- A name is no name, and all names before it are. -/
  | badRuleName {before after : Table} {entry : Value × Operand}
      (here : table = before ++ entry :: after) (bad : ¬ entry.1.IsName)
      (named : ∀ entry' ∈ before, entry'.1.IsName) : Defect table start (.badRuleName entry.1)
  /-- All names are names, but none of them is that of the start rule. -/
  | undefinedStart {name : Text} (ne_nil : table ≠ []) (named : ∀ entry ∈ table, entry.1.IsName)
      (asked : start = .text name) (missing : name ∉ table.texts) :
      Defect table start (.undefinedStart start)
  /-- Names and start are as they should be, and a value that is no text stands for a rule. The
  rules before it are sound. -/
  | notARule {before after : Table} {name : Value} {v : Value}
      (here : table = before ++ (name, .value v) :: after) (bad : ∀ t, v ≠ .text t)
      (named : ∀ entry ∈ table, entry.1.IsName)
      (started : start = .null ∨ ∃ name ∈ table.texts, start = .text name)
      (sound : ∀ entry ∈ before, entry.2.SoundFor table.texts) :
      Defect table start (.notARule v.typeName)
  /-- Names and start are as they should be, and a rule refers to a name that is missing. It is the
  leftmost such name in the rule, and the rules before it are sound. -/
  | undefinedReference {before after : Table} {name : Value} {r : Rule} {left right : List Text}
      {missing : Text} (here : table = before ++ (name, .rule r) :: after)
      (leftmost : r.references = left ++ missing :: right) (defined : ∀ n ∈ left, n ∈ table.texts)
      (bad : missing ∉ table.texts) (named : ∀ entry ∈ table, entry.1.IsName)
      (started : start = .null ∨ ∃ name ∈ table.texts, start = .text name)
      (sound : ∀ entry ∈ before, entry.2.SoundFor table.texts) :
      Defect table start (.undefinedReference missing)

end Table

namespace Grammar

/-! ## The errors of the steps -/

theorem exists_ruleName_iff {v : Value} : (∃ name, ruleName v = .ok name) ↔ v.IsName :=
  exists_congr fun _ ↦ ruleName_eq_ok_iff

theorem ruleName_eq_error_iff {v : Value} {e : DefinitionError} :
    ruleName v = .error e ↔ ¬ v.IsName ∧ e = .badRuleName v := by
  rw [← exists_ruleName_iff]
  unfold ruleName
  split
  next c rest => simp
  next notName => simp [eq_comm]

theorem exists_startName_iff {names : List Text} {start : Value}
    (asked : start = .null ∨ ∃ name, start = .text name) :
    (∃ name, startName names start = .ok name) ↔
      start = .null ∨ ∃ name ∈ names, start = .text name := by
  rcases asked with rfl | ⟨name, rfl⟩
  · simp [startName]
  · by_cases defined : name ∈ names
    · simp [startName, defined]
    · simp [startName, defined]

theorem startName_eq_error_iff {names : List Text} {start : Value} {e : DefinitionError}
    (asked : start = .null ∨ ∃ name, start = .text name) :
    startName names start = .error e ↔
      ∃ name, start = .text name ∧ name ∉ names ∧ e = .undefinedStart start := by
  rcases asked with rfl | ⟨name, rfl⟩
  · simp [startName]
  · by_cases defined : name ∈ names
    · simp [startName, defined]
    · simp [startName, defined, eq_comm]

/-- An operand becomes a linked rule if it is sound. -/
theorem exists_linked_iff {names : List Text} {o : Operand} :
    (∃ r, (o.toRule >>= fun r ↦ r.link names.idxOf?) = .ok r) ↔ o.SoundFor names := by
  unfold Operand.SoundFor
  cases o with
  | rule r =>
      have sound : r.Linkable names.idxOf? ↔
          ∀ name slot, Rule.PartOf (.reference name slot) r → name ∈ names := by
        simp only [Rule.linkable_iff, Rule.mem_references_iff, List.isSome_idxOf?,
          forall_exists_index]
      constructor
      · exact fun linked ↦ .inr ⟨r, rfl, sound.mp linked⟩
      · rintro (⟨t, ⟨⟩⟩ | ⟨_, ⟨⟩, defined⟩)
        exact sound.mpr defined
  | value v =>
      constructor
      · rintro ⟨r, linked⟩
        cases v with
        | text t => exact .inl ⟨t, rfl⟩
        | _ => cases linked
      · rintro (⟨t, ⟨⟩⟩ | ⟨r, ⟨⟩, -⟩)
        exact ⟨.literal t, rfl⟩

/-- What is wrong with an operand is that it is no rule, or that it refers to something that is
missing. -/
theorem linked_eq_error_iff {names : List Text} {o : Operand} {e : DefinitionError} :
    (o.toRule >>= fun r ↦ r.link names.idxOf?) = .error e ↔
      (∃ v, o = .value v ∧ (∀ t, v ≠ .text t) ∧ e = .notARule v.typeName) ∨
      ∃ r left missing right, o = .rule r ∧ r.references = left ++ missing :: right ∧
        (∀ n ∈ left, n ∈ names) ∧ missing ∉ names ∧ e = .undefinedReference missing := by
  cases o with
  | rule r =>
      rw [Operand.toRule_rule, ok_bind, Rule.link_eq_error_iff]
      simp only [List.isSome_idxOf?, List.idxOf?_eq_none_iff]
      constructor
      · rintro ⟨left, missing, right, leftmost, defined, bad, rfl⟩
        exact .inr ⟨r, left, missing, right, rfl, leftmost, defined, bad, rfl⟩
      · rintro (⟨v, ⟨⟩, -⟩ | ⟨_, left, missing, right, ⟨⟩, leftmost, defined, bad, rfl⟩)
        exact ⟨left, missing, right, leftmost, defined, bad, rfl⟩
  | value v =>
      constructor
      · intro fails
        cases v with
        | text t => cases fails
        | _ =>
            cases fails
            exact .inl ⟨_, rfl, nofun, rfl⟩
      · rintro (⟨_, ⟨⟩, bad, rfl⟩ | ⟨r, _, _, _, ⟨⟩, -⟩)
        cases v with
        | text t => exact (bad t rfl).elim
        | _ => rfl

/-- The error of the building is the first one of its steps. -/
theorem failure?_build (id : Nat) (table : Table) (start : Value) :
    (build id table start).failure? =
      if table = [] then some .noRules
      else (table.findSome? fun entry ↦ (ruleName entry.1).failure?).or
        ((startName table.texts start).failure?.or
          (table.findSome? fun entry ↦
            (entry.2.toRule >>= fun r ↦ r.link table.texts.idxOf?).failure?)) := by
  cases table with
  | nil => rfl
  | cons entry table =>
      rw [if_neg (List.cons_ne_nil entry table), ← failure?_mapM, ← failure?_mapM]
      refine failure?_bind fun names named ↦ ?_
      rw [texts_eq_names (mapM_eq_ok_iff.mp named)]
      refine failure?_bind fun start' _ ↦ ?_
      exact failure?_map _ _

/-! ## Success and failure -/

section Building

variable {id : Nat} {table : Table} {start : Value}

/-- A table makes a grammar if and only if it is well formed. -/
theorem exists_build_iff (asked : start = .null ∨ ∃ name, start = .text name) :
    (∃ g, build id table start = .ok g) ↔ table.WellFormed start := by
  rw [← failure?_eq_none_iff, failure?_build]
  by_cases empty : table = []
  · rw [if_pos empty]
    exact ⟨nofun, fun formed ↦ (formed.ne_nil empty).elim⟩
  · simp only [if_neg empty, Option.or_eq_none_iff, List.findSome?_eq_none_iff,
      failure?_eq_none_iff, exists_ruleName_iff, exists_startName_iff asked, exists_linked_iff]
    constructor
    · rintro ⟨named, started, sound⟩
      exact ⟨empty, named, started, sound⟩
    · exact fun formed ↦ ⟨formed.named, formed.started, formed.sound⟩

/-- Building a grammar fails with the first defect of the table. -/
theorem build_eq_error_iff (asked : start = .null ∨ ∃ name, start = .text name)
    {e : DefinitionError} : build id table start = .error e ↔ table.Defect start e := by
  rw [← failure?_eq_some_iff, failure?_build]
  by_cases empty : table = []
  · rw [if_pos empty]
    subst empty
    constructor
    · rintro ⟨⟩
      exact .noRules rfl
    · intro defect
      cases defect with
      | noRules => rfl
      | undefinedStart ne_nil => exact (ne_nil rfl).elim
      | badRuleName here | notARule here | undefinedReference here => simp at here
  · simp only [if_neg empty, Option.or_eq_some_iff, List.findSome?_eq_some_iff,
      List.findSome?_eq_none_iff, failure?_eq_some_iff, failure?_eq_none_iff,
      ruleName_eq_error_iff, exists_ruleName_iff, startName_eq_error_iff asked,
      exists_startName_iff asked, linked_eq_error_iff, exists_linked_iff]
    constructor
    · rintro (⟨before, entry, after, here, ⟨bad, rfl⟩, named⟩ |
        ⟨named, ⟨name, asked, missing, rfl⟩ |
          ⟨started, before, ⟨name, o⟩, after, here, wrong, sound⟩⟩)
      · exact .badRuleName here bad named
      · exact .undefinedStart empty named asked missing
      · rcases wrong with ⟨v, rfl, bad, rfl⟩ |
          ⟨r, left, missing, right, rfl, leftmost, defined, bad, rfl⟩
        · exact .notARule here bad named started sound
        · exact .undefinedReference here leftmost defined bad named started sound
    · intro defect
      cases defect with
      | noRules none => exact (empty none).elim
      | badRuleName here bad named => exact .inl ⟨_, _, _, here, ⟨bad, rfl⟩, named⟩
      | undefinedStart _ named asked missing =>
          exact .inr ⟨named, .inl ⟨_, asked, missing, rfl⟩⟩
      | notARule here bad named started sound =>
          refine .inr ⟨named, .inr ⟨started, _, _, _, here, .inl ?_, sound⟩⟩
          exact ⟨_, rfl, bad, rfl⟩
      | undefinedReference here leftmost defined bad named started sound =>
          refine .inr ⟨named, .inr ⟨started, _, _, _, here, .inr ?_, sound⟩⟩
          exact ⟨_, _, _, _, rfl, leftmost, defined, bad, rfl⟩

/-- A grammar is built from a table and a start rule, left open or given by a name, if and only if
the table is well formed, and else the building fails with the first defect and with no other one.
-/
theorem build_succeeds_or_first_defect (id : Nat)
    (asked : start = .null ∨ ∃ name, start = .text name) :
    ((∃ g, build id table start = .ok g) ↔ table.WellFormed start) ∧
      ∀ e, build id table start = .error e ↔ table.Defect start e :=
  ⟨exists_build_iff asked, fun _ ↦ build_eq_error_iff asked⟩

/-- Of two names that are missing in one rule the leftmost is reported, and the number that stands
for the next rule is not. The bound rule refers to a rule of its own grammar, and the reference that
carries a slot from elsewhere is defined. -/
theorem build_succeeds_or_first_defect_leftmost : ∃ inner : Grammar, inner.names = ["X"] ∧
    build 1 [(.text "S", .rule (.sequence [.reference "T" (some 9),
      .choice [.notFollowedBy (.bound inner 0), .reference "U" none], .reference "V" none])),
      (.text "T", .value (.int 3))] (.text "T") = .error (.undefinedReference "U") ∧
    ∃ g, build 1 [(.text "S", .rule (.sequence [.reference "T" (some 9), .bound inner 0])),
      (.text "T", .value (.text "t"))] .null = .ok g := by
  let inner : Grammar := ⟨0, ["X"], [.reference "X" (some 0)], "X"⟩
  let broken : Rule := .sequence [.reference "T" (some 9),
    .choice [.notFollowedBy (.bound inner 0), .reference "U" none], .reference "V" none]
  let whole : Rule := .sequence [.reference "T" (some 9), .bound inner 0]
  let table (r : Rule) (o : Operand) : Table := [(.text "S", .rule r), (.text "T", o)]
  have named : ∀ r o, ∀ entry ∈ table r o, entry.1.IsName := by
    rintro r o entry (_ | ⟨_, _ | ⟨_, ⟨⟩⟩⟩)
    · exact ⟨"S", rfl, by decide⟩
    · exact ⟨"T", rfl, by decide⟩
  have texts : ∀ r o, (table r o).texts = ["S", "T"] := fun _ _ ↦ rfl
  refine ⟨inner, rfl, ?_, ?_⟩
  · obtain ⟨-, fails⟩ := @build_succeeds_or_first_defect (table broken (.value (.int 3)))
      (.text "T") 1 (.inr ⟨"T", rfl⟩)
    have here : table broken (.value (.int 3)) =
      [] ++ (.text "S", .rule broken) :: [(.text "T", .value (.int 3))] := rfl
    have leftmost : broken.references = ["T"] ++ "U" :: ["V"] := rfl
    refine (fails _).mpr (.undefinedReference here leftmost ?_ ?_ (named _ _) (.inr ?_) nofun)
    · rw [texts]
      decide
    · rw [texts]
      decide
    · exact ⟨"T", by rw [texts]; decide, rfl⟩
  · obtain ⟨succeeds, -⟩ := @build_succeeds_or_first_defect (table whole (.value (.text "t")))
      .null 1 (.inl rfl)
    refine succeeds.mpr ⟨nofun, named _ _, .inl rfl, ?_⟩
    rintro entry (_ | ⟨_, _ | ⟨_, ⟨⟩⟩⟩)
    · refine .inr ⟨whole, rfl, fun name slot part ↦ ?_⟩
      have inside : name ∈ [("T" : Text)] := Rule.mem_references_iff.mpr ⟨slot, part⟩
      rw [texts, List.mem_singleton.mp inside]
      decide
    · exact .inl ⟨"t", rfl⟩

end Building

end Grammar

end Peg
