import Peg.Proofs.Grammar.ByName
import Peg.Proofs.Grammar.History
import Peg.Proofs.Rule.Substitution

/-!
# Merging grammars

Rules of one grammar can be bound inside another one, and both can use the same names. That is no
more than a way to keep the names apart: the rules of the inner grammar can as well be added to the
table of the outer one under fresh names, with references to them in the place of the bound rules.
Every rule of the outer grammar then does what it did, with the same number of frames. So a
reference always means the rule of that name in the grammar that its own rule belongs to, wherever
the run comes from and whatever it has passed through.
-/

namespace Peg

open Except

/-! ## Looking up names in tables -/

namespace Operand

/-- The operand with another rule in the place of its rule; a value stays as it is. -/
def mapRule (f : Rule → Rule) : Operand → Operand
  | rule r => rule (f r)
  | value v => value v

/-- The rule of an operand is changed if its literals would not be. -/
theorem toRule_mapRule {f : Rule → Rule} (literal : ∀ t, f (.literal t) = .literal t)
    (o : Operand) : (o.mapRule f).toRule = o.toRule.map f := by
  cases o with
  | rule r => rfl
  | value v =>
      cases v with
      | text t => exact congrArg Except.ok (literal t).symm
      | null | bool | int | decimal | list | tuple => rfl

end Operand

namespace Table

variable {table more : Table} {name : Text} {r : Rule}

theorem mem_texts_iff : name ∈ table.texts ↔ ∃ entry ∈ table, text? entry = some name := by
  rw [texts, List.mem_filterMap]

/-- A rule that a table holds is the rule of an entry. -/
theorem exists_mem_of_ruleCalled (h : table.ruleCalled name = .ok r) :
    ∃ entry ∈ table, text? entry = some name ∧ entry.2.toRule = .ok r := by
  unfold ruleCalled at h
  split at h
  next entry found =>
    have called := List.find?_some found
    exact ⟨entry, List.mem_of_find?_eq_some found, by simpa using called,
      mapError_eq_ok_iff.mp h⟩
  next => cases h

theorem ruleCalled_append_of_mem (mem : name ∈ table.texts) :
    ruleCalled (table ++ more) name = ruleCalled table name := by
  obtain ⟨entry, mem, called⟩ := mem_texts_iff.mp mem
  have found : (table.find? fun entry ↦ text? entry = some name).isSome = true :=
    List.find?_isSome.mpr ⟨entry, mem, by simpa using called⟩
  rw [ruleCalled, List.find?_append, Option.or_of_isSome found, ruleCalled]

theorem ruleCalled_append_of_notMem (absent : name ∉ table.texts) :
    ruleCalled (table ++ more) name = ruleCalled more name := by
  have missing : table.find? (fun entry ↦ text? entry = some name) = none := by
    rw [List.find?_eq_none]
    intro entry mem called
    exact absent (mem_texts_iff.mpr ⟨entry, mem, by simpa using called⟩)
  rw [ruleCalled, List.find?_append, missing, Option.none_or, ruleCalled]

theorem texts_append (table more : Table) : texts (table ++ more) = table.texts ++ more.texts :=
  List.filterMap_append

theorem ruleCalled_of_mem (nodup : table.texts.Nodup) {o : Operand}
    (mem : (.text name, o) ∈ table) (rule : o.toRule = .ok r) : table.ruleCalled name = .ok r := by
  obtain ⟨before, after, rfl⟩ := List.append_of_mem mem
  have absent : name ∉ texts before := by
    rw [texts_append, texts_cons_text] at nodup
    exact fun earlier ↦ List.disjoint_of_nodup_append nodup earlier List.mem_cons_self
  rw [ruleCalled_append_of_notMem absent, ruleCalled_cons_self name o after rule]

end Table

/-! ## Merged tables -/

namespace Rule

/-- The rule with its references called by other names. -/
def renamed (rename : Text → Text) : Rule → Rule :=
  substitute (fun name slot ↦ .reference (rename name) slot) .bound

/-- The rule with references, under new names, in the place of the rules that are bound to the inner
grammar. -/
def released (inner : Grammar) (rename : Text → Text) : Rule → Rule :=
  substitute .reference fun g slot ↦
    match if g.id = inner.id then inner.names[slot]? else none with
    | some name => .reference (rename name) none
    | none => .bound g slot

/-- What bears the stamp of a grammar in the rule is that grammar. -/
def Stamped (g : Grammar) (r : Rule) : Prop :=
  ∀ (g' : Grammar) slot, PartOf (.bound g' slot) r → g'.id = g.id → g' = g

end Rule

namespace Table

/-- The rules of a grammar under new names. -/
def ofGrammar (g : Grammar) (rename : Text → Text) : Table :=
  (g.names.zip g.rules).map fun (name, r) ↦ (.text (rename name), .rule (r.renamed rename))

/-- The table with references in the place of the rules that are bound to the inner grammar, and
with the rules of that grammar behind it under new names. -/
def merge (inner : Grammar) (rename : Text → Text) (table : Table) : Table :=
  table.map (fun (name, o) ↦ (name, o.mapRule (Rule.released inner rename))) ++
    ofGrammar inner rename

end Table

/-- The new names of some names are different names, and none of them is used already. -/
structure Fresh (rename : Text → Text) (names used : List Text) : Prop where
  /-- Different names get different new names. -/
  injective : ∀ m ∈ names, ∀ n ∈ names, rename m = rename n → m = n
  /-- A new name is a name. -/
  ne_nil : ∀ n ∈ names, rename n ≠ []
  /-- A new name is not used already. -/
  notMem_used : ∀ n ∈ names, rename n ∉ used

/-- The names of a grammar are different, there is one rule for each of them, and its references
carry the slots of their names. -/
structure Grammar.WellLinked (g : Grammar) : Prop where
  /-- The names are different. -/
  nodup : g.names.Nodup
  /-- There is one rule for each name. -/
  length_rules : g.rules.length = g.names.length
  /-- The references carry the slots of their names. -/
  linkedTo : ∀ r ∈ g.rules, r.LinkedTo g.names

section Merge

variable {inner : Grammar} {rename : Text → Text} {table : Table}

/-- In the slot of a name stands a rule. -/
theorem Grammar.WellLinked.exists_rule (h : inner.WellLinked) {n : Nat} {name : Text}
    (named : inner.names[n]? = some name) :
    ∃ r, inner.rules[n]? = some r ∧ ruleIn inner n = .ok r ∧ r.LinkedTo inner.names := by
  obtain ⟨lt, -⟩ := List.getElem?_eq_some_iff.mp named
  have stands := List.getElem?_eq_getElem (h.length_rules.symm ▸ lt)
  refine ⟨_, stands, ?_, h.linkedTo _ (List.mem_of_getElem? stands)⟩
  simp only [ruleIn, GrammarOf.ruleAt?, fromEitherEnd?_natCast, stands]

namespace Table

theorem texts_map (f : Operand → Operand) (table : Table) :
    texts (table.map fun (name, o) ↦ (name, f o)) = table.texts := by
  rw [texts, List.filterMap_map, texts]
  rfl

theorem texts_ofGrammar (linked : inner.WellLinked) :
    (ofGrammar inner rename).texts = inner.names.map rename := by
  have names : (inner.names.zip inner.rules).map Prod.fst = inner.names :=
    List.map_fst_zip (Nat.le_of_eq linked.length_rules.symm)
  conv_rhs => rw [← names, List.map_map, ← List.filterMap_eq_map]
  rw [ofGrammar, texts, List.filterMap_map]
  rfl

theorem texts_merge (linked : inner.WellLinked) :
    (table.merge inner rename).texts = table.texts ++ inner.names.map rename := by
  rw [merge, texts_append, texts_map, texts_ofGrammar linked]

/-- Where every rule of a table is changed, the changed rule stands under the name. -/
theorem ruleCalled_map {f : Rule → Rule} (literal : ∀ t, f (.literal t) = .literal t)
    {name : Text} {r : Rule} (held : table.ruleCalled name = .ok r) :
    ruleCalled (table.map fun (name, o) ↦ (name, o.mapRule f)) name = .ok (f r) := by
  unfold ruleCalled at held ⊢
  have same : (fun entry ↦ decide (text? entry = some name)) ∘
      (fun ((name, o) : Value × Operand) ↦ (name, o.mapRule f)) =
      fun entry ↦ decide (text? entry = some name) := rfl
  rw [List.find?_map, same]
  split at held
  next entry found =>
    rw [found]
    simp only [Option.map_some, Operand.toRule_mapRule literal, mapError_eq_ok_iff.mp held]
    rfl
  next => cases held

theorem ruleCalled_merge_outer {name : Text} {r : Rule} (mem : name ∈ table.texts)
    (held : table.ruleCalled name = .ok r) :
    (table.merge inner rename).ruleCalled name = .ok (r.released inner rename) := by
  rw [merge, ruleCalled_append_of_mem (by rwa [texts_map])]
  exact ruleCalled_map (fun _ ↦ rfl) held

/-- In a merged table a rule of the inner grammar stands under its new name. -/
theorem ruleCalled_merge_inner (linked : inner.WellLinked)
    (fresh : Fresh rename inner.names table.texts) {n : Nat} {name : Text} {r : Rule}
    (named : inner.names[n]? = some name) (stands : inner.rules[n]? = some r) :
    (table.merge inner rename).ruleCalled (rename name) = .ok (r.renamed rename) := by
  have mem : name ∈ inner.names := List.mem_of_getElem? named
  have absent : rename name ∉ texts
      (table.map fun (name, o) ↦ (name, o.mapRule (Rule.released inner rename))) := by
    rw [texts_map]
    exact fresh.notMem_used name mem
  rw [merge, ruleCalled_append_of_notMem absent]
  have both : (inner.names.zip inner.rules)[n]? = some (name, r) :=
    List.getElem?_zip_eq_some.mpr ⟨named, stands⟩
  have held : (.text (rename name), .rule (r.renamed rename)) ∈ ofGrammar inner rename :=
    List.mem_map.mpr ⟨(name, r), List.mem_of_getElem? both, rfl⟩
  refine ruleCalled_of_mem ?_ held rfl
  rw [texts_ofGrammar linked]
  exact linked.nodup.map_on fresh.injective

end Table

/-! ## Runs -/

theorem simulation_renamed (input : Array CodePoint) (linked : inner.WellLinked)
    (fresh : Fresh rename inner.names table.texts) :
    Simulation (fun name slot ↦ resolve name slot (some inner))
      (table.merge inner rename).byName input
      fun r r' ↦ r.LinkedTo inner.names ∧ r' = r.renamed rename := by
  refine simulation_substitute (fun r part h h' name slot part' ↦ h name slot (part'.trans h')) ?_
    fun g slot _ ↦ .bound g slot
  intro name slot h
  obtain ⟨n, rfl, named⟩ := h name slot .refl
  obtain ⟨r, stands, enters, h⟩ := linked.exists_rule named
  exact .reference enters (Table.ruleCalled_merge_inner linked fresh named stands) ⟨h, rfl⟩

/-- A rule bound to the inner grammar runs like the reference that stands in its place. -/
theorem evalWith_bound_inner (find : Resolver) (input : Array CodePoint)
    (linked : inner.WellLinked) (fresh : Fresh rename inner.names table.texts) {slot : Nat}
    {name : Text} (named : inner.names[slot]? = some name) (frames pos : Nat) :
    evalWith find input frames (.bound inner slot) pos =
      evalWith (table.merge inner rename).byName input frames (.reference (rename name) none)
        pos := by
  cases frames with
  | zero => rfl
  | succ frames =>
      obtain ⟨r, stands, enters, h⟩ := linked.exists_rule named
      rw [evalWith, evalWith, enters, Table.byName,
        Table.ruleCalled_merge_inner linked fresh named stands, ok_bind, ok_bind,
        eval_eq_evalWith]
      exact (simulation_renamed input linked fresh).evalWith_eq ⟨h, rfl⟩ frames pos

/-- A rule of the outer table runs there as it does in the merged table, with references in the
place of the rules bound to the inner grammar. -/
theorem simulation_released (input : Array CodePoint) (linked : inner.WellLinked)
    (fresh : Fresh rename inner.names table.texts) {slotOf : Text → Option Nat}
    (held : ∀ name, (slotOf name).isSome = true → name ∈ table.texts ∧
      ∃ r, table.ruleCalled name = .ok r ∧ r.Linkable slotOf ∧ r.Stamped inner) :
    Simulation table.byName (table.merge inner rename).byName input
      fun r r' ↦ (r.Linkable slotOf ∧ r.Stamped inner) ∧ r' = r.released inner rename := by
  refine simulation_substitute ?_ ?_ ?_
  · rintro r part ⟨linkable, stamped⟩ h
    exact ⟨linkable.of_part h, fun g slot part' ↦ stamped g slot (part'.trans h)⟩
  · rintro name slot ⟨linkable, -⟩
    obtain ⟨mem, r, found, fits⟩ := held name ((Rule.linkable_reference name slot).mp linkable)
    exact .reference found (Table.ruleCalled_merge_outer mem found) ⟨fits, rfl⟩
  · rintro g slot ⟨-, stamped⟩
    split
    next name chosen =>
      split at chosen
      next same =>
        cases stamped g slot .refl same
        exact .agreeing (evalWith_bound_inner _ input linked fresh chosen)
      next => cases chosen
    next => exact .bound g slot

/-! ## Building -/

namespace Grammar

variable {id : Nat} {start : Value}

theorem wellLinked_of_build {g : Grammar} (built : build id table start = .ok g)
    (nodup : g.names.Nodup) : g.WellLinked := by
  obtain ⟨-, -, named, -, linked⟩ := build_eq_ok_iff.mp built
  refine ⟨nodup, linked.length_eq.symm.trans named.length_eq, fun r mem ↦ ?_⟩
  obtain ⟨entry, -, r', -, linked⟩ := linked.exists_left mem
  exact Rule.linkedTo_of_link linked

/-- A grammar can be built if there is a rule, the names are names, the start rule is one of them,
and all rules can be linked. -/
theorem exists_build {names : List Text} {first : Text} (table_ne_nil : table ≠ [])
    (named : List.Forall₂ (fun entry name ↦ ruleName entry.1 = .ok name) table names)
    (started : startName names start = .ok first)
    (linkable : ∀ entry ∈ table, ∃ r, entry.2.toRule = .ok r ∧ r.Linkable names.idxOf?) :
    ∃ g, build id table start = .ok g := by
  have each : ∀ entry ∈ table, ∃ r', (do (← entry.2.toRule).link names.idxOf?) = .ok r' := by
    intro entry mem
    obtain ⟨r, rule, r', link⟩ := linkable entry mem
    exact ⟨r', bind_eq_ok_iff.mpr ⟨r, rule, link⟩⟩
  obtain ⟨rules, all⟩ := exists_mapM each
  refine ⟨⟨id, names, rules, first⟩, build_eq_ok_iff.mpr ⟨table_ne_nil, rfl, named, started, ?_⟩⟩
  exact (mapM_eq_ok_iff.mp all).imp fun _ _ ↦ bind_eq_ok_iff.mp

theorem startName_append {names more : List Text} {first : Text} (names_ne_nil : names ≠ [])
    (started : startName names start = .ok first) :
    startName (names ++ more) start = .ok first := by
  cases start with
  | null =>
      obtain ⟨name, rest, rfl⟩ := List.exists_cons_of_ne_nil names_ne_nil
      exact started
  | text name =>
      have defined : name ∈ names := by
        by_contra absent
        rw [startName, if_neg (by simpa using absent)] at started
        cases started
      rw [startName, if_pos (by simpa using defined)] at started
      rw [startName, if_pos (by simpa using Or.inl defined)]
      exact started
  | bool | int | decimal | list | tuple => exact started

theorem linkable_released {names : List Text} {r : Rule} (h : r.Linkable names.idxOf?) :
    (r.released inner rename).Linkable (names ++ inner.names.map rename).idxOf? := by
  apply Rule.linkable_substitute
  · intro name slot part
    have mem : name ∈ names := by simpa using h.of_part part
    simpa using Or.inl mem
  · intro g slot part
    split
    next name chosen =>
      split at chosen
      next =>
        have mem : rename name ∈ inner.names.map rename :=
          List.mem_map_of_mem (List.mem_of_getElem? chosen)
        rw [Rule.linkable_reference, List.isSome_idxOf?]
        exact List.mem_append_right _ mem
      next => cases chosen
    next => exact Rule.linkable_bound g slot

theorem linkable_renamed {r : Rule} (h : r.LinkedTo inner.names) (names : List Text) :
    (r.renamed rename).Linkable (names ++ inner.names.map rename).idxOf? := by
  apply Rule.linkable_substitute
  · intro name slot part
    obtain ⟨n, -, named⟩ := h name slot part
    have mem : rename name ∈ inner.names.map rename :=
      List.mem_map_of_mem (List.mem_of_getElem? named)
    rw [Rule.linkable_reference, List.isSome_idxOf?]
    exact List.mem_append_right _ mem
  · exact fun g slot _ ↦ Rule.linkable_bound g slot

theorem named_ofGrammar (linked : inner.WellLinked) {used : List Text}
    (fresh : Fresh rename inner.names used) :
    List.Forall₂ (fun entry name ↦ ruleName entry.1 = .ok name) (Table.ofGrammar inner rename)
      (inner.names.map rename) := by
  have names : (inner.names.zip inner.rules).map Prod.fst = inner.names :=
    List.map_fst_zip (Nat.le_of_eq linked.length_rules.symm)
  rw [← names, List.map_map, Table.ofGrammar, List.forall₂_map_left_iff,
    List.forall₂_map_right_iff, List.forall₂_same]
  rintro ⟨name, r⟩ mem
  exact ruleName_eq_ok_iff.mpr ⟨rfl, fresh.ne_nil name (List.of_mem_zip mem).1⟩

variable {outer : Grammar}

/-- A merged table makes a grammar if the outer one does. -/
theorem exists_build_merge (built : build id table start = .ok outer) (linked : inner.WellLinked)
    (fresh : Fresh rename inner.names outer.names) (id' : Nat) :
    ∃ merged, build id' (table.merge inner rename) start = .ok merged := by
  obtain ⟨table_ne_nil, -, named, started, rules⟩ := build_eq_ok_iff.mp built
  refine exists_build (by simp [Table.merge, table_ne_nil])
    (List.rel_append (List.forall₂_map_left_iff.mpr named) (named_ofGrammar linked fresh))
    (startName_append (start_mem_of_build built).1 started) fun entry mem ↦ ?_
  rcases List.mem_append.mp mem with mem | mem
  · obtain ⟨⟨name, o⟩, mem', rfl⟩ := List.mem_map.mp mem
    obtain ⟨r', -, r, rule, link⟩ := rules.exists_right mem'
    refine ⟨r.released inner rename, ?_, linkable_released ⟨r', link⟩⟩
    rw [Operand.toRule_mapRule (fun _ ↦ rfl), rule]
    rfl
  · obtain ⟨⟨name, r⟩, mem', rfl⟩ := List.mem_map.mp mem
    exact ⟨_, rfl, linkable_renamed (linked.linkedTo r (List.of_mem_zip mem').2) outer.names⟩

theorem names_of_build_merge {id' : Nat} {start' : Value} {merged : Grammar}
    (built : build id table start = .ok outer)
    (builtMerged : build id' (table.merge inner rename) start' = .ok merged)
    (linked : inner.WellLinked) : merged.names = outer.names ++ inner.names.map rename := by
  obtain ⟨-, -, named, -⟩ := build_eq_ok_iff.mp built
  obtain ⟨-, -, namedMerged, -⟩ := build_eq_ok_iff.mp builtMerged
  rw [← texts_eq_names namedMerged, ← texts_eq_names named, Table.texts_merge linked]

/-- A name that a table holds leads to the same run in the table and in the merged one. -/
theorem evalByName_merge (built : build id table start = .ok outer) (linked : inner.WellLinked)
    (fresh : Fresh rename inner.names outer.names)
    (stamped : ∀ entry ∈ table, ∀ r, entry.2.toRule = .ok r → r.Stamped inner)
    {name : Text} (mem : name ∈ outer.names) (input : Array CodePoint) (frames pos : Nat) :
    table.evalByName input frames name pos =
      (table.merge inner rename).evalByName input frames name pos := by
  obtain ⟨-, -, named, -, rules⟩ := build_eq_ok_iff.mp built
  have texts : table.texts = outer.names := texts_eq_names named
  rw [← texts] at fresh
  have held : ∀ name, (outer.names.idxOf? name).isSome = true → name ∈ table.texts ∧
      ∃ r, table.ruleCalled name = .ok r ∧ r.Linkable outer.names.idxOf? ∧ r.Stamped inner := by
    intro name defined
    obtain ⟨n, found⟩ := Option.isSome_iff_exists.mp defined
    obtain ⟨r, r', called, -, link⟩ := Table.exists_rule_of_slot named rules found
    obtain ⟨entry, mem, -, rule⟩ := Table.exists_mem_of_ruleCalled called
    exact ⟨texts ▸ List.isSome_idxOf?.mp defined, r, called, ⟨r', link⟩, stamped entry mem r rule⟩
  exact (simulation_released input linked fresh held).evalWith_eq
    ⟨⟨by simpa using mem, fun _ _ part ↦ by cases part⟩, rfl⟩ frames pos

/-- Embedding a grammar is the same as adding its rules under fresh names. If a table that holds
rules of an inner grammar, anywhere and next to references of its own, makes a grammar, so does the
merged table; and each of its rules gives the same trees, failures and halts in both grammars, which
are those that the merged table gives when every reference is looked up by name. -/
theorem evaluate_merge {innerId : Nat} {innerTable : Table} {innerStart : Value}
    (builtInner : build innerId innerTable innerStart = .ok inner) (nodup : inner.names.Nodup)
    (built : build id table start = .ok outer)
    (stamped : ∀ entry ∈ table, ∀ r, entry.2.toRule = .ok r → r.Stamped inner)
    (fresh : Fresh rename inner.names outer.names) (id' : Nat) :
    (∃ merged, build id' (table.merge inner rename) start = .ok merged) ∧
    ∀ start' merged, build id' (table.merge inner rename) start' = .ok merged →
      ∀ name ∈ outer.names, ∃ r r', outer.rule (.text name) = .ok r ∧
        merged.rule (.text name) = .ok r' ∧
        (∀ frames text pos, r.evaluate frames text pos = r'.evaluate frames text pos) ∧
        ∀ frames (text : Text) (pos : Nat), pos ≤ text.length →
          r.evaluate frames text pos =
            ((table.merge inner rename).evalByName text.toArray frames name pos).mapError
              .halted := by
  have linked : inner.WellLinked := wellLinked_of_build builtInner nodup
  refine ⟨exists_build_merge built linked fresh id', fun start' merged builtMerged name mem ↦ ?_⟩
  have memMerged : name ∈ merged.names := by
    rw [names_of_build_merge built builtMerged linked]
    exact List.mem_append_left _ mem
  obtain ⟨r, called, runs⟩ := exists_rule_evalByName built mem
  obtain ⟨r', calledMerged, runsMerged⟩ := exists_rule_evalByName builtMerged memMerged
  refine ⟨r, r', called, calledMerged, ?_, ?_⟩
  · intro frames text pos
    simp only [Rule.evaluate, runs, runsMerged, evalByName_merge built linked fresh stamped mem]
  · intro frames text pos within
    rw [Rule.evaluate_natCast frames r within, runs,
      evalByName_merge built linked fresh stamped mem]

/-- Two grammars with the same names: the inner one is entered ahead, in a choice and in a
repetition, and between two such calls the outer grammar uses a name of its own. -/
theorem evaluate_merge_same_names : ∃ (inner outer merged : Grammar) (r r' : Rule),
    inner.names = ["S", "T"] ∧ outer.names = ["S", "T"] ∧
    outer.rules = [.sequence [.followedBy (.bound inner 0),
      .choice [.sequence [.bound inner 0, .bound inner 0], .bound inner 0],
      .reference "T" (some 1), .repeated (.bound inner 1) .zeroOrMore], .literal "b"] ∧
    merged.names = ["S", "T", "xS", "xT"] ∧
    merged.rules = [.sequence [.followedBy (.reference "xS" (some 2)),
      .choice [.sequence [.reference "xS" (some 2), .reference "xS" (some 2)],
        .reference "xS" (some 2)],
      .reference "T" (some 1), .repeated (.reference "xT" (some 3)) .zeroOrMore], .literal "b",
      .reference "xT" (some 3), .literal "a"] ∧
    outer.rule (.text "S") = .ok r ∧ merged.rule (.text "S") = .ok r' ∧
    r.evaluate 12 "abaa" 0 = r'.evaluate 12 "abaa" 0 ∧
    ∃ t, r.evaluate 12 "abaa" 0 = .ok (some t) ∧ t.stop = 4 := by
  let inner : Grammar := ⟨0, ["S", "T"], [.reference "T" (some 1), .literal "a"], "S"⟩
  have builtInner : build 0 [(.text "S", .rule (.reference "T" none)),
    (.text "T", .value (.text "a"))] .null = .ok inner := rfl
  let table : Table := [(.text "S", .rule (.sequence [.followedBy (.bound inner 0),
    .choice [.sequence [.bound inner 0, .bound inner 0], .bound inner 0],
    .reference "T" none, .repeated (.bound inner 1) .zeroOrMore])), (.text "T", .value (.text "b"))]
  let outer : Grammar := ⟨1, ["S", "T"], [.sequence [.followedBy (.bound inner 0),
    .choice [.sequence [.bound inner 0, .bound inner 0], .bound inner 0],
    .reference "T" (some 1), .repeated (.bound inner 1) .zeroOrMore], .literal "b"], "S"⟩
  have built : build 1 table .null = .ok outer := rfl
  have stamped : ∀ entry ∈ table, ∀ r, entry.2.toRule = .ok r → r.Stamped inner := by
    intro entry mem r rule g slot part _
    simp only [table, List.mem_cons, List.not_mem_nil, or_false] at mem
    rcases mem with rfl | rfl
    · cases rule
      have embedded : g = inner ∧ slot = 0 ∨ g = inner ∧ slot = 1 := by simpa using part
      rcases embedded with ⟨same, -⟩ | ⟨same, -⟩
      · exact same
      · exact same
    · cases rule
      simp at part
  have fresh : Fresh (("x" : Text) ++ ·) inner.names outer.names :=
    ⟨fun m _ n _ same ↦ List.append_cancel_left same, by decide, by decide⟩
  have merged := (evaluate_merge builtInner (by decide) built stamped fresh 2).2 .null _ rfl "S"
    List.mem_cons_self
  obtain ⟨r, r', called, calledMerged, same, -⟩ := merged
  refine ⟨inner, outer, _, r, r', rfl, rfl, rfl, rfl, rfl, called, calledMerged, same 12 "abaa" 0,
    ?_⟩
  cases called
  exact ⟨_, rfl, rfl⟩

end Grammar

end Merge

end Peg
