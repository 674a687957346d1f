import Peg.Proofs.Grammar.Safety

/-!
# Histories of grammars

Grammars are built one after the other, from tables and from sources. What a table holds is put
together by the combinators from plain values, from references and repetitions made by hand, and
from rules taken out of the grammars that are there already. In every such history all grammars are
closed, and nothing is missing when they run.
-/

namespace Peg

open Except

/-! ## Building by hand -/

/-- The operands that can be put together when some grammars are there already. The symbols of
repetitions that are made by hand are among the given ones. -/
inductive Built (symbols : Text → Prop) (earlier : List Grammar) : Operand → Prop where
  /-- A plain value. -/
  | value (v : Value) : Built symbols earlier (.value v)
  /-- A literal. -/
  | literal {v : Value} {r : Rule} (h : Rule.literalOf v = .ok r) : Built symbols earlier (.rule r)
  /-- A character range. -/
  | charRange {members : List Value} {r : Rule} (h : Rule.charRangeOf members = .ok r) :
      Built symbols earlier (.rule r)
  /-- Any character. -/
  | anyChar : Built symbols earlier (.rule .anyChar)
  /-- An operand or nothing. -/
  | optional {o : Operand} {r : Rule} (part : Built symbols earlier o)
      (h : Rule.optionalOf o = .ok r) : Built symbols earlier (.rule r)
  /-- An operand any number of times. -/
  | zeroOrMore {o : Operand} {r : Rule} (part : Built symbols earlier o)
      (h : Rule.zeroOrMoreOf o = .ok r) : Built symbols earlier (.rule r)
  /-- An operand at least once. -/
  | oneOrMore {o : Operand} {r : Rule} (part : Built symbols earlier o)
      (h : Rule.oneOrMoreOf o = .ok r) : Built symbols earlier (.rule r)
  /-- A repetition made by hand, with any symbol. -/
  | repeated {inner : Rule} (part : Built symbols earlier (.rule inner)) {symbol : Text}
      (given : symbols symbol) : Built symbols earlier (.rule (.repeated inner (.ofSymbol symbol)))
  /-- A positive lookahead. -/
  | followedBy {o : Operand} {r : Rule} (part : Built symbols earlier o)
      (h : Rule.followedByOf o = .ok r) : Built symbols earlier (.rule r)
  /-- A negative lookahead. -/
  | notFollowedBy {o : Operand} {r : Rule} (part : Built symbols earlier o)
      (h : Rule.notFollowedByOf o = .ok r) : Built symbols earlier (.rule r)
  /-- Operands one after the other. -/
  | sequence {operands : List Operand} {r : Rule} (parts : ∀ o ∈ operands, Built symbols earlier o)
      (h : Rule.sequenceOf operands = .ok r) : Built symbols earlier (.rule r)
  /-- Alternative operands. -/
  | choice {operands : List Operand} {r : Rule} (parts : ∀ o ∈ operands, Built symbols earlier o)
      (h : Rule.choiceOf operands = .ok r) : Built symbols earlier (.rule r)
  /-- A reference. -/
  | referenceTo {v : Value} {r : Rule} (h : Rule.referenceTo v = .ok r) :
      Built symbols earlier (.rule r)
  /-- A reference made by hand, to any name and with any slot. -/
  | reference (name : Text) (slot : Option Int) :
      Built symbols earlier (.rule (.reference name slot))
  /-- A rule taken out of an earlier grammar by name. -/
  | ruleCalled {g : Grammar} {name : Value} {r : Rule} (mem : g ∈ earlier)
      (h : g.rule name = .ok r) : Built symbols earlier (.rule r)
  /-- A rule taken out of an earlier grammar by slot. -/
  | ruleInSlot {g : Grammar} {slot : Int} {r : Rule} (mem : g ∈ earlier)
      (h : g.ruleInSlot slot = .ok r) : Built symbols earlier (.rule r)

/-- The grammars that were built one after the other, the newest one first. -/
inductive History (symbols : Text → Prop) : List Grammar → Prop where
  /-- At first there is no grammar. -/
  | empty : History symbols []
  /-- A grammar of a table. -/
  | table {earlier : List Grammar} {entries : List (Value × Operand)} {table : Table}
      {start : Value} {g : Grammar} (before : History symbols earlier)
      (parts : ∀ entry ∈ entries, Built symbols earlier entry.2)
      (collected : Table.ofList entries = .ok table)
      (built : Grammar.build earlier.length table start = .ok g) : History symbols (g :: earlier)
  /-- A grammar of a source. -/
  | source {earlier : List Grammar} {frames : Nat} {src : Text} {start : Value} {g : Grammar}
      (before : History symbols earlier)
      (read : Grammar.ofSource frames earlier.length src start = .ok g) :
      History symbols (g :: earlier)
  /-- A grammar of a file. -/
  | file {earlier : List Grammar} {frames : Nat} {bytes : List UInt8} {start : Value} {g : Grammar}
      (before : History symbols earlier)
      (read : Grammar.ofFile frames earlier.length bytes start = .ok g) :
      History symbols (g :: earlier)

/-! ## What is built -/

variable {symbols : Text → Prop}

namespace Grammar

variable {g : Grammar} {r : Rule}

theorem rule_start (mem : g.start ∈ g.names) : g.rule (.text g.start) = .ok g.startRule := by
  obtain ⟨slot, found, -⟩ := exists_slot mem
  rw [rule_text found, startRule, found]
  rfl

/-- A rule that is called by a value is bound in a slot of the grammar. -/
theorem exists_slot_of_rule {name : Value} (h : g.rule name = .ok r) :
    ∃ n < g.size, r = .bound g n := by
  obtain ⟨found, called, h⟩ := bind_eq_ok_iff.mp h
  cases found with
  | none => cases h
  | some n =>
      cases h
      unfold slotCalled at called
      split at called
      next text =>
        obtain ⟨lt, -⟩ := List.idxOf?_eq_some_iff.mp (Except.ok.inj called)
        exact ⟨n, lt, rfl⟩
      next =>
        split at called
        next => cases called
        next => cases called

theorem mem_rules_of_ruleInSlot {slot : Int} (h : g.ruleInSlot slot = .ok r) : r ∈ g.rules := by
  unfold ruleInSlot inSlot at h
  split at h
  next => cases h
  next =>
    split at h
    next r' found =>
      cases h
      exact mem_rules_of_ruleAt? found
    next => cases h

end Grammar

/-- What is built from rules of earlier grammars is composed of these grammars. -/
theorem Built.composedOf {earlier : List Grammar} {o : Operand} {r : Rule}
    (built : Built symbols earlier o) (rule : o.toRule = .ok r)
    (composed : ∀ g ∈ earlier, ∀ r ∈ g.rules, r.ComposedOf symbols earlier) :
    r.ComposedOf symbols earlier := by
  induction built generalizing r with
  | value v =>
      cases v with
      | text t =>
          cases rule
          exact .literal t
      | null | bool | int | decimal | list | tuple => cases rule
  | @literal v _ h =>
      cases rule
      cases v with
      | text t =>
          cases h
          exact .literal t
      | null | bool | int | decimal | list | tuple => cases h
  | charRange h =>
      cases rule
      unfold Rule.charRangeOf at h
      split at h
      next => cases h
      next =>
        obtain ⟨ranges, -, same⟩ := bind_eq_ok_iff.mp h
        cases same
        exact .charRange ranges
  | anyChar =>
      cases rule
      exact .anyChar
  | «optional» _ h ih | zeroOrMore _ h ih | oneOrMore _ h ih =>
      cases rule
      obtain ⟨inner, part, same⟩ := bind_eq_ok_iff.mp h
      cases same
      exact (ih part).repeated nofun
  | @repeated inner _ symbol given ih =>
      cases rule
      apply (ih rfl).repeated
      intro symbol' unknown
      have same : symbol = symbol' := by
        rw [← Quantifier.symbol_ofSymbol symbol, unknown, Quantifier.symbol]
      exact same ▸ given
  | followedBy _ h ih =>
      cases rule
      obtain ⟨inner, part, same⟩ := bind_eq_ok_iff.mp h
      cases same
      exact (ih part).followedBy
  | notFollowedBy _ h ih =>
      cases rule
      obtain ⟨inner, part, same⟩ := bind_eq_ok_iff.mp h
      cases same
      exact (ih part).notFollowedBy
  | sequence _ h ih =>
      cases rule
      obtain ⟨items, parts, same⟩ := bind_eq_ok_iff.mp h
      cases same
      apply Rule.ComposedOf.sequence
      intro r mem
      obtain ⟨o, mem', part⟩ := (mapM_eq_ok_iff.mp parts).exists_left mem
      exact ih o mem' part
  | choice _ h ih =>
      cases rule
      obtain ⟨alternatives, parts, same⟩ := bind_eq_ok_iff.mp h
      cases same
      apply Rule.ComposedOf.choice
      intro r mem
      obtain ⟨o, mem', part⟩ := (mapM_eq_ok_iff.mp parts).exists_left mem
      exact ih o mem' part
  | @referenceTo v _ h =>
      cases rule
      unfold Rule.referenceTo at h
      split at h
      next =>
        cases h
        exact .reference _ none
      next => cases h
  | reference name slot =>
      cases rule
      exact .reference name slot
  | ruleCalled mem h =>
      cases rule
      obtain ⟨n, lt, rfl⟩ := Grammar.exists_slot_of_rule h
      exact .boundTo mem lt
  | @ruleInSlot g _ _ mem h =>
      cases rule
      exact composed g mem _ (Grammar.mem_rules_of_ruleInSlot h)

/-! ## What holds in a history -/

namespace History

variable {later earlier : List Grammar} {g : Grammar}

/-- What was built earlier is a history. -/
theorem tail (h : History symbols (g :: earlier)) : History symbols earlier := by
  cases h with
  | table before => exact before
  | source before => exact before
  | file before => exact before

/-- What was built up to some point is a history. -/
theorem of_append (h : History symbols (later ++ earlier)) : History symbols earlier := by
  induction later with
  | nil => exact h
  | cons g later ih => exact ih h.tail

/-- The newest grammar is closed if the earlier ones are. -/
theorem closed_newest (h : History symbols (g :: earlier))
    (closed : SelfContained symbols earlier) : g.Closed symbols earlier := by
  cases h with
  | source _ read => exact Grammar.closed_of_ofSource read
  | file _ read =>
      obtain ⟨src, -, read⟩ := bind_eq_ok_iff.mp read
      exact Grammar.closed_of_ofSource read
  | @table _ entries table _ _ _ parts collected built =>
      apply Grammar.closed_of_build built (Table.nodup_texts collected)
      intro entry mem r rule
      obtain ⟨given, mem', same⟩ := Table.exists_mem_of_mem collected entry mem
      rw [← same] at rule
      exact (parts given mem').composedOf rule closed.composedOf

/-- No grammar of a history needs one that is missing. -/
theorem selfContained {gs : List Grammar} (h : History symbols gs) : SelfContained symbols gs := by
  induction gs with
  | nil => exact nofun
  | cons g earlier ih =>
      have closed : SelfContained symbols earlier := ih h.tail
      exact closed.cons (h.closed_newest closed)

theorem id_lt {gs : List Grammar} (h : History symbols gs) (mem : g ∈ gs) : g.id < gs.length := by
  induction gs with
  | nil => cases mem
  | cons newest earlier ih =>
      rcases List.mem_cons.mp mem with rfl | mem
      · have closed := h.closed_newest h.tail.selfContained
        exact closed.id_eq ▸ Nat.lt_succ_self _
      · exact Nat.lt_succ_of_lt (ih h.tail mem)

/-- Grammars with the same stamp are the same. -/
theorem eq_of_id_eq {gs : List Grammar} {g' : Grammar} (h : History symbols gs) (mem : g ∈ gs)
    (mem' : g' ∈ gs) (same : g.id = g'.id) : g = g' := by
  induction gs with
  | nil => cases mem
  | cons newest earlier ih =>
      have closed := h.closed_newest h.tail.selfContained
      have older : ∀ g ∈ earlier, g.id ≠ newest.id := fun g mem ↦
        closed.id_eq ▸ Nat.ne_of_lt (h.tail.id_lt mem)
      rcases List.mem_cons.mp mem with first | before
      · rcases List.mem_cons.mp mem' with first' | before'
        · exact first.trans first'.symm
        · exact absurd (first ▸ same.symm) (older g' before')
      · rcases List.mem_cons.mp mem' with first' | before'
        · exact absurd (first' ▸ same) (older g before)
        · exact ih h.tail before before'

/-- Every grammar of a history is closed when it is built, whatever was used to build it: it has
one rule for each of its names, its references carry the slots of their names, and what is bound in
it stands in slots of older grammars. So all its rules can be taken out and run on any text, and
what goes wrong is that the frames run out or that a quantifier has no meaning and was put in by
hand. -/
theorem closed_and_safe (h : History symbols (later ++ g :: earlier)) :
    g.Closed symbols earlier ∧
    (∀ name ∈ g.names, ∃ r, g.rule (.text name) = .ok r ∧
      ∀ frames text (pos : Int) e, 0 ≤ pos → pos ≤ text.length →
        r.evaluate frames text pos = .error e → e.Tolerated symbols) ∧
    ∀ frames text e,
      (g.parse frames text = .error e → e = .noMatch ∨ e.Tolerated symbols) ∧
      (g.parseAll frames text = .error e → e = .noMatch ∨ e.Tolerated symbols) ∧
      (g.accepts frames text = .error e → e.Tolerated symbols) ∧
      (g.acceptsAll frames text = .error e → e.Tolerated symbols) := by
  have here : History symbols (g :: earlier) := h.of_append
  have closed : g.Closed symbols earlier := here.closed_newest here.tail.selfContained
  have runs : ∀ name ∈ g.names, ∃ n, g.slot? name = some n ∧
      (Rule.bound g n).RunsIn symbols (g :: earlier) none := by
    intro name mem
    obtain ⟨n, slot, lt, -⟩ := Grammar.exists_slot mem
    exact ⟨n, slot, .bound List.mem_cons_self lt⟩
  refine ⟨closed, ?_, ?_⟩
  · intro name mem
    obtain ⟨n, slot, runs⟩ := runs name mem
    refine ⟨.bound g n, ?_, ?_⟩
    · simp only [Grammar.rule, Grammar.slotCalled, slot, ok_bind]
    · intro frames text pos e pos_nonneg pos_le
      exact Rule.tolerated_of_evaluate here.selfContained runs pos_nonneg pos_le
  · intro frames text e
    have start : g.startRule.RunsIn symbols (g :: earlier) none := by
      obtain ⟨n, slot, runs⟩ := runs g.start closed.start_mem
      rw [Grammar.startRule, slot]
      exact runs
    have tolerated : ∀ {e}, g.startRule.evaluate frames text 0 = .error e → e.Tolerated symbols :=
      Rule.tolerated_of_evaluate here.selfContained start (Int.le_refl 0) (Int.natCast_nonneg _)
    refine ⟨?_, ?_, ?_, ?_⟩
    · exact fun fails ↦ (Rule.evaluate_of_parse fails).imp_right tolerated
    · exact fun fails ↦ (Rule.evaluate_of_parseAll fails).imp_right tolerated
    · exact fun fails ↦ tolerated (Rule.evaluate_of_accepts fails)
    · exact fun fails ↦ tolerated (Rule.evaluate_of_acceptsAll fails)

/-- A rule taken out by name, one taken out by slot whose reference gets a new slot, and a
repetition without a meaning, all in one grammar. -/
theorem closed_and_safe_embedding : ∃ older newer : Grammar,
    older.rules = [.reference "a" (some 0)] ∧
    newer.rules = [.sequence [.bound older 0, .reference "a" (some 1),
      .repeated .anyChar (.unknown "%")], .literal "x"] ∧
    newer.Closed (· = "%") [older] ∧
    ∀ frames text e, newer.accepts frames text = .error e → e.Tolerated (· = "%") := by
  let older : Grammar := ⟨0, ["a"], [.reference "a" (some 0)], "a"⟩
  let newer : Grammar := ⟨1, ["b", "a"], [.sequence [.bound older 0, .reference "a" (some 1),
    .repeated .anyChar (.unknown "%")], .literal "x"], "b"⟩
  have first : History (· = "%") [older] := by
    have parts : ∀ entry ∈ ([(.text "a", .rule (.reference "a" (some 7)))] : Table),
        Built (· = "%") [] entry.2 := by
      rintro entry (_ | ⟨_, ⟨⟩⟩)
      exact .reference "a" (some 7)
    exact .table .empty parts rfl (show Grammar.build 0 _ .null = .ok older from rfl)
  have second : History (· = "%") [newer, older] := by
    have items : ∀ o ∈ ([.rule (.bound older 0), .rule (.reference "a" (some 0)),
        .rule (.repeated .anyChar (.unknown "%"))] : List Operand),
        Built (· = "%") [older] o := by
      rintro o (_ | ⟨_, _ | ⟨_, _ | ⟨_, ⟨⟩⟩⟩⟩)
      · exact .ruleCalled List.mem_cons_self (show older.rule (.text "a") = .ok _ from rfl)
      · exact .ruleInSlot List.mem_cons_self (show older.ruleInSlot 0 = .ok _ from rfl)
      · have unknown : Quantifier.ofSymbol "%" = .unknown "%" := by decide
        exact unknown ▸ Built.anyChar.repeated (show ("%" : Text) = "%" from rfl)
    have parts : ∀ entry ∈ ([(.text "b", .rule (.sequence [.bound older 0,
        .reference "a" (some 0), .repeated .anyChar (.unknown "%")])),
        (.text "a", .value (.text "x"))] : Table), Built (· = "%") [older] entry.2 := by
      rintro entry (_ | ⟨_, _ | ⟨_, ⟨⟩⟩⟩)
      · exact .sequence items rfl
      · exact .value (.text "x")
    exact .table first parts rfl (show Grammar.build 1 _ .null = .ok newer from rfl)
  refine ⟨older, newer, rfl, rfl, (@closed_and_safe _ [] _ _ second).1, ?_⟩
  intro frames text e
  exact ((@closed_and_safe _ [] _ _ second).2.2 frames text e).2.2.1

end History

end Peg
