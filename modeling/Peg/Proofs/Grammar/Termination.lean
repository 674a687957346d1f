import Peg.Proofs.Grammar.Family
import Peg.Proofs.Grammar.LeftRecursion

/-!
# Grammars whose runs end

A grammar of a history whose quantifiers all have a meaning, and in whose family no slot is left
recursive, always answers: each of its rules gives a tree or fails, on every text and from every
position, and the frames that this takes are linear in what is left of the text. Nothing is asked of
repetitions; one whose rule consumes nothing ends because the last round is dropped.
-/

namespace Peg

open Place Rule

namespace Grammar

/-- The nodes of the rules of a family, each with the grammar that it runs in. -/
def places (g : Grammar) : List Place := g.family.flatMap fun h ↦ h.nodes.map (Place.mk h)

/-- All quantifiers in the rules of the grammar have a meaning. -/
def KnownQuantifiers (g : Grammar) : Prop :=
  ∀ r ∈ g.rules, ∀ inner symbol, ¬ PartOf (.repeated inner (.unknown symbol)) r

variable {symbols : Text → Prop} {gs : List Grammar} {g h : Grammar} {v w : Place}

@[simp] theorem length_places (g : Grammar) : g.places.length = g.nodeCount := by
  simp [places, nodeCount, List.length_flatMap]

theorem mem_places_iff :
    v ∈ g.places ↔ v.grammar ∈ g.family ∧ ∃ r ∈ v.grammar.rules, PartOf v.rule r := by
  rw [← mem_nodes_iff]
  constructor
  · intro mem
    obtain ⟨h, member, node⟩ := List.mem_flatMap.mp mem
    obtain ⟨r, mem', rfl⟩ := List.mem_map.mp node
    exact ⟨member, mem'⟩
  · rintro ⟨member, mem'⟩
    exact List.mem_flatMap.mpr ⟨v.grammar, member, List.mem_map.mpr ⟨v.rule, mem', rfl⟩⟩

theorem mem_places_of_part {part : Rule} (place : v ∈ g.places) (h : PartOf part v.rule) :
    ⟨v.grammar, part⟩ ∈ g.places := by
  obtain ⟨member, r, mem, whole⟩ := mem_places_iff.mp place
  exact mem_places_iff.mpr ⟨member, r, mem, h.trans whole⟩

/-! ## In a history -/

section History

variable (history : History symbols gs) (mem : g ∈ gs)

include history mem

theorem exists_slot_of_reference {name : Text} {slot : Option Int}
    (place : ⟨h, .reference name slot⟩ ∈ g.places) :
    ∃ n : Nat, slot = some (n : Int) ∧ n < h.size := by
  obtain ⟨member, r, mem', part⟩ := mem_places_iff.mp place
  obtain ⟨earlier, -, closed⟩ := history.selfContained h (mem_of_mem_family history mem member)
  obtain ⟨n, same, named⟩ := closed.linkedTo r mem' name slot part
  exact ⟨n, same, (List.getElem?_eq_some_iff.mp named).1⟩

/-- What stands for a slot in the family stands for a slot of the family, and that holds a rule. -/
theorem exists_rule_of_standsFor (place : v ∈ g.places) {slot : Int}
    (stands : v.StandsFor h slot) :
    h ∈ g.family ∧ (∃ n : Nat, slot = n ∧ n < h.size) ∧ ∃ r, h.ruleAt? slot = some r := by
  have closed := history.selfContained
  have holds : ∀ {n}, h ∈ g.family → n < h.size → ∃ r, h.ruleAt? (n : Nat) = some r :=
    fun member lt ↦ closed.exists_rule (mem_of_mem_family history mem member) lt
  obtain ⟨member, r, mem', part⟩ := mem_places_iff.mp place
  cases stands with
  | reference =>
      obtain ⟨n, same, lt⟩ := exists_slot_of_reference history mem place
      cases same
      exact ⟨member, ⟨n, rfl, lt⟩, holds member lt⟩
  | bound =>
      have member' := mem_family_of_bound history mem member mem' part
      have composed := closed.composedOf _ (mem_of_mem_family history mem member) r mem'
      have lt := (composed.bound h _ part).2
      exact ⟨member', ⟨_, rfl, lt⟩, holds member' lt⟩

theorem mem_places_of_calls (place : v ∈ g.places) (calls : v.Calls w) : w ∈ g.places := by
  cases calls with
  | repeated => exact mem_places_of_part place (.repeated .refl _)
  | followedBy => exact mem_places_of_part place (.followedBy .refl)
  | notFollowedBy => exact mem_places_of_part place (.notFollowedBy .refl)
  | sequence item => exact mem_places_of_part place (.sequence (List.mem_of_getElem? item) .refl)
  | choice mem' => exact mem_places_of_part place (.choice mem' .refl)
  | @slot _ h slot r stands found =>
      obtain ⟨member, -⟩ := exists_rule_of_standsFor history mem place stands
      exact mem_places_iff.mpr ⟨member, r, mem_rules_of_ruleAt? found, .refl⟩

/-- Where all quantifiers of the family have a meaning, nothing is missing. -/
theorem ready_of_mem_places (known : ∀ h ∈ g.family, h.KnownQuantifiers) (place : v ∈ g.places) :
    v.Ready := by
  obtain ⟨h, r⟩ := v
  constructor
  · rintro name slot rfl
    obtain ⟨n, rfl, -⟩ := exists_slot_of_reference history mem place
    obtain ⟨-, -, r, found⟩ := exists_rule_of_standsFor history mem place .reference
    exact ⟨n, r, rfl, found⟩
  · rintro h' slot rfl
    exact (exists_rule_of_standsFor history mem place .bound).2.2
  · rintro inner symbol rfl
    obtain ⟨member, r, mem', part⟩ := mem_places_iff.mp place
    exact known h member r mem' inner symbol part

theorem ranked_places (known : ∀ h ∈ g.family, h.KnownQuantifiers)
    (noLeftRecursion : ∀ h ∈ g.family, ∀ slot < h.size, ¬ h.LeftRecursive slot) :
    Ranked (· ∈ g.places) reach g.nodeCount := by
  rw [← length_places]
  refine ranked_reach (fun v place ↦ ready_of_mem_places history mem known place)
    (fun v part place h ↦ mem_places_of_part place h)
    (fun v w place calls ↦ mem_places_of_calls history mem place calls) (fun v place ↦ place) ?_
  intro v h slot place stands
  obtain ⟨member, ⟨n, rfl, lt⟩, -⟩ := exists_rule_of_standsFor history mem place stands
  exact noLeftRecursion h member n lt

end History

end Grammar

namespace History

variable {symbols : Text → Prop} {gs : List Grammar} {g : Grammar}

/-- A rule of a grammar of a history gives a tree or fails on every text and from every position in
it, if the quantifiers in the family of the grammar have a meaning and no slot there is left
recursive. Four frames for each node of the family and each character that is left are enough, and
four for each node at the end. -/
theorem exists_evaluate_eq_ok (history : History symbols gs) (mem : g ∈ gs)
    (known : ∀ h ∈ g.family, h.KnownQuantifiers)
    (noLeftRecursion : ∀ h ∈ g.family, ∀ slot < h.size, ¬ h.LeftRecursive slot) :
    ∀ name ∈ g.names, ∃ r, g.rule (.text name) = .ok r ∧
      ∀ (text : Text) (pos : Nat), pos ≤ text.length →
        ∃ o : Option Tree, ∀ frames ≥ 4 * g.nodeCount * (text.length - pos + 1),
          r.evaluate frames text pos = .ok o := by
  intro name mem'
  obtain ⟨n, slot, lt, -⟩ := Grammar.exists_slot mem'
  obtain ⟨r, found⟩ := history.selfContained.exists_rule mem lt
  have ranked := Grammar.ranked_places history mem known noLeftRecursion
  have place : ⟨g, r⟩ ∈ g.places := Grammar.mem_places_iff.mpr
    ⟨Grammar.self_mem_family history mem, r, Grammar.mem_rules_of_ruleAt? found, .refl⟩
  refine ⟨.bound g n, Grammar.rule_text slot, fun text pos within ↦ ?_⟩
  obtain ⟨o, ran⟩ := ranked.exists_run place within (Nat.le_refl _)
  refine ⟨o, fun frames enough ↦ ?_⟩
  -- Entering the rule takes one frame more.
  have deeper := (ranked.framesFor_lt place (text.length - pos)).trans_le enough
  obtain ⟨frames, rfl⟩ := Nat.exists_eq_add_one.mpr (Nat.zero_lt_of_lt deeper)
  rw [Rule.evaluate_natCast _ _ within, eval_bound, ruleIn, found, Except.ok_bind,
    eval_eq_of_le ran (by simp) (Nat.le_of_lt_succ deeper), Except.mapError]

/-- A rule that calls itself only after a literal, with a repetition in front of it whose rule, in
another grammar, never consumes anything. -/
theorem exists_evaluate_eq_ok_repeating : ∃ older newer : Grammar, older.rules = [.literal ""] ∧
    newer.rules = [.sequence [.repeated (.bound older 0) .zeroOrMore, .literal "a",
      .repeated (.reference "A" (some 0)) .optional]] ∧
    ∃ r, newer.rule (.text "A") = .ok r ∧
      ∀ (text : Text) (pos : Nat), pos ≤ text.length → ∃ o : Option Tree,
        ∀ frames ≥ 28 * (text.length - pos + 1), r.evaluate frames text pos = .ok o := by
  let older : Grammar := ⟨0, ["S"], [.literal ""], "S"⟩
  let newer : Grammar := ⟨1, ["A"], [.sequence [.repeated (.bound older 0) .zeroOrMore,
    .literal "a", .repeated (.reference "A" (some 0)) .optional]], "A"⟩
  have first : History (fun _ ↦ False) [older] := by
    have parts : ∀ entry ∈ ([(.text "S", .value (.text ""))] : Table),
        Built (fun _ ↦ False) [] entry.2 := by
      rintro entry (_ | ⟨_, ⟨⟩⟩)
      exact .value (.text "")
    exact .table .empty parts rfl (show Grammar.build 0 _ .null = .ok older from rfl)
  have second : History (fun _ ↦ False) [newer, older] := by
    have called : Built (fun _ ↦ False) [older] (.rule (.bound older 0)) :=
      .ruleCalled List.mem_cons_self (show older.rule (.text "S") = .ok _ from rfl)
    have items : ∀ o ∈ ([.rule (.repeated (.bound older 0) .zeroOrMore), .value (.text "a"),
        .rule (.repeated (.reference "A" none) .optional)] : List Operand),
        Built (fun _ ↦ False) [older] o := by
      rintro o (_ | ⟨_, _ | ⟨_, _ | ⟨_, ⟨⟩⟩⟩⟩)
      · exact .zeroOrMore called rfl
      · exact .value (.text "a")
      · exact .optional (.reference "A" none) rfl
    have parts : ∀ entry ∈ ([(.text "A", .rule (.sequence [.repeated (.bound older 0) .zeroOrMore,
        .literal "a", .repeated (.reference "A" none) .optional]))] : Table),
        Built (fun _ ↦ False) [older] entry.2 := by
      rintro entry (_ | ⟨_, ⟨⟩⟩)
      exact .sequence items rfl
    exact .table first parts rfl (show Grammar.build 1 _ .null = .ok newer from rfl)
  have family : newer.family = [newer, older] := rfl
  have known : ∀ h ∈ newer.family, h.KnownQuantifiers := by
    rw [family]
    rintro h (_ | ⟨_, _ | ⟨_, ⟨⟩⟩⟩) r (_ | ⟨_, ⟨⟩⟩) inner symbol part
    · simp at part
    · simp at part
  -- What the newer rule calls without progress; the literal shields the call of the rule itself.
  let reached (v : Place) : Prop := v = ⟨older, .literal ""⟩ ∨ v = ⟨newer, .bound older 0⟩ ∨
    v = ⟨newer, .repeated (.bound older 0) .zeroOrMore⟩ ∨ v = ⟨newer, .literal "a"⟩ ∨
    v = ⟨newer, .sequence [.repeated (.bound older 0) .zeroOrMore, .literal "a",
      .repeated (.reference "A" (some 0)) .optional]⟩
  have calls : ∀ v w, reached v → v.Calls w → reached w := by
    rintro v w (rfl | rfl | rfl | rfl | rfl) calls
    · exact absurd calls not_calls_literal
    · rcases calls with _ | _ | _ | _ | _ | ⟨⟨⟩, ⟨⟩⟩
      exact .inl rfl
    · rcases calls with _ | _ | _ | _ | _ | ⟨⟨⟩, _⟩
      exact .inr (.inl rfl)
    · exact absurd calls not_calls_literal
    · rcases calls with _ | _ | _ | @⟨_, _, _, k, item, before⟩ | _ | ⟨⟨⟩, _⟩
      match k with
      | 0 =>
          cases item
          exact .inr (.inr (.inl rfl))
      | 1 =>
          cases item
          exact .inr (.inr (.inr (.inl rfl)))
      | k + 2 =>
          have nullable := before 1 (.literal "a") (by omega) rfl
          rcases nullable with _ | _ | _ | _ | _ | _ | _ | _ | ⟨⟨⟩, _, _⟩
  have noLeftRecursion : ∀ h ∈ newer.family, ∀ slot < h.size, ¬ h.LeftRecursive slot := by
    rw [family]
    rintro h (_ | ⟨_, _ | ⟨_, ⟨⟩⟩⟩) slot lt
    · obtain rfl : slot = 0 := Nat.lt_one_iff.mp lt
      refine Grammar.not_leftRecursive ?_ calls ?_
      · rintro r ⟨⟩
        exact .inr (.inr (.inr (.inr rfl)))
      · rintro v (rfl | rfl | rfl | rfl | rfl) stands
        · cases stands
        · have same : newer.id = older.id := congrArg _ (standsFor_bound_iff.mp stands).1
          cases same
        · cases stands
        · cases stands
        · cases stands
    · obtain rfl : slot = 0 := Nat.lt_one_iff.mp lt
      refine @Grammar.not_leftRecursive _ _ (· = ⟨older, .literal ""⟩) ?_ ?_ ?_
      · rintro r ⟨⟩
        rfl
      · rintro v w rfl calls
        exact absurd calls not_calls_literal
      · rintro v rfl ⟨⟩
  exact ⟨older, newer, rfl, rfl, exists_evaluate_eq_ok second List.mem_cons_self known
    noLeftRecursion "A" List.mem_cons_self⟩

end History

end Peg
