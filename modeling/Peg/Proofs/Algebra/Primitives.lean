import Peg.Proofs.Evaluation.Depth
import Peg.Proofs.Result
import Peg.Rule.Build

/-!
# The algebra of primitive rules

A literal is the sequence of the literals that it is put together of, down to single characters, and
a class of characters is the choice among the classes that it is put together of. What counts is the
text that is spelled and the set of characters that is covered, and not how they are written: the
members of a class may come in any order and more than once, and a range may be cut in two.

Literals leave one leaf and their sequences one for each part, so these agree only in where they
stop. Classes and choices among them leave the same leaf.
-/

namespace Peg

open Except

/-! ## Rules that do the same -/

namespace Rule

/-- With frames enough two rules give the same at every position of every text: the same tree, or
both fail, or both refuse the position. -/
def SameOutcome (r s : Rule) : Prop :=
  ∀ (text : Text) (pos : Int), ∀ n ≥ r.depth, ∀ m ≥ s.depth,
    r.evaluate n text pos = s.evaluate m text pos

/-- With frames enough two rules stop at the same position wherever they run in a text, or both fail
there, or both refuse the position. -/
def SameEnd (r s : Rule) : Prop :=
  ∀ (text : Text) (pos : Int), ∀ n ≥ r.depth, ∀ m ≥ s.depth,
    (r.evaluate n text pos).map (Option.map Tree.stop) =
      (s.evaluate m text pos).map (Option.map Tree.stop)

/-- With frames enough the rule gives what is found in the text at the position. -/
def Gives (r : Rule) (found : Text → Nat → Option Tree) : Prop :=
  ∀ (text : Text) (pos : Nat), pos ≤ text.length → ∀ frames ≥ r.depth,
    eval text.toArray frames none r pos = .ok (found text pos)

variable {r s : Rule} {found found' : Text → Nat → Option Tree}

/-- A caller is given what is found, unless the position is outside of the text. -/
theorem Gives.evaluate_eq (h : r.Gives found) (text : Text) (pos : Int) {frames : Nat}
    (enough : r.depth ≤ frames) :
    r.evaluate frames text pos =
      if 0 ≤ pos ∧ pos ≤ text.length then .ok (found text pos.toNat)
      else .error (.positionOutside pos text.length) := by
  rw [evaluate]
  split
  next within =>
    rw [h text pos.toNat (Int.toNat_le.mpr within.2) frames enough]
    rfl
  next => rfl

theorem Gives.sameOutcome (h : r.Gives found) (h' : s.Gives found) : SameOutcome r s := by
  intro text pos n enough m enough'
  rw [h.evaluate_eq text pos enough, h'.evaluate_eq text pos enough']

theorem Gives.sameEnd (h : r.Gives found) (h' : s.Gives found')
    (same : ∀ text pos, (found text pos).map Tree.stop = (found' text pos).map Tree.stop) :
    SameEnd r s := by
  intro text pos n enough m enough'
  rw [h.evaluate_eq text pos enough, h'.evaluate_eq text pos enough']
  split
  · exact congrArg Except.ok (same text pos.toNat)
  · rfl

end Rule

/-! ## Literals -/

/-- A text that is put together of two stands where the first one does and the second one behind
it. -/
theorem standsAt_append_text (input : Array CodePoint) (s t : Text) (pos : Nat) :
    standsAt input (s ++ t) pos = (standsAt input s pos && standsAt input t (pos + s.length)) := by
  induction s generalizing pos with
  | nil =>
      rw [List.nil_append, List.length_nil, Nat.add_zero, standsAt]
      by_cases stands : standsAt input t pos = true
      · have within := le_size_of_standsAt stands
        rw [stands, decide_eq_true (by omega : pos ≤ input.size)]
        rfl
      · rw [Bool.eq_false_iff.mpr stands, Bool.and_false]
  | cons c s ih =>
      have onward : pos + 1 + s.length = pos + (s.length + 1) := by omega
      rw [List.cons_append, standsAt, standsAt, ih, Bool.and_assoc, List.length_cons, onward]

/-- The leaf of a literal where it stands. -/
def leafOf (t : Text) (text : Text) (pos : Nat) : Option Tree :=
  if standsAt text.toArray t pos then some (.leaf pos (pos + t.length)) else none

def leavesFrom : List Text → Nat → List Tree
  | [], _ => []
  | t :: ts, pos => .leaf pos (pos + t.length) :: leavesFrom ts (pos + t.length)

/-- The tree of literals in sequence where their texts stand one behind the other. -/
def leavesOf (ts : List Text) (text : Text) (pos : Nat) : Option Tree :=
  if standsAt text.toArray ts.flatten pos then
    some ⟨pos, pos + ts.flatten.length, leavesFrom ts pos⟩
  else none

theorem gives_literal (t : Text) : (Rule.literal t).Gives (leafOf t) := by
  intro text pos _ frames enough
  obtain ⟨frames, rfl⟩ := Nat.exists_eq_add_one.mpr enough
  rw [eval_literal, leafOf]

theorem inSequence_literals {run : Rule → Matcher} {text : Text} {ts : List Text}
    (each : ∀ t ∈ ts, ∀ pos ≤ text.length, run (.literal t) pos = .ok (leafOf t text pos))
    {pos : Nat} (within : pos ≤ text.length) :
    inSequence run (ts.map .literal) pos =
      .ok (if standsAt text.toArray ts.flatten pos then
        some (leavesFrom ts pos, pos + ts.flatten.length) else none) := by
  induction ts generalizing pos with
  | nil =>
      have stands : standsAt text.toArray [] pos = true := by simpa [standsAt] using within
      rw [List.flatten_nil, if_pos stands]
      rfl
  | cons t ts ih =>
      rw [List.map_cons, inSequence, each t List.mem_cons_self pos within, List.flatten_cons,
        standsAt_append_text, leafOf]
      by_cases first : standsAt text.toArray t pos = true
      · have stays := le_size_of_standsAt first
        rw [List.size_toArray] at stays
        have later := ih (fun t' mem ↦ each t' (List.mem_cons_of_mem t mem)) stays
        rw [if_pos first, first, Bool.true_and, ok_bind]
        simp only [Tree.stop_leaf, later]
        split
        · rw [List.length_append, ← Nat.add_assoc]
          rfl
        · rfl
      · rw [if_neg first, Bool.eq_false_iff.mpr first]
        rfl

theorem gives_literals (ts : List Text) :
    (Rule.sequence (ts.map .literal)).Gives (leavesOf ts) := by
  intro text pos within frames enough
  obtain ⟨frames, rfl⟩ := Nat.exists_eq_add_of_le' (Nat.le_of_add_right_le enough)
  have each : ∀ t ∈ ts, ∀ pos ≤ text.length,
      eval text.toArray frames none (.literal t) pos = .ok (leafOf t text pos) := by
    intro t mem pos within
    have depth := Rule.depth_le_greatestDepth (List.mem_map_of_mem (f := Rule.literal) mem)
    rw [Rule.depth] at enough
    exact gives_literal t text pos within frames (by omega)
  rw [eval_sequence, inSequence_literals each within, leavesOf]
  split <;> rfl

theorem sameEnd_literals (ts : List Text) :
    Rule.SameEnd (.literal ts.flatten) (.sequence (ts.map .literal)) := by
  refine (gives_literal ts.flatten).sameEnd (gives_literals ts) fun text pos ↦ ?_
  rw [leafOf, leavesOf]
  split <;> rfl

/-! ## Single characters -/

/-- The leaf of a character that satisfies a condition. -/
def characterOf (condition : CodePoint → Bool) (text : Text) (pos : Nat) : Option Tree :=
  charAt text.toArray condition pos

theorem gives_charRange (ranges : List CharRange) :
    (Rule.charRange ranges).Gives (characterOf fun c ↦ ranges.any (·.contains c)) := by
  intro text pos _ frames enough
  obtain ⟨frames, rfl⟩ := Nat.exists_eq_add_one.mpr enough
  rw [eval_charRange, characterOf]

/-- A single character stands where it is the character of the text. -/
theorem standsAt_single (text : Text) (c : CodePoint) (pos : Nat) :
    standsAt text.toArray [c] pos = decide (text[pos]? = some c) := by
  simp only [standsAt, List.getElem?_toArray, List.size_toArray]
  by_cases here : text[pos]? = some c
  · have before := (List.getElem?_eq_some_iff.mp here).1
    rw [decide_eq_true (Nat.succ_le_of_lt before), Bool.and_true]
  · rw [decide_eq_false here, Bool.false_and]

theorem gives_literal_single (c : CodePoint) :
    (Rule.literal [c]).Gives (characterOf fun d ↦ d = c) := by
  intro text pos within frames enough
  rw [gives_literal [c] text pos within frames enough, leafOf, standsAt_single, characterOf]
  by_cases here : text[pos]? = some c
  · rw [if_pos (decide_eq_true here), charAt_of_getElem? here (decide_eq_true rfl),
      List.length_singleton]
  · rw [if_neg (by simpa using here), charAt_eq_none_iff.mpr]
    intro d there
    exact decide_eq_false fun same ↦ here (same ▸ there)

/-- A choice among rules for single characters gives a character that satisfies one of the
conditions. -/
theorem gives_choice {α : Type} {as : List α} {rule : α → Rule}
    {condition : α → CodePoint → Bool}
    (each : ∀ a ∈ as, (rule a).Gives (characterOf (condition a))) :
    (Rule.choice (as.map rule)).Gives (characterOf fun c ↦ as.any (condition · c)) := by
  intro text pos within frames enough
  obtain ⟨frames, rfl⟩ := Nat.exists_eq_add_of_le' (Nat.le_of_add_right_le enough)
  have runs : ∀ a ∈ as, eval text.toArray frames none (rule a) pos =
      .ok (characterOf (condition a) text pos) := by
    intro a mem
    have depth := Rule.depth_le_greatestDepth (List.mem_map_of_mem (f := rule) mem)
    rw [Rule.depth] at enough
    exact each a mem text pos within frames (by omega)
  rw [eval_choice]
  clear each enough
  induction as with
  | nil => exact congrArg Except.ok (charAt_eq_none_iff.mpr fun _ _ ↦ rfl).symm
  | cons a as ih =>
      rw [List.map_cons, firstOf, runs a List.mem_cons_self, ok_bind, characterOf]
      cases found : charAt text.toArray (condition a) pos with
      | some t =>
          obtain ⟨rfl, c, here, holds⟩ := charAt_eq_some_iff.mp found
          refine congrArg Except.ok (charAt_eq_some_iff.mpr ⟨rfl, c, here, ?_⟩).symm
          rw [List.any_cons, holds, Bool.true_or]
      | none =>
          refine (ih fun a' mem ↦ runs a' (List.mem_cons_of_mem a mem)).trans ?_
          rw [characterOf, characterOf]
          -- Where the first condition does not hold the others decide.
          cases here : text[pos]? with
          | none => simp [charAt, here]
          | some c =>
              have fails := charAt_eq_none_iff.mp found c here
              simp [charAt, here, fails]

/-! ## Classes -/

namespace Value

/-- As a member of a class the value covers a character. -/
def Covers (v : Value) (c : CodePoint) : Prop :=
  ∃ range, Rule.rangeOf v = .ok range ∧ range.contains c = true

/-- A pair of ends covers what lies between them. -/
theorem covers_pair_iff {low high c : CodePoint} :
    (tuple [text [low], text [high]]).Covers c ↔ low ≤ c ∧ c ≤ high := by
  rw [Covers, Rule.rangeOf]
  constructor
  · rintro ⟨range, made, contains⟩
    simp only [Rule.character?] at made
    split at made
    · cases made
    · cases made
      exact (CharRange.contains_iff _ c).mp contains
  · rintro ⟨above, below⟩
    refine ⟨⟨low, high⟩, ?_, (CharRange.contains_iff _ c).mpr ⟨above, below⟩⟩
    simp only [Rule.character?]
    exact if_neg (not_lt.mpr (above.trans below))

/-- A single character covers itself. -/
theorem covers_single_iff {c d : CodePoint} : (text [c]).Covers d ↔ d = c := by
  constructor
  · rintro ⟨_, ⟨⟩, contains⟩
    exact (CharRange.contains_single c d).mp contains
  · intro same
    exact ⟨.single c, rfl, (CharRange.contains_single c d).mpr same⟩

end Value

namespace Rule

variable {members members' : List Value} {r s : Rule}

/-- A class can be made of some members, at least one, each of which is a range. -/
theorem exists_charRangeOf_iff :
    (∃ r, charRangeOf members = .ok r) ↔
      members ≠ [] ∧ ∀ v ∈ members, ∃ range, rangeOf v = .ok range := by
  rw [charRangeOf]
  constructor
  · rintro ⟨r, made⟩
    split at made
    · cases made
    next nonempty =>
      obtain ⟨ranges, all, -⟩ := bind_eq_ok_iff.mp made
      refine ⟨fun none ↦ nonempty (by rw [none]; rfl), fun v mem ↦ ?_⟩
      obtain ⟨range, -, made⟩ := (mapM_eq_ok_iff.mp all).exists_right mem
      exact ⟨range, made⟩
  · rintro ⟨nonempty, all⟩
    obtain ⟨ranges, made⟩ := exists_mapM all
    exact ⟨.charRange ranges, by rw [if_neg (by simpa using nonempty), made]; rfl⟩

/-- A class consists of ranges, and these contain what its members cover. -/
theorem exists_ranges_of_charRangeOf (made : charRangeOf members = .ok r) :
    ∃ ranges, r = .charRange ranges ∧
      ∀ c, ranges.any (·.contains c) = true ↔ ∃ v ∈ members, v.Covers c := by
  rw [charRangeOf] at made
  split at made
  · cases made
  · obtain ⟨ranges, all, same⟩ := bind_eq_ok_iff.mp made
    cases same
    replace all := mapM_eq_ok_iff.mp all
    refine ⟨ranges, rfl, fun c ↦ ?_⟩
    rw [List.any_eq_true]
    constructor
    · rintro ⟨range, mem, contains⟩
      obtain ⟨v, mem', ofValue⟩ := all.exists_left mem
      exact ⟨v, mem', range, ofValue, contains⟩
    · rintro ⟨v, mem, range, ofValue, contains⟩
      obtain ⟨range', mem', ofValue'⟩ := all.exists_right mem
      cases ofValue.symm.trans ofValue'
      exact ⟨range, mem', contains⟩

theorem gives_of_charRangeOf (made : charRangeOf members = .ok r) {condition : CodePoint → Bool}
    (covers : ∀ c, condition c = true ↔ ∃ v ∈ members, v.Covers c) :
    r.Gives (characterOf condition) := by
  obtain ⟨ranges, rfl, contains⟩ := exists_ranges_of_charRangeOf made
  have conditions : (fun c ↦ ranges.any (·.contains c)) = condition := by
    funext c
    rw [Bool.eq_iff_iff, contains, covers]
  exact conditions ▸ gives_charRange ranges

theorem sameOutcome_of_covers (made : charRangeOf members = .ok r)
    (made' : charRangeOf members' = .ok s)
    (same : ∀ c, (∃ v ∈ members, v.Covers c) ↔ ∃ v ∈ members', v.Covers c) :
    SameOutcome r s := by
  classical
  have covers : ∀ c, decide (∃ v ∈ members, v.Covers c) = true ↔ ∃ v ∈ members, v.Covers c :=
    fun c ↦ decide_eq_true_iff
  exact (gives_of_charRangeOf made covers).sameOutcome
    (gives_of_charRangeOf made' fun c ↦ (covers c).trans (same c))

/-- The class of all members is the choice between the classes of the first and the other ones. -/
theorem sameOutcome_charRangeOf_append (made : charRangeOf members = .ok r)
    (made' : charRangeOf members' = .ok s) :
    ∃ both, charRangeOf (members ++ members') = .ok both ∧ SameOutcome both (.choice [r, s]) := by
  classical
  obtain ⟨nonempty, all⟩ := exists_charRangeOf_iff.mp ⟨r, made⟩
  obtain ⟨-, all'⟩ := exists_charRangeOf_iff.mp ⟨s, made'⟩
  obtain ⟨both, madeBoth⟩ := exists_charRangeOf_iff.mpr
    ⟨List.append_ne_nil_of_left_ne_nil nonempty members', List.forall_mem_append.mpr ⟨all, all'⟩⟩
  let covered (vs : List Value) (c : CodePoint) : Bool := decide (∃ v ∈ vs, v.Covers c)
  have first : r.Gives (characterOf (covered members)) :=
    gives_of_charRangeOf made fun c ↦ decide_eq_true_iff
  have second : s.Gives (characterOf (covered members')) :=
    gives_of_charRangeOf made' fun c ↦ decide_eq_true_iff
  have either := @gives_choice _ [(r, covered members), (s, covered members')] Prod.fst Prod.snd
    (by simpa using ⟨first, second⟩)
  refine ⟨both, madeBoth, (gives_of_charRangeOf madeBoth fun c ↦ ?_).sameOutcome either⟩
  simp [covered, or_and_right, exists_or]

/-- The order of the members of a class does not count, nor how often they are given. -/
theorem sameOutcome_charRangeOf_of_subset (made : charRangeOf members = .ok r)
    (all : members ⊆ members') (noMore : members' ⊆ members) :
    ∃ s, charRangeOf members' = .ok s ∧ SameOutcome r s := by
  obtain ⟨nonempty, valid⟩ := exists_charRangeOf_iff.mp ⟨r, made⟩
  obtain ⟨s, made'⟩ := exists_charRangeOf_iff.mpr
    ⟨fun none ↦ nonempty (List.subset_nil.mp (none ▸ all)), fun v mem ↦ valid v (noMore mem)⟩
  refine ⟨s, made', sameOutcome_of_covers made made' fun c ↦ ?_⟩
  constructor
  · rintro ⟨v, mem, covers⟩
    exact ⟨v, all mem, covers⟩
  · rintro ⟨v, mem, covers⟩
    exact ⟨v, noMore mem, covers⟩

/-- A range of a class can be cut in two that meet or overlap. -/
theorem sameOutcome_charRangeOf_split {before after : List Value} {low high c d : CodePoint}
    (made : charRangeOf (before ++ .tuple [.text [low], .text [high]] :: after) = .ok r)
    (above : low ≤ c ∧ low ≤ d) (below : c ≤ high ∧ d ≤ high) (meet : d.val ≤ c.val + 1) :
    ∃ s, charRangeOf (before ++ .tuple [.text [low], .text [c]] ::
        .tuple [.text [d], .text [high]] :: after) = .ok s ∧ SameOutcome r s := by
  have pair : ∀ {low high : CodePoint}, low ≤ high →
      ∃ range, rangeOf (.tuple [.text [low], .text [high]]) = .ok range := by
    intro low high ordered
    obtain ⟨range, made, -⟩ := Value.covers_pair_iff.mpr ⟨ordered, le_refl high⟩
    exact ⟨range, made⟩
  obtain ⟨-, valid⟩ := exists_charRangeOf_iff.mp ⟨r, made⟩
  obtain ⟨front, -, behind⟩ : _ ∧ _ ∧ _ := by
    simpa only [List.forall_mem_append, List.forall_mem_cons] using valid
  obtain ⟨s, made'⟩ : ∃ s, charRangeOf (before ++ .tuple [.text [low], .text [c]] ::
      .tuple [.text [d], .text [high]] :: after) = .ok s := by
    refine exists_charRangeOf_iff.mpr ⟨by simp, ?_⟩
    simp only [List.forall_mem_append, List.forall_mem_cons]
    exact ⟨front, pair above.1, pair below.2, behind⟩
  refine ⟨s, made', sameOutcome_of_covers made made' fun x ↦ ?_⟩
  have cut : low ≤ x ∧ x ≤ high ↔ (low ≤ x ∧ x ≤ c) ∨ (d ≤ x ∧ x ≤ high) := by
    simp only [Fin.le_def] at above below ⊢
    omega
  simp only [List.mem_append, List.mem_cons, or_and_right, exists_or, exists_eq_left,
    Value.covers_pair_iff, cut, or_assoc]

end Rule

/-! ## Laws -/

theorem mapM_toRule_texts (ts : List Text) :
    (ts.map fun t ↦ Operand.value (.text t)).mapM Operand.toRule = .ok (ts.map .literal) :=
  mapM_eq_ok_iff.mpr (List.forall₂_map_left_iff.mpr (List.forall₂_map_right_iff.mpr
    (List.forall₂_same.mpr fun _ _ ↦ rfl)))

/-- The laws of literals and classes, for rules as their combinators make them. -/
structure PrimitiveAlgebra : Prop where
  /-- The literal of two texts one behind the other stops where the sequence of the texts does. -/
  literal_append : ∀ s t : Text, ∃ whole parts,
    Rule.literalOf (.text (s ++ t)) = .ok whole ∧
    Rule.sequenceOf [.value (.text s), .value (.text t)] = .ok parts ∧ whole.SameEnd parts
  /-- A literal stops where the sequence of its characters does. -/
  literal_characters : ∀ t : Text, ∃ whole parts, Rule.literalOf (.text t) = .ok whole ∧
    (Operand.partsOf (.text t) >>= Rule.sequenceOf) = .ok parts ∧ whole.SameEnd parts
  /-- The class of two rows of members is the choice between the classes of each. -/
  class_append : ∀ members members' r s, Rule.charRangeOf members = .ok r →
    Rule.charRangeOf members' = .ok s → ∃ both either,
      Rule.charRangeOf (members ++ members') = .ok both ∧
      Rule.choiceOf [.rule r, .rule s] = .ok either ∧ both.SameOutcome either
  /-- The members of a class can be reordered and repeated. -/
  class_members : ∀ members members' r, Rule.charRangeOf members = .ok r → members ⊆ members' →
    members' ⊆ members → ∃ s, Rule.charRangeOf members' = .ok s ∧ r.SameOutcome s
  /-- A range can be cut in two behind each of its characters but the last one, or at a character
  that then belongs to both. -/
  class_split : ∀ before after r (low high c d : CodePoint),
    Rule.charRangeOf (before ++ .tuple [.text [low], .text [high]] :: after) = .ok r →
    low ≤ c ∧ low ≤ d → c ≤ high ∧ d ≤ high → d.val ≤ c.val + 1 →
      ∃ s, Rule.charRangeOf (before ++ .tuple [.text [low], .text [c]] ::
        .tuple [.text [d], .text [high]] :: after) = .ok s ∧ r.SameOutcome s
  /-- The choice among the characters of a text is the class of them. -/
  choice_characters : ∀ t : Text, t ≠ [] → ∃ choice ofClass,
    (Operand.partsOf (.text t) >>= Rule.choiceOf) = .ok choice ∧
    Rule.charRangeOf (t.map fun c ↦ .text [c]) = .ok ofClass ∧ choice.SameOutcome ofClass
  /-- The literal of a single character is the class of it. -/
  literal_single : ∀ c : CodePoint, ∃ whole ofClass, Rule.literalOf (.text [c]) = .ok whole ∧
    Rule.charRangeOf [.text [c]] = .ok ofClass ∧ whole.SameOutcome ofClass

/-- Literals and classes obey their laws on all texts and at all positions, whatever the code points
are that they are made of. -/
theorem primitiveAlgebra : PrimitiveAlgebra where
  literal_append s t := by
    refine ⟨_, _, rfl, rfl, ?_⟩
    simpa using sameEnd_literals [s, t]
  literal_characters t := by
    refine ⟨_, .sequence ((t.map fun c ↦ [c]).map .literal), rfl, ?_, ?_⟩
    · have parts := mapM_toRule_texts (t.map fun c ↦ [c])
      rw [List.map_map] at parts
      rw [Operand.partsOf, ok_bind, Rule.sequenceOf]
      exact congrArg (· >>= _) parts
    · have whole : (t.map fun c ↦ [c]).flatten = t := by
        rw [← List.flatMap_def, List.flatMap_singleton']
      have same := sameEnd_literals (t.map fun c ↦ [c])
      rwa [whole] at same
  class_append members members' r s made made' := by
    obtain ⟨both, madeBoth, same⟩ := Rule.sameOutcome_charRangeOf_append made made'
    exact ⟨both, _, madeBoth, rfl, same⟩
  class_members _ _ _ made all noMore := Rule.sameOutcome_charRangeOf_of_subset made all noMore
  class_split _ _ _ _ _ _ _ made above below meet :=
    Rule.sameOutcome_charRangeOf_split made above below meet
  choice_characters t nonempty := by
    have valid : ∀ v ∈ t.map fun c ↦ Value.text [c], ∃ range, Rule.rangeOf v = .ok range := by
      intro v mem
      obtain ⟨c, -, rfl⟩ := List.mem_map.mp mem
      exact ⟨.single c, rfl⟩
    obtain ⟨ofClass, made⟩ := Rule.exists_charRangeOf_iff.mpr ⟨by simpa using nonempty, valid⟩
    refine ⟨.choice (t.map fun c ↦ .literal [c]), ofClass, ?_, made, ?_⟩
    · have parts := mapM_toRule_texts (t.map fun c ↦ [c])
      rw [List.map_map, List.map_map] at parts
      rw [Operand.partsOf, ok_bind, Rule.choiceOf]
      exact congrArg (· >>= _) parts
    · refine (gives_choice fun c _ ↦ gives_literal_single c).sameOutcome
        (Rule.gives_of_charRangeOf made fun d ↦ ?_)
      simp [Value.covers_single_iff]
  literal_single c := by
    refine ⟨_, _, rfl, rfl, (gives_literal_single c).sameOutcome ?_⟩
    have made : Rule.charRangeOf [.text [c]] = .ok _ := rfl
    exact Rule.gives_of_charRangeOf made fun d ↦ by simp [Value.covers_single_iff]

/-- A range from a surrogate of one kind to one of the other kind, cut in two between the kinds. -/
theorem primitiveAlgebra_surrogates : ∃ r s,
    Rule.charRangeOf [.tuple [.text [.ofNat 0xD83D], .text [.ofNat 0xDE00]]] = .ok r ∧
    Rule.charRangeOf [.tuple [.text [.ofNat 0xD83D], .text [.ofNat 0xDBFF]],
      .tuple [.text [.ofNat 0xDC00], .text [.ofNat 0xDE00]]] = .ok s ∧ r.SameOutcome s := by
  obtain ⟨s, made, same⟩ := primitiveAlgebra.class_split [] [] _ (.ofNat 0xD83D) (.ofNat 0xDE00)
    (.ofNat 0xDBFF) (.ofNat 0xDC00) rfl (by decide) (by decide) (by decide)
  exact ⟨_, s, rfl, made, same⟩

end Peg
