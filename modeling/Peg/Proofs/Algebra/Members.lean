import Peg.Proofs.Algebra.Primitives

/-!
# Members of classes

A class of characters is made of its *members*: single characters, and pairs of characters the
first of which does not come after the second. A value that is neither has a *defect*, and a class
with such a value among its members is refused for the first of them. What is said here about
members and their defects does not speak of how a class is made; it meets the making in two
equivalences for a single value, one for success and one for the errors.
-/

namespace Peg

open Except

/-! ## Values as members -/

/-- The value is a single character. -/
def Value.IsCharacter (v : Value) : Prop := ∃ c, v = .text [c]

/-- The value can be a member of a class. -/
inductive Value.IsMember : Value → Prop where
  /-- A single character. -/
  | character (c : CodePoint) : IsMember (.text [c])
  /-- Two characters in order. -/
  | pair {low high : CodePoint} (ordered : low ≤ high) :
      IsMember (.tuple [.text [low], .text [high]])

/-- As a member of a class the value admits a character. -/
inductive Value.Admits : Value → CodePoint → Prop where
  /-- A single character admits itself. -/
  | character (c : CodePoint) : Admits (.text [c]) c
  /-- Two characters admit those between them. -/
  | pair {low high c : CodePoint} (above : low ≤ c) (below : c ≤ high) :
      Admits (.tuple [.text [low], .text [high]]) c

/-- What is wrong with a value as a member of a class. Of a tuple its length counts before its low
end, this before its high end, and that before their order. -/
inductive Value.Defect : Value → DefinitionError → Prop where
  /-- It is no tuple and no character either. -/
  | noCharacter {v : Value} (noTuple : ∀ items, v ≠ .tuple items) (bad : ¬ v.IsCharacter) :
      Defect v (.badCharacter v)
  /-- It is a tuple of another length than two. -/
  | noPair {items : List Value} (length : items.length ≠ 2) :
      Defect (.tuple items) (.notAPair (.tuple items))
  /-- Its low end is no character, whatever the high end is. -/
  | badLow {low high : Value} (bad : ¬ low.IsCharacter) :
      Defect (.tuple [low, high]) (.badRangeStart low)
  /-- Its low end is a character, but its high end is none. -/
  | badHigh {low high : Value} (good : low.IsCharacter) (bad : ¬ high.IsCharacter) :
      Defect (.tuple [low, high]) (.badRangeEnd high)
  /-- Its ends are characters, but not in order. -/
  | unordered {low high : CodePoint} (order : high < low) :
      Defect (.tuple [.text [low], .text [high]]) (.emptyRange low high)

namespace Rule

variable {v : Value}

theorem character?_eq_some_iff {c : CodePoint} : character? v = some c ↔ v = .text [c] := by
  unfold character?
  split
  next d => simp
  next other =>
    constructor
    · exact nofun
    · rintro rfl
      exact (other c rfl).elim

theorem character?_eq_none_iff : character? v = none ↔ ¬ v.IsCharacter := by
  simp only [Option.eq_none_iff_forall_ne_some, ne_eq, character?_eq_some_iff, Value.IsCharacter,
    not_exists]

/-- A value makes a range if it can be a member. -/
theorem exists_rangeOf_iff : (∃ range, rangeOf v = .ok range) ↔ v.IsMember := by
  constructor
  · rintro ⟨range, made⟩
    unfold rangeOf at made
    split at made
    next low high =>
      split at made
      next => cases made
      next => cases made
      next l h isLow isHigh =>
        split at made
        next => cases made
        next ordered =>
          rw [character?_eq_some_iff.mp isLow, character?_eq_some_iff.mp isHigh]
          exact .pair (not_lt.mp ordered)
    next => cases made
    next =>
      split at made
      next c isCharacter =>
        rw [character?_eq_some_iff.mp isCharacter]
        exact .character c
      next => cases made
  · rintro (c | ordered)
    · exact ⟨.single c, rfl⟩
    · obtain ⟨range, made, -⟩ := Value.covers_pair_iff.mpr ⟨ordered, le_refl _⟩
      exact ⟨range, made⟩

/-- A value makes no range because of its defect. -/
theorem rangeOf_eq_error_iff {e : DefinitionError} : rangeOf v = .error e ↔ v.Defect e := by
  constructor
  · intro refused
    unfold rangeOf at refused
    split at refused
    next low high =>
      split at refused
      next noLow =>
        cases refused
        exact .badLow (character?_eq_none_iff.mp noLow)
      next isLow noHigh =>
        cases refused
        exact .badHigh ⟨_, character?_eq_some_iff.mp isLow⟩ (character?_eq_none_iff.mp noHigh)
      next l h isLow isHigh =>
        split at refused
        next order =>
          cases refused
          rw [character?_eq_some_iff.mp isLow, character?_eq_some_iff.mp isHigh]
          exact .unordered order
        next => cases refused
    next items noPair =>
      cases refused
      refine .noPair fun two ↦ ?_
      obtain ⟨low, high, rfl⟩ := List.length_eq_two.mp two
      exact noPair low high rfl
    next noTuple =>
      split at refused
      next => cases refused
      next noCharacter =>
        cases refused
        exact .noCharacter noTuple (character?_eq_none_iff.mp noCharacter)
  · rintro (⟨noTuple, bad⟩ | @⟨items, length⟩ | bad | ⟨⟨l, rfl⟩, bad⟩ | order)
    · rw [← character?_eq_none_iff] at bad
      cases v with
      | tuple items => exact (noTuple items rfl).elim
      | _ => simp only [rangeOf, bad]
    · rcases items with _ | ⟨low, _ | ⟨high, _ | ⟨third, rest⟩⟩⟩
      · rfl
      · rfl
      · exact (length rfl).elim
      · rfl
    · rw [← character?_eq_none_iff] at bad
      simp only [rangeOf, bad]
    · have isLow : character? (.text [l]) = some l := rfl
      rw [← character?_eq_none_iff] at bad
      simp only [rangeOf, isLow, bad]
    · exact if_pos order

theorem covers_iff_admits {c : CodePoint} : v.Covers c ↔ v.Admits c := by
  constructor
  · rintro ⟨range, made, contains⟩
    cases exists_rangeOf_iff.mp ⟨range, made⟩ with
    | character d =>
        obtain rfl := Value.covers_single_iff.mp ⟨range, made, contains⟩
        exact .character c
    | pair ordered =>
        obtain ⟨above, below⟩ := Value.covers_pair_iff.mp ⟨range, made, contains⟩
        exact .pair above below
  · rintro (_ | ⟨above, below⟩)
    · exact Value.covers_single_iff.mpr rfl
    · exact Value.covers_pair_iff.mpr ⟨above, below⟩

/-! ## Classes -/

/-- Wherever it stands and wherever it runs, the rule takes one character if that is one of some,
and fails if it is not or if there is none. -/
def TakesOne (r : Rule) (among : CodePoint → Prop) : Prop :=
  ∀ (text : Text) (pos frames : Nat) (env : Option Grammar),
    ∃ found, eval text.toArray (frames + 1) env r pos = .ok found ∧
      ∀ t, found = some t ↔ t = .leaf pos (pos + 1) ∧ ∃ c, text[pos]? = some c ∧ among c

variable {members : List Value}

theorem takesOne_of_charRangeOf {r : Rule} (made : charRangeOf members = .ok r) :
    r.TakesOne fun c ↦ ∃ v ∈ members, v.Admits c := by
  obtain ⟨ranges, rfl, contains⟩ := exists_ranges_of_charRangeOf made
  intro text pos frames env
  refine ⟨_, eval_charRange _ frames env pos ranges, fun t ↦ ?_⟩
  simp only [charAt_eq_some_iff, List.getElem?_toArray, contains, covers_iff_admits]

theorem failure?_charRangeOf : (charRangeOf members).failure? =
    if members = [] then some .noRanges else members.findSome? fun v ↦ (rangeOf v).failure? := by
  cases members with
  | nil => rfl
  | cons v members =>
      rw [if_neg (List.cons_ne_nil v members), ← failure?_mapM]
      exact failure?_map _ _

/-- A class is made of some values if there is one at least and all can be members. It takes the
characters that they admit. If it cannot be made, there are no values at all, or the first of them
that cannot be a member is refused for its defect, whatever comes behind it. -/
theorem charRangeOf_accepts_or_first_defect (members : List Value) :
    ((∃ r, charRangeOf members = .ok r) ↔ members ≠ [] ∧ ∀ v ∈ members, v.IsMember) ∧
    (∀ r, charRangeOf members = .ok r → r.TakesOne fun c ↦ ∃ v ∈ members, v.Admits c) ∧
    ∀ e, charRangeOf members = .error e ↔
      members = [] ∧ e = .noRanges ∨
      ∃ before v after, members = before ++ v :: after ∧ (∀ v' ∈ before, v'.IsMember) ∧
        v.Defect e := by
  refine ⟨?_, fun r made ↦ takesOne_of_charRangeOf made, fun e ↦ ?_⟩
  · simp only [exists_charRangeOf_iff, exists_rangeOf_iff]
  · rw [← failure?_eq_some_iff, failure?_charRangeOf]
    by_cases empty : members = []
    · subst empty
      simp [eq_comm]
    · rw [if_neg empty]
      simp only [List.findSome?_eq_some_iff, failure?_eq_some_iff, failure?_eq_none_iff,
        rangeOf_eq_error_iff, exists_rangeOf_iff, empty, false_and, false_or]
      constructor
      · rintro ⟨before, v, after, here, defect, valid⟩
        exact ⟨before, v, after, here, valid, defect⟩
      · rintro ⟨before, v, after, here, valid, defect⟩
        exact ⟨before, v, after, here, defect, valid⟩

/-- Of two bad ends the low one is refused, and nothing is said of the member behind the pair. -/
example : charRangeOf [.text "a", .tuple [.list [], .int 3], .null] =
    .error (.badRangeStart (.list [])) := rfl

end Rule

end Peg
