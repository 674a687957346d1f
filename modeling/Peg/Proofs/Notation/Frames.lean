import Peg.Proofs.Notation.Reading

/-!
# Reading with more frames

What is read, or what is found to be wrong, does not depend on the number of frames, as long as they
do not run out. So it is known what can be wrong with a source even if the frames hardly suffice:
since they suffice for every source if there are enough of them, there is a flaw or nothing.
-/

namespace Peg.Notation

open Except

/-- The first result is the second one, unless it is that the frames ran out. -/
abbrev KeptBy {α : Type} (x y : Except ReadError α) : Prop := UpTo .outOfFrames x y

section Loops

variable {read read' : Reader Rule}

theorem keptBy_itemsWith (h : ∀ tokens, KeptBy (read tokens) (read' tokens)) (count : Nat)
    (tokens : List Token) :
    KeptBy (itemsWith read count tokens) (itemsWith read' count tokens) := by
  induction count generalizing tokens with
  | zero => exact .refl _ _
  | succ count ih =>
      rw [itemsWith, itemsWith]
      apply UpTo.bind_left
      intro ends
      split
      · exact .refl _ _
      · apply UpTo.bind (h tokens)
        rintro ⟨r, left⟩
        exact (ih left).bind_right _

theorem keptBy_alternativesWith (h : ∀ tokens, KeptBy (read tokens) (read' tokens)) (count : Nat)
    (tokens : List Token) :
    KeptBy (alternativesWith read count tokens) (alternativesWith read' count tokens) := by
  induction count generalizing tokens with
  | zero => exact .refl _ _
  | succ count ih =>
      rw [alternativesWith, alternativesWith]
      apply UpTo.bind_left
      rintro ⟨_ | slash, left⟩
      · exact .refl _ _
      · apply UpTo.bind (h left)
        rintro ⟨r, left'⟩
        exact (ih left').bind_right _

theorem keptBy_ruleWith (h : ∀ tokens, KeptBy (read tokens) (read' tokens)) (seen : List Text)
    (tokens : List Token) : KeptBy (ruleWith read seen tokens) (ruleWith read' seen tokens) := by
  apply UpTo.bind_left
  rintro ⟨head, left⟩
  apply UpTo.bind_left
  rintro ⟨arrow, left'⟩
  exact (h left').bind_right _

theorem keptBy_rulesWith (h : ∀ tokens, KeptBy (read tokens) (read' tokens)) (count : Nat)
    (seen : List Text) (tokens : List Token) :
    KeptBy (rulesWith read count seen tokens) (rulesWith read' count seen tokens) := by
  induction count generalizing seen tokens with
  | zero => exact .refl _ _
  | succ count ih =>
      cases tokens with
      | nil => exact .refl _ _
      | cons t rest =>
          rw [rulesWith, rulesWith]
          split
          · exact .refl _ _
          · apply UpTo.bind (keptBy_ruleWith h seen (t :: rest))
            rintro ⟨entry, left⟩
            exact (ih (entry.1 :: seen) left).bind_right _

end Loops

/-- One more frame keeps what every reader of parts of rules gives. -/
theorem keptBy_succ (frames : Nat) :
    (∀ tokens, KeptBy (expression frames tokens) (expression (frames + 1) tokens)) ∧
    (∀ tokens, KeptBy (sequence frames tokens) (sequence (frames + 1) tokens)) ∧
    (∀ tokens, KeptBy (item frames tokens) (item (frames + 1) tokens)) ∧
    (∀ tokens, KeptBy (suffixed frames tokens) (suffixed (frames + 1) tokens)) ∧
    ∀ tokens, KeptBy (primary frames tokens) (primary (frames + 1) tokens) := by
  induction frames with
  | zero =>
      refine ⟨?_, ?_, ?_, ?_, ?_⟩
      all_goals exact fun _ ↦ .error _ _
  | succ frames ih =>
      obtain ⟨expressions, sequences, items, suffixeds, primaries⟩ := ih
      refine ⟨?_, ?_, ?_, ?_, ?_⟩
      · intro tokens
        rw [expression, expression]
        apply UpTo.bind (sequences tokens)
        rintro ⟨r, left⟩
        exact (keptBy_alternativesWith sequences left.length left).bind_right _
      · intro tokens
        rw [sequence, sequence]
        exact (keptBy_itemsWith items tokens.length tokens).bind_right _
      · intro tokens
        rw [item, item]
        apply UpTo.bind_left
        rintro ⟨_ | operator, left⟩
        · exact suffixeds left
        · exact (suffixeds left).bind_right _
      · intro tokens
        rw [suffixed, suffixed]
        exact (primaries tokens).bind_right _
      · intro tokens
        cases tokens with
        | nil => exact .refl _ _
        | cons t rest =>
            rw [primary, primary]
            split
            · exact .refl _ _
            · exact .refl _ _
            · exact .refl _ _
            · split
              · exact .refl _ _
              · split
                · exact (expressions rest).bind_right _
                · exact .refl _ _
            · exact .refl _ _
            · exact .refl _ _

/-- More frames keep what is read of tokens, and what is found to be wrong with them. -/
theorem readRules_eq_of_le {frames frames' : Nat} (le : frames ≤ frames') {tokens : List Token}
    (enough : readRules frames tokens ≠ .error .outOfFrames) :
    readRules frames' tokens = readRules frames tokens := by
  have body : ∀ tokens, KeptBy (expression frames tokens) (expression frames' tokens) := by
    induction le with
    | refl => exact fun tokens ↦ .refl _ _
    | step _ ih => exact fun tokens ↦ (ih tokens).trans ((keptBy_succ _).1 tokens)
  have all : KeptBy (readRules frames tokens) (readRules frames' tokens) :=
    ((keptBy_rulesWith body tokens.length [] tokens).bind_right _).bind_right _
  exact all.eq_of_ne enough

/-- Whatever the number of frames, terminated tokens are read, or have a flaw, or the frames run
out. -/
theorem settles_readRules_of_ne {frames : Nat} {tokens : List Token}
    (terminated : Terminated tokens) (enough : readRules frames tokens ≠ .error .outOfFrames) :
    Settles (readRules frames tokens) := by
  rw [← readRules_eq_of_le (Nat.le_max_left frames (5 * nesting 0 tokens + 5)) enough]
  exact settles_readRules terminated (Nat.le_max_right _ _)

end Peg.Notation
