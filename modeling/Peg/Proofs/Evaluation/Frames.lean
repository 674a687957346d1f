import Mathlib.Data.Nat.Find
import Peg.Evaluate
import Peg.Proofs.Result

/-!
# More frames

A run either runs out of frames or gives an answer, and the answer does not depend on how many
frames there were: with more of them the run gives the same tree, the same failure or the same halt.
So for each run there is a number of frames from which on it gives its answer and below which it
gives none, unless no number of frames is enough.

The comparison of two results is a relation that binds preserve, and the loops of the evaluator are
binds of the runs of their rule.
-/

namespace Peg

open Except

/-- The second result is the first one, unless the first one is that the frames ran out. -/
abbrev Agrees {α : Type} (x y : Except Halt α) : Prop := UpTo .outOfFrames x y

/-! ## Loops -/

section Loops

variable {run run' : Rule → Matcher}

/-- Rules that agree one by one agree in sequence. -/
theorem Agrees.inSequence (h : ∀ r pos, Agrees (run r pos) (run' r pos)) (items : List Rule)
    (pos : Nat) : Agrees (inSequence run items pos) (inSequence run' items pos) := by
  induction items generalizing pos with
  | nil => exact .refl _ _
  | cons r rest ih =>
      apply UpTo.bind (h r pos)
      intro found
      cases found with
      | none => exact .refl _ _
      | some t => exact UpTo.bind (ih t.stop) fun _ ↦ .refl _ _

/-- Rules that agree one by one agree as alternatives. -/
theorem Agrees.firstOf (h : ∀ r pos, Agrees (run r pos) (run' r pos)) (alternatives : List Rule)
    (pos : Nat) : Agrees (firstOf run alternatives pos) (firstOf run' alternatives pos) := by
  induction alternatives with
  | nil => exact .refl _ _
  | cons r rest ih =>
      apply UpTo.bind (h r pos)
      intro found
      cases found with
      | none => exact ih
      | some t => exact .refl _ _

/-- Matchers that agree everywhere agree when they are run again and again. -/
theorem Agrees.chain {run run' : Matcher} (h : ∀ pos, Agrees (run pos) (run' pos))
    (rounds pos : Nat) : Agrees (chain run rounds pos) (chain run' rounds pos) := by
  induction rounds generalizing pos with
  | zero => exact .refl _ _
  | succ rounds ih =>
      apply UpTo.bind (h pos)
      intro found
      cases found with
      | none => exact .refl _ _
      | some t =>
          simp only
          split
          · exact .refl _ _
          · exact UpTo.bind (ih t.stop) fun _ ↦ .refl _ _

end Loops

/-! ## Runs -/

section Runs

variable (input : Array CodePoint)

/-- One more frame keeps every answer, of a rule and of a repetition. -/
theorem agrees_succ (frames : Nat) :
    (∀ env r pos, Agrees (eval input frames env r pos) (eval input (frames + 1) env r pos)) ∧
      ∀ env r pos,
        Agrees (evalChain input frames env r pos) (evalChain input (frames + 1) env r pos) := by
  induction frames with
  | zero => exact ⟨fun _ _ _ ↦ by simp, fun _ _ _ ↦ by simp⟩
  | succ frames ih =>
      obtain ⟨rule, repetition⟩ := ih
      constructor
      · intro env r pos
        cases r with
        | literal t => simp only [eval_literal, UpTo.refl]
        | charRange ranges => simp only [eval_charRange, UpTo.refl]
        | anyChar => simp only [eval_anyChar, UpTo.refl]
        | reference name slot =>
            simp only [eval_reference]
            exact UpTo.bind (.refl _ _) fun r ↦ rule env r pos
        | bound grammar slot =>
            simp only [eval_bound]
            exact UpTo.bind (.refl _ _) fun r ↦ rule (some grammar) r pos
        | followedBy r =>
            simp only [eval_followedBy]
            exact UpTo.bind (rule env r pos) fun _ ↦ .refl _ _
        | notFollowedBy r =>
            simp only [eval_notFollowedBy]
            exact UpTo.bind (rule env r pos) fun _ ↦ .refl _ _
        | sequence items =>
            simp only [eval_sequence]
            exact UpTo.bind (Agrees.inSequence (rule env) items pos) fun _ ↦ .refl _ _
        | choice alternatives =>
            simp only [eval_choice]
            exact Agrees.firstOf (rule env) alternatives pos
        | repeated r quantifier =>
            cases quantifier with
            | «optional» =>
                simp only [eval_optional]
                exact UpTo.bind (rule env r pos) fun _ ↦ .refl _ _
            | zeroOrMore =>
                simp only [eval_zeroOrMore]
                exact UpTo.bind (repetition env r pos) fun _ ↦ .refl _ _
            | oneOrMore =>
                simp only [eval_oneOrMore]
                apply UpTo.bind (rule env r pos)
                intro found
                cases found with
                | none => exact .refl _ _
                | some first => exact UpTo.bind (repetition env r first.stop) fun _ ↦ .refl _ _
            | unknown symbol => simp only [eval_unknown, UpTo.refl]
      · intro env r pos
        simp only [evalChain_succ]
        exact Agrees.chain (rule env r) _ pos

theorem agrees_of_le {n m : Nat} (h : n ≤ m) (env : Option Grammar) (r : Rule) (pos : Nat) :
    Agrees (eval input n env r pos) (eval input m env r pos) := by
  induction h with
  | refl => exact .refl _ _
  | step _ ih => exact ih.trans ((agrees_succ input _).1 env r pos)

variable {input}

/-- An answer is the answer with any larger number of frames. -/
theorem eval_eq_of_le {n m : Nat} {env : Option Grammar} {r : Rule} {pos : Nat}
    {o : Except Halt (Option Tree)} (h : eval input n env r pos = o)
    (answers : o ≠ .error .outOfFrames) (le : n ≤ m) : eval input m env r pos = o := by
  subst h
  exact (agrees_of_le input le env r pos).eq_of_ne answers

/-- A run that has an answer has a limit: with fewer frames it runs out of them, and from the limit
on it gives the answer. -/
theorem exists_limit {n : Nat} {env : Option Grammar} {r : Rule} {pos : Nat}
    {o : Except Halt (Option Tree)} (h : eval input n env r pos = o)
    (answers : o ≠ .error .outOfFrames) :
    ∃ limit, ∀ frames,
      eval input frames env r pos = if frames < limit then .error .outOfFrames else o := by
  classical
  have enough : ∃ n, eval input n env r pos ≠ .error .outOfFrames := ⟨n, h ▸ answers⟩
  refine ⟨Nat.find enough, fun frames ↦ ?_⟩
  split
  next below => exact not_not.mp (Nat.find_min enough below)
  next notBelow =>
      -- The answers at the limit and with `n` frames are both the one with the larger number.
      have atLimit : eval input frames env r pos = eval input (Nat.find enough) env r pos :=
        eval_eq_of_le rfl (Nat.find_spec enough) (not_lt.mp notBelow)
      rw [atLimit, ← eval_eq_of_le rfl (Nat.find_spec enough) (Nat.le_max_left _ n),
        eval_eq_of_le h answers (Nat.le_max_right _ n)]

end Runs

end Peg
