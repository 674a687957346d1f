import Mathlib.Data.List.Forall2
import Peg.Evaluate

/-!
# References of any kind

What a reference stands for does not have to be the rule in a slot. Rules run in the same way with
any other means to find the rule of a reference, and running them in a grammar is the case where
slots are looked up.

Two rules, each with its own means to find rules, run alike with any number of frames if they are
built alike and their references lead to rules that are built alike as well. This is a simulation:
it is enough to compare the rules one frame at a time.
-/

namespace Peg

/-- A means to find the rule that a reference stands for, from its name and its slot. -/
abbrev Resolver := Text → Option Int → Except Halt Rule

/-! ## Runs -/

mutual

/-- Runs a rule whose references stand for the rules that the resolver finds. A bound rule runs in
its own grammar. -/
def evalWith (find : Resolver) (input : Array CodePoint) : Nat → Rule → Matcher
  | 0, _, _ => .error .outOfFrames
  | frames + 1, rule, pos =>
      match rule with
      | .literal t => .ok (if standsAt input t pos then some (.leaf pos (pos + t.length)) else none)
      | .charRange ranges => .ok (charAt input (fun c ↦ ranges.any (·.contains c)) pos)
      | .anyChar => .ok (charAt input (fun _ ↦ true) pos)
      | .reference name slot => do
          let r ← find name slot
          evalWith find input frames r pos
      | .bound grammar slot => do
          let r ← ruleIn grammar slot
          eval input frames (some grammar) r pos
      | .followedBy r => do
          match ← evalWith find input frames r pos with
          | some t => .ok (some ⟨pos, pos, [t]⟩)
          | none => .ok none
      | .notFollowedBy r => do
          match ← evalWith find input frames r pos with
          | some _ => .ok none
          | none => .ok (some (.leaf pos pos))
      | .sequence items => do
          match ← inSequence (evalWith find input frames) items pos with
          | some (ts, stop) => .ok (some ⟨pos, stop, ts⟩)
          | none => .ok none
      | .choice alternatives => firstOf (evalWith find input frames) alternatives pos
      | .repeated r .optional => do
          match ← evalWith find input frames r pos with
          | some t => .ok (some t)
          | none => .ok (some (.leaf pos pos))
      | .repeated r .zeroOrMore => do
          let (ts, stop) ← evalChainWith find input frames r pos
          .ok (some ⟨pos, stop, ts⟩)
      | .repeated r .oneOrMore => do
          match ← evalWith find input frames r pos with
          | none => .ok none
          | some first => do
              let (ts, stop) ← evalChainWith find input frames r first.stop
              .ok (some ⟨pos, stop, first :: ts⟩)
      | .repeated _ (.unknown symbol) => .error (.unknownQuantifier symbol)

/-- Runs such a rule again and again for as long as it advances, inside one frame. -/
def evalChainWith (find : Resolver) (input : Array CodePoint) :
    Nat → Rule → Nat → Except Halt (List Tree × Nat)
  | 0, _, _ => .error .outOfFrames
  | frames + 1, r, pos => chain (evalWith find input frames r) (roundsFrom input pos) pos

end

/-- In a grammar, references stand for the rules in their slots. -/
theorem eval_and_evalChain_eq_with (input : Array CodePoint) (env : Option Grammar) (frames : Nat) :
    eval input frames env = evalWith (fun name slot ↦ resolve name slot env) input frames ∧
      evalChain input frames env =
        evalChainWith (fun name slot ↦ resolve name slot env) input frames := by
  induction frames with
  | zero => exact ⟨rfl, rfl⟩
  | succ frames ih =>
      obtain ⟨rule, repetition⟩ := ih
      constructor
      · funext r pos
        cases r with
        | literal | charRange | anyChar | bound => rfl
        | reference name slot =>
            rw [eval_reference, rule]
            rfl
        | followedBy r =>
            rw [eval_followedBy, rule]
            rfl
        | notFollowedBy r =>
            rw [eval_notFollowedBy, rule]
            rfl
        | sequence items =>
            rw [eval_sequence, rule]
            rfl
        | choice alternatives =>
            rw [eval_choice, rule]
            rfl
        | repeated r quantifier =>
            cases quantifier with
            | «optional» =>
                rw [eval_optional, rule]
                rfl
            | zeroOrMore =>
                rw [eval_zeroOrMore, repetition]
                rfl
            | oneOrMore =>
                rw [eval_oneOrMore, rule, repetition]
                rfl
            | unknown symbol => rfl
      · funext r pos
        rw [evalChain_succ, evalChainWith, rule]

theorem eval_eq_evalWith (input : Array CodePoint) (frames : Nat) (env : Option Grammar) :
    eval input frames env = evalWith (fun name slot ↦ resolve name slot env) input frames :=
  (eval_and_evalChain_eq_with input env frames).1

/-! ## Loops -/

section Loops

open List (Forall₂)

variable {run run' : Rule → Matcher}

theorem inSequence_congr {items items' : List Rule}
    (h : Forall₂ (fun r r' ↦ ∀ pos, run r pos = run' r' pos) items items') (pos : Nat) :
    inSequence run items pos = inSequence run' items' pos := by
  induction h generalizing pos with
  | nil => rfl
  | @cons r r' rest rest' first _ ih => simp only [inSequence, first, ih]

theorem firstOf_congr {alternatives alternatives' : List Rule}
    (h : Forall₂ (fun r r' ↦ ∀ pos, run r pos = run' r' pos) alternatives alternatives')
    (pos : Nat) : firstOf run alternatives pos = firstOf run' alternatives' pos := by
  induction h with
  | nil => rfl
  | cons first _ ih => simp only [firstOf, first, ih]

end Loops

/-! ## Simulations -/

section Simulations

variable (find find' : Resolver) (input : Array CodePoint) (R : Rule → Rule → Prop)

/-- Two rules are built alike: they are of the same kind with related parts, or references to
related rules, or rules that are known to run alike. -/
inductive Alike : Rule → Rule → Prop where
  /-- The same literal. -/
  | literal (t : Text) : Alike (.literal t) (.literal t)
  /-- The same class. -/
  | charRange (ranges : List CharRange) : Alike (.charRange ranges) (.charRange ranges)
  /-- Any character. -/
  | anyChar : Alike .anyChar .anyChar
  /-- Repetitions of related rules within the same quantifier. -/
  | repeated {r r' : Rule} (h : R r r') (quantifier : Quantifier) :
      Alike (.repeated r quantifier) (.repeated r' quantifier)
  /-- Positive lookaheads of related rules. -/
  | followedBy {r r' : Rule} (h : R r r') : Alike (.followedBy r) (.followedBy r')
  /-- Negative lookaheads of related rules. -/
  | notFollowedBy {r r' : Rule} (h : R r r') : Alike (.notFollowedBy r) (.notFollowedBy r')
  /-- Related rules one after the other. -/
  | sequence {items items' : List Rule} (h : List.Forall₂ R items items') :
      Alike (.sequence items) (.sequence items')
  /-- Related alternatives. -/
  | choice {alternatives alternatives' : List Rule}
      (h : List.Forall₂ R alternatives alternatives') :
      Alike (.choice alternatives) (.choice alternatives')
  /-- References to related rules. -/
  | reference {name name' : Text} {slot slot' : Option Int} {r r' : Rule}
      (found : find name slot = .ok r) (found' : find' name' slot' = .ok r') (h : R r r') :
      Alike (.reference name slot) (.reference name' slot')
  /-- Rules that run alike. -/
  | agreeing {r r' : Rule}
      (h : ∀ frames pos, evalWith find input frames r pos = evalWith find' input frames r' pos) :
      Alike r r'

/-- Related rules are built alike. -/
def Simulation : Prop := ∀ r r', R r r' → Alike find find' input R r r'

variable {find find' input R}

/-- Related rules run alike, once and again and again. -/
theorem Simulation.evalWith_and_evalChainWith_eq (simulation : Simulation find find' input R)
    (frames : Nat) :
    (∀ r r', R r r' → ∀ pos,
      evalWith find input frames r pos = evalWith find' input frames r' pos) ∧
    ∀ r r', R r r' → ∀ pos,
      evalChainWith find input frames r pos = evalChainWith find' input frames r' pos := by
  induction frames with
  | zero => exact ⟨fun _ _ _ _ ↦ rfl, fun _ _ _ _ ↦ rfl⟩
  | succ frames ih =>
      obtain ⟨rule, repetition⟩ := ih
      constructor
      · intro r r' related pos
        cases simulation r r' related with
        | literal | charRange | anyChar => rfl
        | followedBy h => rw [evalWith, evalWith, rule _ _ h]
        | notFollowedBy h => rw [evalWith, evalWith, rule _ _ h]
        | sequence h => rw [evalWith, evalWith, inSequence_congr (h.imp rule)]
        | choice h => rw [evalWith, evalWith, firstOf_congr (h.imp rule)]
        | reference found found' h =>
            rw [evalWith, evalWith, found, found']
            exact rule _ _ h pos
        | agreeing h => exact h (frames + 1) pos
        | repeated h quantifier =>
            cases quantifier with
            | «optional» => rw [evalWith, evalWith, rule _ _ h]
            | zeroOrMore => rw [evalWith, evalWith, repetition _ _ h]
            | oneOrMore => simp only [evalWith, rule _ _ h, repetition _ _ h]
            | unknown symbol => rfl
      · intro r r' related pos
        rw [evalChainWith, evalChainWith, funext (rule r r' related)]

/-- Related rules run alike with any number of frames. -/
theorem Simulation.evalWith_eq (simulation : Simulation find find' input R) {r r' : Rule}
    (related : R r r') (frames pos : Nat) :
    evalWith find input frames r pos = evalWith find' input frames r' pos :=
  (simulation.evalWith_and_evalChainWith_eq frames).1 r r' related pos

/-- A bound rule runs in its own grammar, whatever references are taken to stand for. -/
theorem Alike.bound (g : Grammar) (slot : Nat) :
    Alike find find' input R (.bound g slot) (.bound g slot) := by
  apply Alike.agreeing
  intro frames pos
  cases frames with
  | zero => rfl
  | succ frames => rfl

end Simulations

end Peg
