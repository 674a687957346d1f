import Peg.Proofs.Evaluation.Adequacy
import Peg.Proofs.Rule.Induction
import Peg.Proofs.Rule.Parts
import Peg.Match

/-!
# The depth of a rule

A rule without references runs nothing but its parts. However long the text is, its runs nest no
deeper than its parts do, since the rounds of a repetition all take place in the same two frames. So
the number of frames that are enough can be read off the rule, and with these it comes to an end
everywhere, with a tree or a failure that depends neither on the frames nor on a grammar.
-/

namespace Peg

namespace Rule

mutual

/-- How deep the runs of a rule nest that holds no references: one frame for the rule itself, one
more for the loop of a repetition, and those of its deepest part. -/
def depth : Rule → Nat
  | literal _ => 1
  | charRange _ => 1
  | anyChar => 1
  | repeated inner .optional => 1 + inner.depth
  | repeated inner .zeroOrMore => 2 + inner.depth
  | repeated inner .oneOrMore => 2 + inner.depth
  | repeated _ (.unknown _) => 1
  | followedBy inner => 1 + inner.depth
  | notFollowedBy inner => 1 + inner.depth
  | sequence items => 1 + greatestDepth items
  | choice alternatives => 1 + greatestDepth alternatives
  | reference _ _ => 1
  | bound _ _ => 1

def greatestDepth : List Rule → Nat
  | [] => 0
  | r :: rest => max r.depth (greatestDepth rest)

end

/-- No rule of a list is deeper than the deepest one. -/
theorem depth_le_greatestDepth {r : Rule} {rs : List Rule} (mem : r ∈ rs) :
    r.depth ≤ greatestDepth rs := by
  induction mem with
  | head rest => exact Nat.le_max_left _ _
  | tail s _ ih => exact ih.trans (Nat.le_max_right _ _)

/-- The rule stands on its own: no part of it is a reference or a bound rule, and its quantifiers
all have a meaning. -/
structure ReferenceFree (r : Rule) : Prop where
  /-- No part is a reference. -/
  reference : ∀ name slot, ¬ PartOf (.reference name slot) r
  /-- No part is bound to a grammar. -/
  bound : ∀ g slot, ¬ PartOf (.bound g slot) r
  /-- Every quantifier is known. -/
  known : ∀ inner symbol, ¬ PartOf (.repeated inner (.unknown symbol)) r

/-- The parts of a rule that stands on its own do so too. -/
theorem ReferenceFree.of_part {part r : Rule} (h : r.ReferenceFree) (within : PartOf part r) :
    part.ReferenceFree where
  reference name slot inside := h.reference name slot (inside.trans within)
  bound g slot inside := h.bound g slot (inside.trans within)
  known inner symbol inside := h.known inner symbol (inside.trans within)

end Rule

/-! ## Runs that end with a number of frames -/

/-- From some number of frames on the runs all end with one and the same result, whatever the
grammar is. -/
def EndsFrom {α : Type} (depth : Nat) (run : Nat → Option Grammar → Except Halt α) : Prop :=
  ∃ a, ∀ frames ≥ depth, ∀ env, run frames env = .ok a

namespace EndsFrom

variable {α β : Type} {depth : Nat}

/-- What needs no frames ends. -/
theorem ok (depth : Nat) (a : α) : EndsFrom depth fun _ _ ↦ .ok a := ⟨a, fun _ _ _ ↦ rfl⟩

/-- More frames than enough are enough. -/
theorem mono {depth' : Nat} {run : Nat → Option Grammar → Except Halt α} (h : EndsFrom depth run)
    (le : depth ≤ depth') : EndsFrom depth' run := by
  obtain ⟨a, ends⟩ := h
  exact ⟨a, fun frames enough env ↦ ends frames (le.trans enough) env⟩

/-- What ends one frame deeper ends with one frame more. -/
theorem succ {run : Nat → Option Grammar → Except Halt α}
    (h : EndsFrom depth fun frames env ↦ run (frames + 1) env) : EndsFrom (1 + depth) run := by
  obtain ⟨a, ends⟩ := h
  refine ⟨a, fun frames enough env ↦ ?_⟩
  obtain ⟨below, rfl⟩ := Nat.exists_eq_add_of_le' (Nat.le_of_add_right_le enough)
  exact ends below (by omega) env

/-- What ends, followed by what ends after each of its results, ends. -/
theorem bind {run : Nat → Option Grammar → Except Halt α}
    {next : Nat → Option Grammar → α → Except Halt β} (h : EndsFrom depth run)
    (h' : ∀ a, EndsFrom depth fun frames env ↦ next frames env a) :
    EndsFrom depth fun frames env ↦ run frames env >>= next frames env := by
  obtain ⟨a, ends⟩ := h
  obtain ⟨b, ends'⟩ := h' a
  refine ⟨b, fun frames enough env ↦ ?_⟩
  calc run frames env >>= next frames env
    _ = next frames env a := by rw [ends frames enough env, Except.ok_bind]
    _ = .ok b := ends' frames enough env

section Loops

variable {run : Nat → Option Grammar → Rule → Matcher}

/-- Rules in sequence end if each of them does. -/
theorem inSequence {items : List Rule}
    (h : ∀ r ∈ items, ∀ pos, EndsFrom depth fun frames env ↦ run frames env r pos) (pos : Nat) :
    EndsFrom depth fun frames env ↦ inSequence (run frames env) items pos := by
  induction items generalizing pos with
  | nil => exact .ok depth _
  | cons r rest ih =>
      apply EndsFrom.bind (h r List.mem_cons_self pos)
      rintro (_ | t)
      · exact .ok depth _
      · refine EndsFrom.bind (ih (fun s mem ↦ h s (List.mem_cons_of_mem r mem)) t.stop) ?_
        rintro (_ | reached) <;> exact .ok depth _

/-- Alternatives end if each of them does. -/
theorem firstOf {alternatives : List Rule}
    (h : ∀ r ∈ alternatives, ∀ pos, EndsFrom depth fun frames env ↦ run frames env r pos)
    (pos : Nat) : EndsFrom depth fun frames env ↦ firstOf (run frames env) alternatives pos := by
  induction alternatives with
  | nil => exact .ok depth _
  | cons r rest ih =>
      apply EndsFrom.bind (h r List.mem_cons_self pos)
      rintro (_ | t)
      · exact ih fun s mem ↦ h s (List.mem_cons_of_mem r mem)
      · exact .ok depth _

/-- A loop ends if its matcher does, with the same frames however many rounds there are. -/
theorem chain {run : Nat → Option Grammar → Matcher}
    (h : ∀ pos, EndsFrom depth fun frames env ↦ run frames env pos) (rounds pos : Nat) :
    EndsFrom depth fun frames env ↦ chain (run frames env) rounds pos := by
  induction rounds generalizing pos with
  | zero => exact .ok depth _
  | succ rounds ih =>
      apply EndsFrom.bind (h pos)
      rintro (_ | t)
      · exact .ok depth _
      · by_cases still : t.stop = pos
        · simp only [if_pos still]
          exact .ok depth _
        · simp only [if_neg still]
          exact EndsFrom.bind (ih t.stop) fun _ ↦ .ok depth _

end Loops

end EndsFrom

/-! ## Rules that stand on their own -/

namespace Rule.ReferenceFree

variable {input : Array CodePoint} {r : Rule}

theorem endsFrom_evalChain {depth : Nat}
    (h : ∀ pos, EndsFrom depth fun frames env ↦ eval input frames env r pos) (pos : Nat) :
    EndsFrom (1 + depth) fun frames env ↦ evalChain input frames env r pos := by
  apply EndsFrom.succ
  simp only [evalChain_succ]
  exact EndsFrom.chain h _ pos

/-- A rule that stands on its own ends with as many frames as it is deep. -/
theorem endsFrom_eval (free : r.ReferenceFree) (pos : Nat) :
    EndsFrom r.depth fun frames env ↦ eval input frames env r pos := by
  induction r using Rule.induction generalizing pos with
  | literal t =>
      apply @EndsFrom.succ _ 0
      simp only [eval_literal]
      exact .ok 0 _
  | charRange ranges =>
      apply @EndsFrom.succ _ 0
      simp only [eval_charRange]
      exact .ok 0 _
  | anyChar =>
      apply @EndsFrom.succ _ 0
      simp only [eval_anyChar]
      exact .ok 0 _
  | followedBy inner ih =>
      apply EndsFrom.succ
      simp only [eval_followedBy]
      apply EndsFrom.bind (ih (free.of_part (.followedBy .refl)) pos)
      rintro (_ | t) <;> exact .ok _ _
  | notFollowedBy inner ih =>
      apply EndsFrom.succ
      simp only [eval_notFollowedBy]
      apply EndsFrom.bind (ih (free.of_part (.notFollowedBy .refl)) pos)
      rintro (_ | t) <;> exact .ok _ _
  | sequence items ih =>
      apply EndsFrom.succ
      simp only [eval_sequence]
      refine EndsFrom.bind (EndsFrom.inSequence (fun r mem pos ↦ ?_) pos) ?_
      · exact (ih r mem (free.of_part (.sequence mem .refl)) pos).mono (depth_le_greatestDepth mem)
      · rintro (_ | reached) <;> exact .ok _ _
  | choice alternatives ih =>
      apply EndsFrom.succ
      simp only [eval_choice]
      refine EndsFrom.firstOf (fun r mem pos ↦ ?_) pos
      exact (ih r mem (free.of_part (.choice mem .refl)) pos).mono (depth_le_greatestDepth mem)
  | repeated inner quantifier ih =>
      replace ih := fun pos ↦ ih (free.of_part (.repeated .refl _)) pos
      have loop := fun pos ↦ endsFrom_evalChain ih pos
      cases quantifier with
      | «optional» =>
          apply EndsFrom.succ
          simp only [eval_optional]
          apply EndsFrom.bind (ih pos)
          rintro (_ | t) <;> exact .ok _ _
      | zeroOrMore =>
          rw [depth, Nat.add_assoc 1 1]
          apply EndsFrom.succ
          simp only [eval_zeroOrMore]
          exact EndsFrom.bind (loop pos) fun _ ↦ .ok _ _
      | oneOrMore =>
          rw [depth, Nat.add_assoc 1 1]
          apply EndsFrom.succ
          simp only [eval_oneOrMore]
          apply EndsFrom.bind ((ih pos).mono (Nat.le_add_left _ 1))
          rintro (_ | first)
          · exact .ok _ _
          · exact EndsFrom.bind (loop first.stop) fun _ ↦ .ok _ _
      | unknown symbol => exact absurd .refl (free.known inner symbol)
  | reference name slot => exact absurd .refl (free.reference name slot)
  | bound g slot => exact absurd .refl (free.bound g slot)

/-- On every text and from every position in it a rule that stands on its own comes to an end, with
a tree or a failure, and no run of it ever nests deeper than the rule: any number of frames that is
not below its depth gives what it yields without a limit. -/
theorem ends_within_depth (free : r.ReferenceFree) (text : Text) {pos : Nat}
    (within : pos ≤ text.length) :
    ∃ found : Option Tree, (∀ env, Yields text env r pos (.ok found)) ∧
      ∀ frames ≥ r.depth, (∀ env, eval text.toArray frames env r pos = .ok found) ∧
        r.evaluate frames text pos = .ok found := by
  obtain ⟨found, ends⟩ : EndsFrom r.depth fun frames env ↦ eval text.toArray frames env r pos :=
    free.endsFrom_eval pos
  refine ⟨found, fun env ↦ ?_, fun frames enough ↦ ⟨ends frames enough, ?_⟩⟩
  · exact yields_of_eval (ends r.depth (Nat.le_refl _) env) (by simp)
  · rw [evaluate_natCast frames r within]
    exact congrArg (Except.mapError MatchError.halted) (ends frames enough none)

/-- Repetitions inside of one another: one whose rule may consume nothing, and one that is optional.
-/
theorem ends_within_depth_repeating : ∃ found : Option Tree, ∀ frames ≥ 6,
    Rule.evaluate frames (.choice [
      .sequence [.literal "b", .repeated (.repeated .anyChar .oneOrMore) .optional],
      .repeated (.repeated (.literal "a") .optional) .zeroOrMore]) "aab" 1 = .ok found := by
  have free : ReferenceFree (.choice [
      .sequence [.literal "b", .repeated (.repeated .anyChar .oneOrMore) .optional],
      .repeated (.repeated (.literal "a") .optional) .zeroOrMore]) := by
    constructor <;> simp
  have within : 1 ≤ ("aab" : Text).length := by decide
  obtain ⟨found, -, ends⟩ := free.ends_within_depth "aab" within
  exact ⟨found, fun frames enough ↦ (ends frames enough).2⟩

end Rule.ReferenceFree

end Peg
