import Peg.Match

/-!
# Moving the input

A rule never asks how far from the beginning of the input it is. Behind some other text it does what
it does without that text, with the same number of frames: every position of its tree is moved by
the length of what stands in front, and a failure or a halt stays the same. So the characters before
a position make no difference there.
-/

namespace Peg

/-! ## Moved trees -/

namespace Tree

mutual

/-- The tree with all its positions moved to the right. -/
def shift (d : Nat) : Tree → Tree
  | ⟨start, stop, children⟩ => ⟨d + start, d + stop, shiftAll d children⟩

def shiftAll (d : Nat) : List Tree → List Tree
  | [] => []
  | t :: ts => t.shift d :: shiftAll d ts

end

variable (d : Nat)

@[simp] theorem stop_shift (t : Tree) : (t.shift d).stop = d + t.stop := by
  cases t
  rfl

@[simp] theorem width_shift (t : Tree) : (t.shift d).width = t.width := by
  cases t
  exact Nat.add_sub_add_left d _ _

end Tree

/-! ## Single characters -/

section Characters

variable (before text : Text)

theorem getElem?_append_toArray (pos : Nat) :
    (before ++ text).toArray[before.length + pos]? = text.toArray[pos]? := by
  rw [List.getElem?_toArray, List.getElem?_toArray,
    List.getElem?_append_right (Nat.le_add_right _ _), Nat.add_sub_cancel_left]

theorem standsAt_append (t : Text) (pos : Nat) :
    standsAt (before ++ text).toArray t (before.length + pos) = standsAt text.toArray t pos := by
  induction t generalizing pos with
  | nil => simp [standsAt]
  | cons c rest ih => rw [standsAt, standsAt, getElem?_append_toArray, Nat.add_assoc, ih]

/-- Behind another text the same characters satisfy a condition. -/
theorem charAt_append (condition : CodePoint → Bool) (pos : Nat) :
    charAt (before ++ text).toArray condition (before.length + pos) =
      (charAt text.toArray condition pos).map (Tree.shift before.length) := by
  rw [charAt, charAt, getElem?_append_toArray]
  cases text.toArray[pos]? with
  | none => rfl
  | some c =>
      by_cases holds : condition c = true
      · simp only [if_pos holds]
        rfl
      · simp only [if_neg holds]
        rfl

theorem roundsFrom_append (pos : Nat) :
    roundsFrom (before ++ text).toArray (before.length + pos) = roundsFrom text.toArray pos := by
  simp only [roundsFrom, List.size_toArray, List.length_append, Nat.add_sub_add_left]

end Characters

/-! ## Loops -/

theorem bind_moved {α α' β β' : Type} {x : Except Halt α} {f : α → Except Halt β}
    {f' : α' → Except Halt β'} {move : α → α'} {move' : β → β'}
    (h : ∀ a, f' (move a) = move' <$> f a) : (move <$> x >>= f') = move' <$> (x >>= f) := by
  rw [bind_map_left, map_bind]
  exact congrArg (x >>= ·) (funext h)

section Loops

variable {d : Nat}

theorem inSequence_shift {run run' : Rule → Matcher}
    (h : ∀ r pos, run' r (d + pos) = Option.map (Tree.shift d) <$> run r pos) (items : List Rule)
    (pos : Nat) : inSequence run' items (d + pos) =
      Option.map (Prod.map (Tree.shiftAll d) (d + ·)) <$> inSequence run items pos := by
  induction items generalizing pos with
  | nil => rfl
  | cons r rest ih =>
      rw [inSequence, inSequence, h]
      refine bind_moved fun found ↦ ?_
      cases found with
      | none => rfl
      | some t =>
          simp only [Option.map_some, Tree.stop_shift, ih]
          refine bind_moved fun more ↦ ?_
          cases more with
          | none => rfl
          | some reached => rfl

theorem firstOf_shift {run run' : Rule → Matcher}
    (h : ∀ r pos, run' r (d + pos) = Option.map (Tree.shift d) <$> run r pos)
    (alternatives : List Rule) (pos : Nat) : firstOf run' alternatives (d + pos) =
      Option.map (Tree.shift d) <$> firstOf run alternatives pos := by
  induction alternatives with
  | nil => rfl
  | cons r rest ih =>
      rw [firstOf, firstOf, h]
      refine bind_moved fun found ↦ ?_
      cases found with
      | none => exact ih
      | some t => rfl

theorem chain_shift {run run' : Matcher}
    (h : ∀ pos, run' (d + pos) = Option.map (Tree.shift d) <$> run pos) (rounds pos : Nat) :
    chain run' rounds (d + pos) =
      Prod.map (Tree.shiftAll d) (d + ·) <$> chain run rounds pos := by
  induction rounds generalizing pos with
  | zero => rfl
  | succ rounds ih =>
      rw [chain, chain, h]
      refine bind_moved fun found ↦ ?_
      cases found with
      | none => rfl
      | some t =>
          simp only [Option.map_some, Tree.stop_shift, Nat.add_left_cancel_iff]
          by_cases still : t.stop = pos
          · simp only [if_pos still]
            rfl
          · simp only [if_neg still, ih]
            exact bind_moved fun reached ↦ rfl

end Loops

/-! ## Runs -/

section Runs

variable (before text : Text)

/-- A rule is moved by the text in front of the input, and so is a repetition. -/
theorem eval_and_evalChain_append (frames : Nat) :
    (∀ env r pos, eval (before ++ text).toArray frames env r (before.length + pos) =
      Option.map (Tree.shift before.length) <$> eval text.toArray frames env r pos) ∧
    ∀ env r pos, evalChain (before ++ text).toArray frames env r (before.length + pos) =
      Prod.map (Tree.shiftAll before.length) (before.length + ·) <$>
        evalChain text.toArray frames env r pos := by
  induction frames with
  | zero => exact ⟨fun _ _ _ ↦ rfl, fun _ _ _ ↦ rfl⟩
  | succ frames ih =>
      obtain ⟨rule, repetition⟩ := ih
      constructor
      · intro env r pos
        cases r with
        | literal t =>
            rw [eval_literal, eval_literal, standsAt_append, Nat.add_assoc]
            cases standsAt text.toArray t pos with
            | false => rfl
            | true => rfl
        | charRange ranges =>
            rw [eval_charRange, eval_charRange, charAt_append]
            rfl
        | anyChar =>
            rw [eval_anyChar, eval_anyChar, charAt_append]
            rfl
        | reference name slot =>
            simp only [eval_reference, rule, map_bind]
        | bound grammar slot =>
            simp only [eval_bound, rule, map_bind]
        | followedBy r =>
            rw [eval_followedBy, eval_followedBy, rule]
            refine bind_moved fun found ↦ ?_
            cases found with
            | none => rfl
            | some t => rfl
        | notFollowedBy r =>
            rw [eval_notFollowedBy, eval_notFollowedBy, rule]
            refine bind_moved fun found ↦ ?_
            cases found with
            | none => rfl
            | some t => rfl
        | sequence items =>
            rw [eval_sequence, eval_sequence, inSequence_shift (rule env)]
            refine bind_moved fun found ↦ ?_
            cases found with
            | none => rfl
            | some reached => rfl
        | choice alternatives =>
            rw [eval_choice, eval_choice, firstOf_shift (rule env)]
        | repeated r quantifier =>
            cases quantifier with
            | «optional» =>
                rw [eval_optional, eval_optional, rule]
                refine bind_moved fun found ↦ ?_
                cases found with
                | none => rfl
                | some t => rfl
            | zeroOrMore =>
                rw [eval_zeroOrMore, eval_zeroOrMore, repetition]
                exact bind_moved fun reached ↦ rfl
            | oneOrMore =>
                rw [eval_oneOrMore, eval_oneOrMore, rule]
                refine bind_moved fun found ↦ ?_
                cases found with
                | none => rfl
                | some first =>
                    simp only [Option.map_some, Tree.stop_shift, repetition]
                    exact bind_moved fun reached ↦ rfl
            | unknown symbol => rfl
      · intro env r pos
        rw [evalChain_succ, evalChain_succ, roundsFrom_append, chain_shift (rule env r)]

theorem eval_append (frames : Nat) (env : Option Grammar) (r : Rule) (pos : Nat) :
    eval (before ++ text).toArray frames env r (before.length + pos) =
      Option.map (Tree.shift before.length) <$> eval text.toArray frames env r pos :=
  (eval_and_evalChain_append before text frames).1 env r pos

end Runs

/-- A rule does not depend on what stands in front of the position where it runs. In any grammar and
with any number of frames, behind another text it gives the tree that it gives without that text,
moved by its length, or the same failure or halt. So at a position of a text it gives what it gives
at the beginning of the rest of the text: it succeeds at the position if it accepts the rest, and
consumes as much. -/
theorem Rule.evaluate_shift (frames : Nat) (r : Rule) :
    (∀ env (before text : Text) pos,
      eval (before ++ text).toArray frames env r (before.length + pos) =
        Option.map (Tree.shift before.length) <$> eval text.toArray frames env r pos) ∧
    ∀ (text : Text) (pos : Nat), pos ≤ text.length →
      r.evaluate frames text pos =
        Option.map (Tree.shift pos) <$> r.evaluate frames (text.drop pos) 0 ∧
      ((∃ t, r.evaluate frames text pos = .ok (some t)) ↔
        r.accepts frames (text.drop pos) = .ok true) ∧
      ∀ t, r.evaluate frames text pos = .ok (some t) →
        ∃ t', r.evaluate frames (text.drop pos) 0 = .ok (some t') ∧ t'.width = t.width := by
  refine ⟨fun env before text pos ↦ eval_append before text frames env r pos, ?_⟩
  intro text pos within
  have moved : r.evaluate frames text pos =
      Option.map (Tree.shift pos) <$> r.evaluate frames (text.drop pos) 0 := by
    have length : (text.take pos).length = pos := List.length_take_of_le within
    have behind := eval_append (text.take pos) (text.drop pos) frames none r 0
    rw [List.take_append_drop, length, Nat.add_zero] at behind
    rw [Rule.evaluate_natCast frames r within, behind,
      show (0 : Int) = ((0 : Nat) : Int) from rfl,
      Rule.evaluate_natCast frames r (Nat.zero_le _)]
    cases eval (text.drop pos).toArray frames none r 0 with
    | error halt => rfl
    | ok found => rfl
  rw [moved, Rule.accepts]
  refine ⟨rfl, ?_⟩
  cases r.evaluate frames (text.drop pos) 0 with
  | error e => exact ⟨⟨nofun, nofun⟩, nofun⟩
  | ok found =>
      cases found with
      | none => exact ⟨⟨nofun, nofun⟩, nofun⟩
      | some t =>
          refine ⟨⟨fun _ ↦ rfl, fun _ ↦ ⟨t.shift pos, rfl⟩⟩, ?_⟩
          rintro _ ⟨⟩
          exact ⟨t, rfl, (Tree.width_shift pos t).symm⟩

/-- A lookahead to the end of the text and a repetition, behind one more character. -/
theorem Rule.evaluate_shift_lookahead : ∃ (r : Rule) (t t' : Tree),
    r = .sequence [.followedBy (.literal "aab"), .repeated (.literal "a") .oneOrMore, .anyChar,
      .notFollowedBy .anyChar] ∧
    1 ≤ ("xaab" : Text).length ∧
    r.evaluate 9 "xaab" 1 = Option.map (Tree.shift 1) <$> r.evaluate 9 "aab" 0 ∧
    r.accepts 9 "aab" = .ok true ∧
    r.evaluate 9 "xaab" 1 = .ok (some t) ∧ t.stop = 4 ∧
    r.evaluate 9 "aab" 0 = .ok (some t') ∧ t'.width = t.width := by
  let r : Rule := .sequence [.followedBy (.literal "aab"), .repeated (.literal "a") .oneOrMore,
    .anyChar, .notFollowedBy .anyChar]
  have within : 1 ≤ ("xaab" : Text).length := by decide
  have ran : r.evaluate 9 "xaab" 1 = .ok (some ⟨1, 4, [⟨1, 1, [.leaf 1 4]⟩,
      ⟨1, 3, [.leaf 1 2, .leaf 2 3]⟩, .leaf 3 4, .leaf 4 4]⟩) := rfl
  obtain ⟨moved, accepted, width⟩ := (Rule.evaluate_shift 9 r).2 "xaab" 1 within
  obtain ⟨t', ran', same⟩ := width _ ran
  exact ⟨r, _, t', rfl, within, moved, accepted.mp ⟨_, ran⟩, ran, rfl, ran', same⟩

end Peg
