import Peg.Proofs.Algebra.Repetitions
import Peg.Proofs.Rule.Sameness

/-!
# The algebra of predicates, sequences and choices

A choice commits to its first alternative that succeeds, and so it is neither commutative nor does a
sequence distribute over it from the right. What holds are the laws that keep the order in which
rules are run: a choice in a choice and a sequence in a sequence can be spliced, a common beginning
can be taken out of alternatives, and an alternative that never gets its turn can be dropped.
Predicates consume nothing, so that only whether their rule succeeds matters, and with negation they
turn choices into sequences.
-/

namespace Peg

variable (text : Text) (env : Option Grammar) (pos : Nat)

/-! ## Predicates -/

/-- At a position of a text a rule succeeds, given frames enough. -/
def Succeeds (text : Text) (env : Option Grammar) (pos : Nat) (r : Rule) : Prop :=
  ∃ frames t, eval text.toArray frames env r pos = .ok (some t)

/-- A rule succeeds where its answer stops. -/
theorem succeeds_iff (r : Rule) :
    Succeeds text env pos r ↔ ∃ stop, answerStop text env r pos = .ok (some stop) := by
  constructor
  · rintro ⟨frames, t, ran⟩
    exact ⟨t.stop, by rw [answerStop, answer_eq_of_eval ran (by simp)]; rfl⟩
  · rintro ⟨stop, stopped⟩
    obtain ⟨frames, ran⟩ := (exists_map_eval_iff rfl (by simp)).mpr stopped
    rcases found : eval text.toArray frames env r pos with halt | _ | t
    · rw [found] at ran
      cases ran
    · rw [found] at ran
      cases ran
    · exact ⟨frames, t, found⟩

/-- A predicate consumes nothing. -/
theorem stop_of_predicate {p r : Rule} (predicate : p = .followedBy r ∨ p = .notFollowedBy r)
    {frames : Nat} {t : Tree} (ran : eval text.toArray frames env p pos = .ok (some t)) :
    t.start = pos ∧ t.stop = pos := by
  have answered := answer_eq_of_eval ran (by simp)
  rcases predicate with rfl | rfl
  · rw [answer_followedBy] at answered
    rcases first : answer text env r pos with halt | _ | u
    · rw [first] at answered
      cases answered
    · rw [first] at answered
      cases answered
    · rw [first] at answered
      cases answered
      exact ⟨rfl, rfl⟩
  · rw [answer_notFollowedBy] at answered
    rcases first : answer text env r pos with halt | _ | u
    · rw [first] at answered
      cases answered
    · rw [first] at answered
      cases answered
      exact ⟨rfl, rfl⟩
    · rw [first] at answered
      cases answered

theorem xor_succeeds {r : Rule} {frames : Nat} {found : Option Tree}
    (ran : eval text.toArray frames env r pos = .ok found) :
    Xor (Succeeds text env pos (.followedBy r)) (Succeeds text env pos (.notFollowedBy r)) := by
  have answered := answer_eq_of_eval ran (by simp)
  rw [succeeds_iff, succeeds_iff, answerStop_followedBy, answerStop_notFollowedBy, answerStop,
    answered]
  cases found with
  | none => exact .inr ⟨⟨pos, rfl⟩, by rintro ⟨stop, stopped⟩; cases stopped⟩
  | some t => exact .inl ⟨⟨pos, rfl⟩, by rintro ⟨stop, stopped⟩; cases stopped⟩

theorem answerStop_not_not (r : Rule) :
    answerStop text env (.notFollowedBy (.notFollowedBy r)) pos =
      answerStop text env (.followedBy r) pos := by
  rw [answerStop_notFollowedBy, answerStop_notFollowedBy, answerStop_followedBy]
  rcases answerStop text env r pos with halt | _ | stop <;> rfl

theorem answerStop_and_and (r : Rule) :
    answerStop text env (.followedBy (.followedBy r)) pos =
      answerStop text env (.followedBy r) pos := by
  rw [answerStop_followedBy, answerStop_followedBy]
  rcases answerStop text env r pos with halt | _ | stop <;> rfl

theorem answerStop_not_and (r : Rule) :
    answerStop text env (.notFollowedBy (.followedBy r)) pos =
      answerStop text env (.notFollowedBy r) pos := by
  rw [answerStop_notFollowedBy, answerStop_followedBy, answerStop_notFollowedBy]
  rcases answerStop text env r pos with halt | _ | stop <;> rfl

/-- None of the alternatives is ahead if each of them is absent. -/
theorem answerStop_not_choice (rs : List Rule) :
    answerStop text env (.notFollowedBy (.choice rs)) pos =
      answerStop text env (.sequence (rs.map .notFollowedBy)) pos := by
  induction rs with
  | nil =>
      rw [answerStop_notFollowedBy, answerStop_choice_nil, List.map_nil, answerStop_sequence_nil]
      rfl
  | cons r rs ih =>
      rw [List.map_cons, answerStop_sequence_cons, answerStop_notFollowedBy, answerStop_choice_cons,
        answerStop_notFollowedBy text env pos r]
      rcases answerStop text env r pos with halt | _ | stop
      · rfl
      · simp only [Except.ok_bind, ← ih, answerStop_notFollowedBy]
      · rfl

/-! ## Splicing -/

/-- A choice goes on with more alternatives if those before them fail. -/
theorem answer_choice_append (rs more : List Rule) :
    answer text env (.choice (rs ++ more)) pos =
      answer text env (.choice rs) pos >>= fun
        | some t => .ok (some t)
        | none => answer text env (.choice more) pos := by
  induction rs with
  | nil =>
      rw [List.nil_append, answer_choice_nil]
      rfl
  | cons r rs ih =>
      rw [List.cons_append, answer_choice_cons, ih, answer_choice_cons]
      rcases answer text env r pos with halt | _ | t <;> rfl

theorem answer_choice_splice (before inner after : List Rule) :
    answer text env (.choice (before ++ .choice inner :: after)) pos =
      answer text env (.choice (before ++ inner ++ after)) pos := by
  rw [List.append_assoc, answer_choice_append, answer_choice_append]
  rcases answer text env (.choice before) pos with halt | _ | t
  · rfl
  · exact (answer_choice_cons text env pos (.choice inner) after).trans
      (answer_choice_append text env pos inner after).symm
  · rfl

/-- A sequence goes on with more rules where those before them stop. -/
theorem answerStop_sequence_append (rs more : List Rule) :
    answerStop text env (.sequence (rs ++ more)) pos =
      answerStop text env (.sequence rs) pos >>= fun
        | none => .ok none
        | some stop => answerStop text env (.sequence more) stop := by
  induction rs generalizing pos with
  | nil =>
      rw [List.nil_append, answerStop_sequence_nil]
      rfl
  | cons r rs ih =>
      rw [List.cons_append, answerStop_sequence_cons, answerStop_sequence_cons]
      rcases answerStop text env r pos with halt | _ | stop
      · rfl
      · rfl
      · exact ih stop

theorem answerStop_sequence_splice (before inner after : List Rule) :
    answerStop text env (.sequence (before ++ .sequence inner :: after)) pos =
      answerStop text env (.sequence (before ++ inner ++ after)) pos := by
  rw [List.append_assoc, answerStop_sequence_append, answerStop_sequence_append]
  rcases answerStop text env (.sequence before) pos with halt | _ | stop
  · rfl
  · rfl
  · exact (answerStop_sequence_cons text env stop (.sequence inner) after).trans
      (answerStop_sequence_append text env stop inner after).symm

/-- A common beginning can be taken out of two alternatives. -/
theorem answerStop_sequence_choice (a b c : Rule) :
    answerStop text env (.sequence [a, .choice [b, c]]) pos =
      answerStop text env (.choice [.sequence [a, b], .sequence [a, c]]) pos := by
  simp only [answerStop_choice_cons, answerStop_choice_nil, answerStop_sequence_cons,
    answerStop_sequence_nil]
  rcases answerStop text env a pos with halt | _ | stop
  · rfl
  · rfl
  · -- The second alternative begins with the same run of the common rule.
    simp only [Except.ok_bind]
    rcases answerStop text env b stop with halt | _ | stop'
    · rfl
    · simp only [Except.ok_bind]
      rcases answerStop text env c stop with halt | _ | stop' <;> rfl
    · rfl

/-! ## Alternatives without a turn -/

/-- The rules that cannot fail by their form: an optional rule, a repetition and the empty
literal. -/
inductive CannotFail : Rule → Prop where
  | optional (r : Rule) : CannotFail (.repeated r .optional)
  | zeroOrMore (r : Rule) : CannotFail (.repeated r .zeroOrMore)
  | empty : CannotFail (.literal [])

/-- Within a text such a rule does not fail. -/
theorem CannotFail.answer_ne_none {r : Rule} (h : CannotFail r) (within : pos ≤ text.length) :
    answer text env r pos ≠ .ok none := by
  intro fails
  have stops : answerStop text env r pos = .ok none := by
    rw [answerStop, fails]
    rfl
  cases h with
  | optional r => exact answerStop_optional_ne_none text env pos r stops
  | zeroOrMore r => exact answerStop_zeroOrMore_ne_none text env pos r stops
  | empty =>
      rw [answer_literal_nil text env pos within] at fails
      cases fails

/-- All alternatives of a choice that fails do. -/
theorem answer_of_choice {rs : List Rule} (fails : answer text env (.choice rs) pos = .ok none) :
    ∀ r ∈ rs, answer text env r pos = .ok none := by
  induction rs with
  | nil => exact nofun
  | cons r rs ih =>
      rw [answer_choice_cons] at fails
      rcases first : answer text env r pos with halt | _ | t
      · rw [first] at fails
        cases fails
      · rw [first] at fails
        exact List.forall_mem_cons.mpr ⟨first, ih fails⟩
      · rw [first] at fails
        cases fails

theorem answer_choice_drop {before : List Rule} {s : Rule} (after : List Rule)
    (fails : answer text env (.choice before) pos = .ok none → answer text env s pos = .ok none) :
    answer text env (.choice (before ++ s :: after)) pos =
      answer text env (.choice (before ++ after)) pos := by
  rw [answer_choice_append, answer_choice_append]
  rcases ran : answer text env (.choice before) pos with halt | _ | t
  · rfl
  · simp only [Except.ok_bind]
    rw [answer_choice_cons, fails ran]
    rfl
  · rfl

/-! ## Laws -/

/-- The laws of predicates, sequences and choices at a position of a text. -/
structure OrderedAlgebra (text : Text) (env : Option Grammar) (pos : Nat) : Prop where
  /-- Where a rule comes to an end exactly one of its predicates succeeds. -/
  excludedMiddle : ∀ r, (∃ frames found, eval text.toArray frames env r pos = .ok found) →
    Xor (Succeeds text env pos (.followedBy r)) (Succeeds text env pos (.notFollowedBy r))
  /-- Predicates consume nothing. -/
  consumesNothing : ∀ r, ∀ p ∈ [.followedBy r, .notFollowedBy r], ∀ frames t,
    eval text.toArray frames env p pos = .ok (some t) → t.start = pos ∧ t.stop = pos
  /-- An even number of negations, or looking ahead twice, is looking ahead. -/
  lookahead : ∀ r, ∀ p ∈ [.notFollowedBy (.notFollowedBy r), .followedBy (.followedBy r),
      .notFollowedBy (.notFollowedBy (.notFollowedBy (.notFollowedBy r)))],
    SameStops text env pos p (.followedBy r)
  /-- What is not ahead is absent. -/
  negated : ∀ r,
    SameStops text env pos (.notFollowedBy (.followedBy r)) (.notFollowedBy r)
  /-- None of the alternatives is ahead if each of them is absent. -/
  deMorgan : ∀ rs, SameStops text env pos (.notFollowedBy (.choice rs))
    (.sequence (rs.map .notFollowedBy))
  /-- A choice in a choice can be spliced. -/
  spliceChoice : ∀ before inner after,
    SameTrees text env pos (.choice (before ++ .choice inner :: after))
      (.choice (before ++ inner ++ after))
  /-- A sequence in a sequence can be spliced. -/
  spliceSequence : ∀ before inner after,
    SameStops text env pos (.sequence (before ++ .sequence inner :: after))
      (.sequence (before ++ inner ++ after))
  /-- A sequence distributes over a choice from the left. -/
  distributes : ∀ a b c, SameStops text env pos (.sequence [a, .choice [b, c]])
    (.choice [.sequence [a, b], .sequence [a, c]])
  /-- An alternative can be dropped that has come before, or that compares equal to one before
  it. -/
  dropEqual : ∀ before r s after, r ∈ before → r = s ∨ r.same s ∧ r.StampsTell s →
    SameTrees text env pos (.choice (before ++ s :: after)) (.choice (before ++ after))
  /-- An alternative can be dropped that comes after one that cannot fail. -/
  dropUnreachable : ∀ before r s after, r ∈ before → CannotFail r → pos ≤ text.length →
    SameTrees text env pos (.choice (before ++ s :: after)) (.choice (before ++ after))

/-- Predicates, sequences and choices obey their laws in all texts at all positions, whatever the
rules are that they are made of. -/
theorem orderedAlgebra : OrderedAlgebra text env pos where
  excludedMiddle r := by
    rintro ⟨frames, found, ran⟩
    exact xor_succeeds text env pos ran
  consumesNothing r p mem frames t ran := by
    apply stop_of_predicate (r := r) text env pos (by simpa using mem) ran
  lookahead r := by
    simp only [List.forall_mem_cons]
    refine ⟨?_, ?_, ?_, by simp⟩ <;> apply sameStops_of_answerStop_eq
    · rw [answerStop_not_not]
    · rw [answerStop_and_and]
    · rw [answerStop_not_not, answerStop_followedBy, answerStop_not_not, ← answerStop_followedBy,
        answerStop_and_and]
  negated r := sameStops_of_answerStop_eq (answerStop_not_and text env pos r)
  deMorgan rs := sameStops_of_answerStop_eq (answerStop_not_choice text env pos rs)
  spliceChoice before inner after :=
    sameTrees_of_answer_eq (answer_choice_splice text env pos before inner after)
  spliceSequence before inner after :=
    sameStops_of_answerStop_eq (answerStop_sequence_splice text env pos before inner after)
  distributes a b c := sameStops_of_answerStop_eq (answerStop_sequence_choice text env pos a b c)
  dropEqual before r s after mem equal := by
    obtain rfl : r = s := equal.elim id fun ⟨same, stamps⟩ ↦ Rule.eq_of_same same stamps
    exact sameTrees_of_answer_eq (answer_choice_drop text env pos after fun fails ↦
      answer_of_choice text env pos fails r mem)
  dropUnreachable before r s after mem cannot within :=
    sameTrees_of_answer_eq (answer_choice_drop text env pos after fun fails ↦
      absurd (answer_of_choice text env pos fails r mem)
        (cannot.answer_ne_none text env pos within))

end Peg
