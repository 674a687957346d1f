import Peg.Proofs.Evaluation.Repetition

/-!
# The algebra of repetitions

A repetition of a repetition is a repetition. What makes this so, with a rule that can consume
nothing as with any other, is that a repetition *rests* where it stops: it does not advance from
there any more. To repeat a rule that rests is to run it at most once, so that the outer one of two
repetitions adds nothing but whether the rule can be missing.

The trees differ in general, since each repetition adds a level. A repetition of a rule that can be
missing adds none: it drops the round in which the rule is missing.
-/

namespace Peg

variable (text : Text) (env : Option Grammar) (pos : Nat) (r : Rule)

/-! ## Rules that cannot fail -/

/-- A repetition does not fail. -/
theorem answerStop_zeroOrMore_ne_none :
    answerStop text env (.repeated r .zeroOrMore) pos ≠ .ok none := by
  intro fails
  obtain ⟨visited, result, rounds, few⟩ := exists_rounds text env r pos
  rw [answerStop, rounds.answer_eq few] at fails
  rcases result with halt | ⟨ts, stop⟩
  · cases fails
  · cases fails

/-- An optional rule does not fail. -/
theorem answerStop_optional_ne_none :
    answerStop text env (.repeated r .optional) pos ≠ .ok none := by
  intro fails
  rw [answerStop_optional] at fails
  rcases ran : answerStop text env r pos with halt | _ | stop
  · rw [ran] at fails
    cases fails
  · rw [ran] at fails
    cases fails
  · rw [ran] at fails
    cases fails

/-! ## Rules that rest -/

/-- A repetition goes on where its rule stops, also if this does not advance. -/
theorem answerStop_zeroOrMore_eq_bind :
    answerStop text env (.repeated r .zeroOrMore) pos =
      answerStop text env r pos >>= fun
        | none => .ok (some pos)
        | some stop => answerStop text env (.repeated r .zeroOrMore) stop := by
  have unrolled := answerStop_zeroOrMore text env pos r
  rcases ran : answerStop text env r pos with halt | _ | stop
  · rw [unrolled, ran]
    rfl
  · rw [unrolled, ran]
    rfl
  · by_cases still : stop = pos
    · rw [still]
      rfl
    · rw [unrolled, ran]
      exact if_neg still

/-- Where a repetition stops its rule fails or does not advance. -/
theorem answerStop_of_zeroOrMore {r pos} {stop : Nat}
    (h : answerStop text env (.repeated r .zeroOrMore) pos = .ok (some stop)) :
    answerStop text env r stop = .ok none ∨ answerStop text env r stop = .ok (some stop) := by
  obtain ⟨visited, result, rounds, few⟩ := exists_rounds text env r pos
  rw [answerStop, rounds.answer_eq few] at h
  rcases result with halt | ⟨ts, stop'⟩
  · cases h
  · cases h
    rcases (repeats_answer rounds few).collected.ends with fails | ⟨t, again, -, still⟩
    · exact .inl (by rw [answerStop, fails]; rfl)
    · refine .inr ?_
      rw [answerStop, again, ← still]
      rfl

/-- A rule rests if it does not advance from where it stops. -/
def Rests (text : Text) (env : Option Grammar) (r : Rule) : Prop :=
  ∀ pos stop, answerStop text env r pos = .ok (some stop) →
    answerStop text env r stop = .ok none ∨ answerStop text env r stop = .ok (some stop)

theorem answerStop_zeroOrMore_of_rests {r pos}
    (h : answerStop text env r pos = .ok none ∨ answerStop text env r pos = .ok (some pos)) :
    answerStop text env (.repeated r .zeroOrMore) pos = .ok (some pos) := by
  rw [answerStop_zeroOrMore]
  rcases h with fails | still
  · rw [fails]
    rfl
  · rw [still]
    exact if_pos rfl

theorem rests_zeroOrMore : Rests text env (.repeated r .zeroOrMore) := fun _ _ stopped ↦
  .inr (answerStop_zeroOrMore_of_rests text env (answerStop_of_zeroOrMore text env stopped))

theorem rests_oneOrMore : Rests text env (.repeated r .oneOrMore) := by
  intro pos stop stopped
  rw [answerStop_oneOrMore] at stopped ⊢
  rcases first : answerStop text env r pos with halt | _ | next
  · rw [first] at stopped
    cases stopped
  · rw [first] at stopped
    cases stopped
  · rw [first] at stopped
    have ends := answerStop_of_zeroOrMore text env stopped
    rcases ends with fails | still
    · exact .inl (by rw [fails]; rfl)
    · refine .inr ?_
      rw [still]
      exact answerStop_zeroOrMore_of_rests text env (.inr still)

section Rests

variable {text env r}

/-- To repeat a rule that rests is to run it once if it does not fail. -/
theorem Rests.answerStop_zeroOrMore (h : Rests text env r) :
    answerStop text env (.repeated r .zeroOrMore) pos =
      answerStop text env (.repeated r .optional) pos := by
  rw [answerStop_zeroOrMore_eq_bind, answerStop_optional]
  rcases ran : answerStop text env r pos with halt | _ | stop
  · rfl
  · rfl
  · exact answerStop_zeroOrMore_of_rests text env (h pos stop ran)

/-- To repeat a rule that rests at least once is to run it. -/
theorem Rests.answerStop_oneOrMore (h : Rests text env r) :
    answerStop text env (.repeated r .oneOrMore) pos = answerStop text env r pos := by
  rw [Peg.answerStop_oneOrMore]
  rcases ran : answerStop text env r pos with halt | _ | stop
  · rfl
  · rfl
  · exact answerStop_zeroOrMore_of_rests text env (h pos stop ran)

end Rests

/-! ## Laws -/

/-- To repeat what can be missing is to repeat it. -/
theorem answer_zeroOrMore_optional :
    answer text env (.repeated (.repeated r .optional) .zeroOrMore) pos =
      answer text env (.repeated r .zeroOrMore) pos := by
  -- Both loops go on at the same position, where less of the text is left.
  induction left : text.length - pos using Nat.strong_induction_on generalizing pos with
  | _ n ih =>
      subst left
      rw [answer_zeroOrMore, answer_optional, answer_zeroOrMore text env pos r]
      rcases ran : answer text env r pos with halt | _ | t
      · rfl
      · exact if_pos rfl
      · simp only [Except.ok_bind]
        split
        · rfl
        · next moves =>
            have bounds := answer_bounds ran
            rw [ih (text.length - t.stop) (by omega) t.stop rfl]

theorem answerStop_optional_zeroOrMore :
    answerStop text env (.repeated (.repeated r .zeroOrMore) .optional) pos =
      answerStop text env (.repeated r .zeroOrMore) pos := by
  rw [answerStop_optional]
  rcases ran : answerStop text env (.repeated r .zeroOrMore) pos with halt | _ | stop
  · rfl
  · exact absurd ran (answerStop_zeroOrMore_ne_none text env pos r)
  · rfl

/-- A repetition at least once that can be missing is a repetition. -/
theorem answerStop_optional_oneOrMore :
    answerStop text env (.repeated (.repeated r .oneOrMore) .optional) pos =
      answerStop text env (.repeated r .zeroOrMore) pos := by
  rw [answerStop_optional, answerStop_oneOrMore, answerStop_zeroOrMore_eq_bind]
  rcases answerStop text env r pos with halt | _ | stop
  · rfl
  · rfl
  · simp only [Except.ok_bind]
    rcases ran : answerStop text env (.repeated r .zeroOrMore) stop with halt | _ | stop'
    · rfl
    · exact absurd ran (answerStop_zeroOrMore_ne_none text env stop r)
    · rfl

theorem answerStop_sequence_zeroOrMore :
    answerStop text env (.sequence [r, .repeated r .zeroOrMore]) pos =
      answerStop text env (.repeated r .oneOrMore) pos := by
  rw [answerStop_sequence_cons, answerStop_oneOrMore]
  rcases answerStop text env r pos with halt | _ | stop
  · rfl
  · rfl
  · simp only [Except.ok_bind, answerStop_sequence_cons, answerStop_sequence_nil]
    rcases answerStop text env (.repeated r .zeroOrMore) stop with halt | _ | stop' <;> rfl

theorem answer_choice_literal_nil (within : pos ≤ text.length) :
    answer text env (.choice [r, .literal []]) pos =
      answer text env (.repeated r .optional) pos := by
  rw [answer_choice_cons, answer_choice_cons, answer_literal_nil text env pos within,
    answer_optional]
  rfl

/-- The algebra of repetitions. A repetition of an optional rule gives the same tree as a repetition
of the rule, which never fails; the repetitions of repetitions, and a repetition at least once that
can be missing, stop where it does; a repetition at least once of such a repetition, and the rule
with a repetition behind it, stop where a repetition at least once does, or fail with it; and an
optional rule is a choice between the rule and nothing. -/
theorem repetition_algebra :
    SameTrees text env pos (.repeated (.repeated r .optional) .zeroOrMore)
        (.repeated r .zeroOrMore) ∧
      (∀ frames, eval text.toArray frames env (.repeated r .zeroOrMore) pos ≠ .ok none) ∧
      (∀ q ∈ [.repeated (.repeated r .zeroOrMore) .zeroOrMore,
          .repeated (.repeated r .oneOrMore) .zeroOrMore,
          .repeated (.repeated r .zeroOrMore) .oneOrMore,
          .repeated (.repeated r .zeroOrMore) .optional,
          .repeated (.repeated r .oneOrMore) .optional],
        SameStops text env pos q (.repeated r .zeroOrMore)) ∧
      (∀ q ∈ [.repeated (.repeated r .oneOrMore) .oneOrMore,
          .sequence [r, .repeated r .zeroOrMore]],
        SameStops text env pos q (.repeated r .oneOrMore)) ∧
      (pos ≤ text.length →
        SameStops text env pos (.choice [.repeated r .oneOrMore, .literal []])
            (.repeated r .zeroOrMore) ∧
          SameTrees text env pos (.repeated r .optional) (.choice [r, .literal []])) := by
  have star := rests_zeroOrMore text env r
  have plus := rests_oneOrMore text env r
  refine ⟨sameTrees_of_answer_eq (answer_zeroOrMore_optional text env pos r), ?_, ?_, ?_, ?_⟩
  · intro frames fails
    refine answerStop_zeroOrMore_ne_none text env pos r ?_
    rw [answerStop, answer_eq_of_eval fails (by simp)]
    rfl
  · simp only [List.forall_mem_cons]
    refine ⟨?_, ?_, ?_, ?_, ?_, by simp⟩ <;> apply sameStops_of_answerStop_eq
    · rw [star.answerStop_zeroOrMore, answerStop_optional_zeroOrMore]
    · rw [plus.answerStop_zeroOrMore, answerStop_optional_oneOrMore]
    · rw [star.answerStop_oneOrMore]
    · rw [answerStop_optional_zeroOrMore]
    · rw [answerStop_optional_oneOrMore]
  · simp only [List.forall_mem_cons]
    refine ⟨?_, ?_, by simp⟩ <;> apply sameStops_of_answerStop_eq
    · rw [plus.answerStop_oneOrMore]
    · rw [answerStop_sequence_zeroOrMore]
  · intro within
    constructor
    · apply sameStops_of_answerStop_eq
      rw [answerStop, answer_choice_literal_nil _ _ _ _ within]
      exact answerStop_optional_oneOrMore text env pos r
    · exact sameTrees_of_answer_eq (answer_choice_literal_nil text env pos r within).symm

end Peg
