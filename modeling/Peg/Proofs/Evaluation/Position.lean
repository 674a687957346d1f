import Peg.Evaluate
import Peg.Proofs.Result

/-!
# Positions of a run

A rule that succeeds does not stop before the position it runs at, and not past the end of the
input. So a repetition advances at most once for each character that is left.
-/

namespace Peg

/-- Whatever the matcher consumes lies between the position it runs at and the end of an input of
the given size. Past the end it consumes nothing. -/
def StaysWithin (size : Nat) (run : Matcher) : Prop :=
  ∀ pos t, run pos = .ok (some t) → pos ≤ t.stop ∧ t.stop ≤ max pos size

variable {input : Array CodePoint}

/-! ## Single characters -/

/-- A text that stands somewhere ends within the input. -/
theorem le_size_of_standsAt {t : Text} {pos : Nat} (h : standsAt input t pos = true) :
    pos + t.length ≤ input.size := by
  induction t generalizing pos with
  | nil => simpa [standsAt] using h
  | cons c rest ih =>
      simp only [standsAt, Bool.and_eq_true] at h
      have := ih h.2
      simp only [List.length_cons]
      omega

/-- A character that is found is a leaf of width one within the input. -/
theorem charAt_eq_some_iff {condition : CodePoint → Bool} {pos : Nat} {t : Tree} :
    charAt input condition pos = some t ↔
      t = .leaf pos (pos + 1) ∧ ∃ c, input[pos]? = some c ∧ condition c = true := by
  unfold charAt
  constructor
  · intro h
    split at h
    next c here =>
      split at h
      next holds =>
        cases h
        exact ⟨rfl, c, here, holds⟩
      next => cases h
    next => cases h
  · rintro ⟨rfl, c, here, holds⟩
    simp [here, holds]

/-- A character that is found lies before the end of the input. -/
theorem lt_size_of_charAt {condition : CodePoint → Bool} {pos : Nat} {t : Tree}
    (h : charAt input condition pos = some t) : t.stop = pos + 1 ∧ pos < input.size := by
  obtain ⟨rfl, c, here, -⟩ := charAt_eq_some_iff.mp h
  obtain ⟨lt, -⟩ := Array.getElem?_eq_some_iff.mp here
  exact ⟨rfl, lt⟩

/-! ## Loops -/

theorem inSequence_stop_le {size : Nat} {run : Rule → Matcher}
    (h : ∀ r, StaysWithin size (run r)) {items : List Rule} {pos : Nat} {ts : List Tree}
    {stop : Nat} (ran : inSequence run items pos = .ok (some (ts, stop))) :
    pos ≤ stop ∧ stop ≤ max pos size := by
  induction items generalizing pos ts stop with
  | nil =>
      cases ran
      omega
  | cons r rest ih =>
      obtain ⟨found, first, ran⟩ := Except.bind_eq_ok_iff.mp ran
      cases found with
      | none => cases ran
      | some t =>
          obtain ⟨more, later, ran⟩ := Except.bind_eq_ok_iff.mp ran
          cases more with
          | none => cases ran
          | some reached =>
              cases ran
              have := h r pos t first
              have := ih later
              omega

/-- The first alternative that succeeds stops within the input. -/
theorem StaysWithin.firstOf {size : Nat} {run : Rule → Matcher}
    (h : ∀ r, StaysWithin size (run r)) (alternatives : List Rule) :
    StaysWithin size (firstOf run alternatives) := by
  intro pos t ran
  induction alternatives with
  | nil => cases ran
  | cons r rest ih =>
      obtain ⟨found, first, ran⟩ := Except.bind_eq_ok_iff.mp ran
      cases found with
      | none => exact ih ran
      | some _ =>
          cases ran
          exact h r pos t first

theorem chain_stop_le {size : Nat} {run : Matcher} (h : StaysWithin size run) {rounds pos : Nat}
    {ts : List Tree} {stop : Nat} (ran : chain run rounds pos = .ok (ts, stop)) :
    pos ≤ stop ∧ stop ≤ max pos size := by
  induction rounds generalizing pos ts stop with
  | zero =>
      cases ran
      omega
  | succ rounds ih =>
      obtain ⟨found, first, ran⟩ := Except.bind_eq_ok_iff.mp ran
      cases found with
      | none =>
          cases ran
          omega
      | some t =>
          simp only at ran
          split at ran
          · cases ran
            omega
          · obtain ⟨reached, later, ran⟩ := Except.bind_eq_ok_iff.mp ran
            cases ran
            have := h pos t first
            have := ih later
            omega

/-! ## Runs -/

/-- A rule stops within the input, and so does a repetition. -/
theorem staysWithin_eval_and_evalChain (input : Array CodePoint) (frames : Nat) :
    (∀ env r, StaysWithin input.size (eval input frames env r)) ∧
      ∀ env r pos ts stop, evalChain input frames env r pos = .ok (ts, stop) →
        pos ≤ stop ∧ stop ≤ max pos input.size := by
  induction frames with
  | zero =>
      exact ⟨fun _ _ _ _ ran ↦ by simp at ran, fun _ _ _ _ _ ran ↦ by simp at ran⟩
  | succ frames ih =>
      obtain ⟨rule, repetition⟩ := ih
      constructor
      · intro env r pos t ran
        have stays : pos ≤ pos ∧ pos ≤ max pos input.size := ⟨Nat.le_refl pos, Nat.le_max_left _ _⟩
        cases r with
        | literal text =>
            rw [eval_literal] at ran
            split at ran
            next stands =>
              cases ran
              have := le_size_of_standsAt stands
              simp only [Tree.stop_leaf]
              omega
            next => cases ran
        | charRange ranges =>
            rw [eval_charRange, Except.ok.injEq] at ran
            have := lt_size_of_charAt ran
            omega
        | anyChar =>
            rw [eval_anyChar, Except.ok.injEq] at ran
            have := lt_size_of_charAt ran
            omega
        | reference name slot =>
            rw [eval_reference] at ran
            obtain ⟨r, -, ran⟩ := Except.bind_eq_ok_iff.mp ran
            exact rule env r pos t ran
        | bound grammar slot =>
            rw [eval_bound] at ran
            obtain ⟨r, -, ran⟩ := Except.bind_eq_ok_iff.mp ran
            exact rule (some grammar) r pos t ran
        | followedBy r =>
            rw [eval_followedBy] at ran
            obtain ⟨found, -, ran⟩ := Except.bind_eq_ok_iff.mp ran
            cases found with
            | none => cases ran
            | some u =>
                cases ran
                exact stays
        | notFollowedBy r =>
            rw [eval_notFollowedBy] at ran
            obtain ⟨found, -, ran⟩ := Except.bind_eq_ok_iff.mp ran
            cases found with
            | none =>
                cases ran
                exact stays
            | some u => cases ran
        | sequence items =>
            rw [eval_sequence] at ran
            obtain ⟨found, passed, ran⟩ := Except.bind_eq_ok_iff.mp ran
            cases found with
            | none => cases ran
            | some reached =>
                cases ran
                exact inSequence_stop_le (rule env) passed
        | choice alternatives =>
            rw [eval_choice] at ran
            exact StaysWithin.firstOf (rule env) alternatives pos t ran
        | repeated r quantifier =>
            cases quantifier with
            | «optional» =>
                rw [eval_optional] at ran
                obtain ⟨found, first, ran⟩ := Except.bind_eq_ok_iff.mp ran
                cases found with
                | none =>
                    cases ran
                    exact stays
                | some u =>
                    cases ran
                    exact rule env r pos t first
            | zeroOrMore =>
                rw [eval_zeroOrMore] at ran
                obtain ⟨reached, chained, ran⟩ := Except.bind_eq_ok_iff.mp ran
                cases ran
                exact repetition env r pos _ _ chained
            | oneOrMore =>
                rw [eval_oneOrMore] at ran
                obtain ⟨found, first, ran⟩ := Except.bind_eq_ok_iff.mp ran
                cases found with
                | none => cases ran
                | some u =>
                    obtain ⟨reached, chained, ran⟩ := Except.bind_eq_ok_iff.mp ran
                    cases ran
                    have := rule env r pos u first
                    have := repetition env r u.stop _ _ chained
                    simp only
                    omega
            | unknown symbol =>
                rw [eval_unknown] at ran
                cases ran
      · intro env r pos ts stop ran
        rw [evalChain_succ] at ran
        exact chain_stop_le (rule env r) ran

/-- A rule stops within the input. -/
theorem staysWithin_eval (input : Array CodePoint) (frames : Nat) (env : Option Grammar)
    (r : Rule) : StaysWithin input.size (eval input frames env r) :=
  (staysWithin_eval_and_evalChain input frames).1 env r

end Peg
