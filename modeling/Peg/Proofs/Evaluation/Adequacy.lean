import Mathlib.Data.Finset.Range
import Mathlib.Order.Filter.AtTopBot.Basic
import Mathlib.Order.Filter.Finite
import Peg.Proofs.Evaluation.Frames
import Peg.Proofs.Evaluation.Position
import Peg.Proofs.Evaluation.Semantics

/-!
# Runs and meaning

A run that does not use up its frames gives the outcome that the rule yields, and what a rule yields
is what it gives with any number of frames from some limit on. So an outcome never depends on the
number of frames, a rule has at most one at each position, and running out of frames is never taken
for a failure.
-/

namespace Peg

open Filter

/-! ## Rows of trees -/

/-- The positions of a row with one more position in front. -/
def precede (pos : Nat) (p : Nat → Nat) : Nat → Nat
  | 0 => pos
  | k + 1 => p k

/-- There is a row without trees. -/
theorem Consecutive.nil (p : Nat → Nat) : Consecutive p [] := fun _ _ found ↦ by cases found

/-- A tree in front of a row that begins where the tree stops makes a row. -/
theorem Consecutive.cons {pos : Nat} {p : Nat → Nat} {t : Tree} {ts : List Tree}
    (stop : t.stop = p 0) (h : Consecutive p ts) : Consecutive (precede pos p) (t :: ts) := by
  intro k u found
  cases k with
  | zero =>
      cases found
      exact stop
  | succ k => exact h k u found

/-- The trees of a row but the first make a row. -/
theorem Consecutive.tail {p : Nat → Nat} {t : Tree} {ts : List Tree}
    (h : Consecutive p (t :: ts)) : Consecutive (fun k ↦ p (k + 1)) ts :=
  fun k u found ↦ h (k + 1) u found

theorem Consecutive.stop_head {p : Nat → Nat} {t : Tree} {ts : List Tree}
    (h : Consecutive p (t :: ts)) : t.stop = p 1 := h 0 t rfl

/-- The positions of a row do not decrease and stay within an input of some size if its trees do not
stop before they begin or past the end. -/
theorem Consecutive.stays {size : Nat} {p : Nat → Nat} {ts : List Tree} (next : Consecutive p ts)
    (each : ∀ k t, ts[k]? = some t → p k ≤ t.stop ∧ t.stop ≤ max (p k) size) {j k : Nat}
    (le : j ≤ k) (within : k ≤ ts.length) : p j ≤ p k ∧ p k ≤ max (p j) size := by
  induction k, le using Nat.le_induction with
  | base => exact ⟨Nat.le_refl _, Nat.le_max_left _ _⟩
  | succ k _ ih =>
      have found := List.getElem?_eq_getElem within
      have before := ih (Nat.le_of_succ_le within)
      have once := each k _ found
      rw [next k _ found] at once
      omega

/-! ## What loops give -/

section Loops

variable {run : Rule → Matcher}

/-- Rules that succeed in a row succeed in sequence. -/
theorem inSequence_of_row {items : List Rule} {ts : List Tree} {p : Nat → Nat}
    (all : ts.length = items.length) (next : Consecutive p ts)
    (each : ∀ k r t, items[k]? = some r → ts[k]? = some t → run r (p k) = .ok (some t)) :
    inSequence run items (p 0) = .ok (some (ts, p items.length)) := by
  induction items generalizing ts p with
  | nil =>
      obtain rfl := List.length_eq_zero_iff.mp all
      rfl
  | cons r rest ih =>
      cases ts with
      | nil => cases all
      | cons t ts =>
          have first : run r (p 0) = .ok (some t) := each 0 r t rfl rfl
          have later := ih (p := fun k ↦ p (k + 1)) (Nat.succ.inj all) next.tail
            fun k s u found yielded ↦ each (k + 1) s u found yielded
          rw [inSequence, first, Except.ok_bind]
          simp only [next.stop_head, later, Except.ok_bind, List.length_cons]

/-- Rules of which one has no tree stop in sequence at that one. -/
theorem inSequence_of_stop {items : List Rule} {ts : List Tree} {p : Nat → Nat} {r : Rule}
    {o : Except Halt (Option Tree)} (item : items[ts.length]? = some r) (next : Consecutive p ts)
    (each : ∀ k r t, items[k]? = some r → ts[k]? = some t → run r (p k) = .ok (some t))
    (stops : run r (p ts.length) = o) (noTree : NoTree o) :
    inSequence run items (p 0) = o.map fun _ ↦ none := by
  induction items generalizing ts p with
  | nil => cases item
  | cons s rest ih =>
      cases ts with
      | nil =>
          obtain rfl : s = r := Option.some.inj item
          rw [inSequence, show run s (p 0) = o from stops]
          obtain rfl | ⟨halt, rfl⟩ := noTree_iff.mp noTree
          · rfl
          · rfl
      | cons t ts =>
          have first : run s (p 0) = .ok (some t) := each 0 s t rfl rfl
          have later := ih (p := fun k ↦ p (k + 1)) item next.tail
            (fun k s u found yielded ↦ each (k + 1) s u found yielded) stops
          rw [inSequence, first, Except.ok_bind]
          simp only [next.stop_head, later]
          cases o with
          | error halt => rfl
          | ok found => rfl

/-- Rules in sequence run as a row of trees, either to the end or up to the first that has none. -/
theorem exists_row_of_inSequence (run : Rule → Matcher) (items : List Rule) (pos : Nat) :
    ∃ (ts : List Tree) (p : Nat → Nat), p 0 = pos ∧ Consecutive p ts ∧
      (∀ k r t, items[k]? = some r → ts[k]? = some t → run r (p k) = .ok (some t)) ∧
      (ts.length = items.length ∧ inSequence run items pos = .ok (some (ts, p items.length)) ∨
        ∃ r, items[ts.length]? = some r ∧ NoTree (run r (p ts.length)) ∧
          inSequence run items pos = (run r (p ts.length)).map fun _ ↦ none) := by
  induction items generalizing pos with
  | nil => exact ⟨[], fun _ ↦ pos, rfl, .nil _, by simp, .inl ⟨rfl, rfl⟩⟩
  | cons r rest ih =>
      rcases first : run r pos with halt | _ | t
      · refine ⟨[], fun _ ↦ pos, rfl, .nil _, by simp, .inr ⟨r, rfl, ?_⟩⟩
        rw [first, inSequence, first]
        exact ⟨noTree_error halt, rfl⟩
      · refine ⟨[], fun _ ↦ pos, rfl, .nil _, by simp, .inr ⟨r, rfl, ?_⟩⟩
        rw [first, inSequence, first]
        exact ⟨noTree_failure, rfl⟩
      · obtain ⟨ts, p, start, next, each, outcome⟩ := ih t.stop
        refine ⟨t :: ts, precede pos p, rfl, next.cons start.symm, ?_, ?_⟩
        · intro k s u found yielded
          cases k with
          | zero =>
              cases found
              cases yielded
              exact first
          | succ k => exact each k s u found yielded
        · rw [inSequence, first, Except.ok_bind]
          rcases outcome with ⟨all, ran⟩ | ⟨s, item, noTree, ran⟩
          · refine .inl ⟨congrArg Nat.succ all, ?_⟩
            simp only [ran, Except.ok_bind]
            rfl
          · refine .inr ⟨s, item, noTree, ?_⟩
            simp only [ran]
            show _ = (run s (p ts.length)).map fun _ ↦ none
            rcases stops : run s (p ts.length) with halt | _ | u
            · rfl
            · rfl
            · exact absurd stops (noTree u)

/-- Alternatives run up to the first that does not fail. -/
theorem firstOf_of_taken {alternatives : List Rule} {k : Nat} {r : Rule} {pos : Nat}
    {o : Except Halt (Option Tree)} (chosen : alternatives[k]? = some r)
    (before : ∀ j s, j < k → alternatives[j]? = some s → run s pos = .ok none)
    (taken : run r pos = o) (noFailure : o ≠ .ok none) : firstOf run alternatives pos = o := by
  induction alternatives generalizing k with
  | nil => cases chosen
  | cons s rest ih =>
      cases k with
      | zero =>
          cases chosen
          rw [firstOf, taken]
          rcases o with halt | _ | t
          · rfl
          · exact absurd rfl noFailure
          · rfl
      | succ k =>
          rw [firstOf, before 0 s k.succ_pos rfl, Except.ok_bind]
          exact ih chosen fun j u lt found ↦ before (j + 1) u (Nat.succ_lt_succ lt) found

theorem firstOf_of_all {alternatives : List Rule} {pos : Nat}
    (all : ∀ s ∈ alternatives, run s pos = .ok none) : firstOf run alternatives pos = .ok none := by
  induction alternatives with
  | nil => rfl
  | cons s rest ih =>
      rw [firstOf, all s List.mem_cons_self, Except.ok_bind]
      exact ih fun u mem ↦ all u (List.mem_cons_of_mem s mem)

/-- Alternatives either all fail or run as the first that does not. -/
theorem exists_taken_of_firstOf (run : Rule → Matcher) (alternatives : List Rule) (pos : Nat) :
    ((∀ s ∈ alternatives, run s pos = .ok none) ∧ firstOf run alternatives pos = .ok none) ∨
      ∃ (k : Nat) (r : Rule), alternatives[k]? = some r ∧
        (∀ j s, j < k → alternatives[j]? = some s → run s pos = .ok none) ∧
        run r pos ≠ .ok none ∧ firstOf run alternatives pos = run r pos := by
  induction alternatives with
  | nil => exact .inl ⟨by simp, rfl⟩
  | cons s rest ih =>
      by_cases fails : run s pos = .ok none
      · rw [firstOf, fails, Except.ok_bind]
        rcases ih with ⟨all, ran⟩ | ⟨k, r, chosen, before, noFailure, ran⟩
        · refine .inl ⟨fun u mem ↦ ?_, ran⟩
          rcases List.mem_cons.mp mem with rfl | mem
          · exact fails
          · exact all u mem
        · refine .inr ⟨k + 1, r, chosen, fun j u lt found ↦ ?_, noFailure, ran⟩
          cases j with
          | zero =>
              cases found
              exact fails
          | succ j => exact before j u (Nat.lt_of_succ_lt_succ lt) found
      · exact .inr ⟨0, s, rfl, fun j _ lt ↦ absurd lt j.not_lt_zero, fails,
          firstOf_of_taken (k := 0) rfl (fun j _ lt ↦ absurd lt j.not_lt_zero) rfl fails⟩

end Loops

/-! ## What repetitions give -/

section Repetitions

variable {run : Matcher}

/-- A repetition collects a row of trees that advance, up to a failure or a tree that does not. -/
theorem chain_of_row {rounds : Nat} {ts : List Tree} {last : Option Tree} {p : Nat → Nat}
    (enough : ts.length < rounds) (next : Consecutive p ts)
    (each : ∀ k t, ts[k]? = some t → run (p k) = .ok (some t))
    (advances : ∀ k < ts.length, p k < p (k + 1)) (ends : run (p ts.length) = .ok last)
    (still : ∀ t ∈ last, t.stop = p ts.length) :
    chain run rounds (p 0) = .ok (ts, p ts.length) := by
  induction ts generalizing p rounds with
  | nil =>
      obtain ⟨rounds, rfl⟩ := Nat.exists_eq_add_one.mpr enough
      rw [chain, show run (p 0) = .ok last from ends, Except.ok_bind]
      cases last with
      | none => rfl
      | some t => exact if_pos (still t rfl)
  | cons t ts ih =>
      obtain ⟨rounds, rfl⟩ := Nat.exists_eq_add_one.mpr (Nat.zero_lt_of_lt enough)
      have first : run (p 0) = .ok (some t) := each 0 t rfl
      have moves : p 1 ≠ p 0 := (Nat.ne_of_lt (advances 0 (Nat.zero_lt_succ _))).symm
      have later := ih (p := fun k ↦ p (k + 1)) (Nat.lt_of_succ_lt_succ enough) next.tail
        (fun k u found ↦ each (k + 1) u found)
        (fun k lt ↦ advances (k + 1) (Nat.succ_lt_succ lt)) ends still
      rw [chain, first, Except.ok_bind]
      simp only [next.stop_head, if_neg moves, later, Except.ok_bind]
      rfl

/-- A repetition halts where its rule does after a row of trees that advance. -/
theorem chain_of_halt {rounds : Nat} {ts : List Tree} {halt : Halt} {p : Nat → Nat}
    (enough : ts.length < rounds) (next : Consecutive p ts)
    (each : ∀ k t, ts[k]? = some t → run (p k) = .ok (some t))
    (advances : ∀ k < ts.length, p k < p (k + 1)) (halts : run (p ts.length) = .error halt) :
    chain run rounds (p 0) = .error halt := by
  induction ts generalizing p rounds with
  | nil =>
      obtain ⟨rounds, rfl⟩ := Nat.exists_eq_add_one.mpr enough
      rw [chain, show run (p 0) = .error halt from halts, Except.error_bind]
  | cons t ts ih =>
      obtain ⟨rounds, rfl⟩ := Nat.exists_eq_add_one.mpr (Nat.zero_lt_of_lt enough)
      have first : run (p 0) = .ok (some t) := each 0 t rfl
      have moves : p 1 ≠ p 0 := (Nat.ne_of_lt (advances 0 (Nat.zero_lt_succ _))).symm
      have later := ih (p := fun k ↦ p (k + 1)) (Nat.lt_of_succ_lt_succ enough) next.tail
        (fun k u found ↦ each (k + 1) u found)
        (fun k lt ↦ advances (k + 1) (Nat.succ_lt_succ lt)) halts
      rw [chain, first, Except.ok_bind]
      simp only [next.stop_head, if_neg moves, later, Except.error_bind]

/-- A repetition with enough rounds runs as a row of trees that advance, up to a failure, a tree
that does not advance, or a halt. -/
theorem exists_row_of_chain {size : Nat} (within : StaysWithin size run) {rounds pos : Nat}
    (enough : size - pos < rounds) :
    ∃ (ts : List Tree) (p : Nat → Nat), p 0 = pos ∧ Consecutive p ts ∧
      (∀ k t, ts[k]? = some t → run (p k) = .ok (some t)) ∧
      (∀ k < ts.length, p k < p (k + 1)) ∧
      ((∃ last, run (p ts.length) = .ok last ∧ (∀ t ∈ last, t.stop = p ts.length) ∧
          chain run rounds pos = .ok (ts, p ts.length)) ∨
        ∃ halt, run (p ts.length) = .error halt ∧ chain run rounds pos = .error halt) := by
  induction rounds generalizing pos with
  | zero => omega
  | succ rounds ih =>
      rcases first : run pos with halt | _ | t
      · refine ⟨[], fun _ ↦ pos, rfl, .nil _, by simp, by simp, .inr ⟨halt, first, ?_⟩⟩
        rw [chain, first, Except.error_bind]
      · refine ⟨[], fun _ ↦ pos, rfl, .nil _, by simp, by simp, .inl ⟨none, first, by simp, ?_⟩⟩
        rw [chain, first, Except.ok_bind]
      · by_cases stays : t.stop = pos
        · refine ⟨[], fun _ ↦ pos, rfl, .nil _, by simp, by simp,
            .inl ⟨some t, first, by simpa using stays, ?_⟩⟩
          rw [chain, first, Except.ok_bind]
          exact if_pos stays
        · have bounds := within pos t first
          obtain ⟨ts, p, start, next, each, advances, outcome⟩ :=
            ih (show size - t.stop < rounds by omega)
          refine ⟨t :: ts, precede pos p, rfl, next.cons start.symm, ?_, ?_, ?_⟩
          · intro k u found
            cases k with
            | zero =>
                cases found
                exact first
            | succ k => exact each k u found
          · intro k lt
            cases k with
            | zero =>
                show pos < p 0
                omega
            | succ k => exact advances k (Nat.lt_of_succ_lt_succ lt)
          · rw [chain, first, Except.ok_bind]
            simp only [if_neg stays]
            rcases outcome with ⟨last, ends, still, ran⟩ | ⟨halt, halts, ran⟩
            · exact .inl ⟨last, ends, still, by rw [ran]; rfl⟩
            · exact .inr ⟨halt, halts, by rw [ran]; rfl⟩

end Repetitions

/-! ## Single characters -/

section Characters

variable {text : Text}

/-- Walking along the input finds a text exactly where it stands. -/
theorem standsAt_iff {t : Text} {pos : Nat} :
    standsAt text.toArray t pos = true ↔ t.StandsIn text pos := by
  induction t generalizing pos with
  | nil =>
      simp only [standsAt, List.size_toArray, decide_eq_true_eq]
      constructor
      · intro within
        exact ⟨text.take pos, text.drop pos, List.length_take_of_le within, by simp⟩
      · rintro ⟨before, after, rfl, rfl⟩
        simp
  | cons c rest ih =>
      simp only [standsAt, Bool.and_eq_true, decide_eq_true_eq, List.getElem?_toArray, ih]
      constructor
      · rintro ⟨here, before, after, length, whole⟩
        obtain rfl | ⟨before, d, rfl⟩ := List.eq_nil_or_concat before
        · cases length
        · obtain rfl : before.length = pos := by simpa using length
          obtain rfl : d = c := by simpa [whole] using here
          exact ⟨before, after, rfl, by simp [whole]⟩
      · rintro ⟨before, after, rfl, rfl⟩
        exact ⟨by simp, before ++ [c], after, by simp, by simp⟩

theorem charAt_of_getElem? {condition : CodePoint → Bool} {pos : Nat} {c : CodePoint}
    (here : text[pos]? = some c) (holds : condition c = true) :
    charAt text.toArray condition pos = some (.leaf pos (pos + 1)) :=
  charAt_eq_some_iff.mpr ⟨rfl, c, by simpa using here, holds⟩

/-- No character is found where none satisfies the condition. -/
theorem charAt_eq_none_iff {condition : CodePoint → Bool} {pos : Nat} :
    charAt text.toArray condition pos = none ↔
      ∀ c, text[pos]? = some c → condition c = false := by
  constructor
  · intro fails c here
    by_contra holds
    rw [charAt_of_getElem? here (by simpa using holds)] at fails
    cases fails
  · intro absent
    unfold charAt
    simp only [List.getElem?_toArray]
    split
    next c here => simp [absent c here]
    next => rfl

theorem any_contains_iff {ranges : List CharRange} {c : CodePoint} :
    (ranges.any (·.contains c)) = true ↔ ∃ range ∈ ranges, range.low ≤ c ∧ c ≤ range.high := by
  simp only [List.any_eq_true, CharRange.contains_iff]

end Characters

/-! ## From runs to meaning -/

section Soundness

variable {text : Text}

theorem yields_literal (env : Option Grammar) (t : Text) (pos : Nat) :
    Yields text env (.literal t) pos
      (.ok (if standsAt text.toArray t pos then some (.leaf pos (pos + t.length)) else none)) := by
  by_cases stands : standsAt text.toArray t pos = true
  · rw [if_pos stands]
    exact .literal (standsAt_iff.mp stands)
  · rw [if_neg stands]
    exact .literal_fails fun stands' ↦ stands (standsAt_iff.mpr stands')

/-- A class yields what it gives. -/
theorem yields_charRange (env : Option Grammar) (ranges : List CharRange) (pos : Nat) :
    Yields text env (.charRange ranges) pos
      (.ok (charAt text.toArray (fun c ↦ ranges.any (·.contains c)) pos)) := by
  rcases found : charAt text.toArray (fun c ↦ ranges.any (·.contains c)) pos with _ | t
  · apply Yields.charRange_fails
    intro c range here mem bounds
    have := charAt_eq_none_iff.mp found c here
    rw [any_contains_iff.mpr ⟨range, mem, bounds⟩] at this
    cases this
  · obtain ⟨rfl, c, here, holds⟩ := charAt_eq_some_iff.mp found
    obtain ⟨range, mem, low, high⟩ := any_contains_iff.mp holds
    exact .charRange (by simpa using here) mem low high

theorem yields_anyChar (env : Option Grammar) (pos : Nat) :
    Yields text env .anyChar pos (.ok (charAt text.toArray (fun _ ↦ true) pos)) := by
  rcases found : charAt text.toArray (fun _ ↦ true) pos with _ | t
  · refine .anyChar_fails (Nat.le_of_not_lt fun lt ↦ ?_)
    have := charAt_eq_none_iff.mp found _ (List.getElem?_eq_getElem lt)
    cases this
  · obtain ⟨rfl, lt⟩ := charAt_eq_some_iff.mp found
    have := (lt_size_of_charAt found).2
    exact .anyChar (by simpa using this)

/-- What a run of rules in sequence gives, the sequence yields. -/
theorem yields_sequence {env : Option Grammar} {run : Rule → Matcher}
    (h : ∀ r pos, run r pos ≠ .error .outOfFrames → Yields text env r pos (run r pos))
    {items : List Rule} {pos : Nat} {o : Except Halt (Option Tree)}
    (ran : (inSequence run items pos >>= fun
      | some (ts, stop) => .ok (some ⟨pos, stop, ts⟩)
      | none => .ok none) = o) (answers : o ≠ .error .outOfFrames) :
    Yields text env (.sequence items) pos o := by
  obtain ⟨ts, p, rfl, next, each, outcome⟩ := exists_row_of_inSequence run items pos
  have trees : ∀ k r t, items[k]? = some r → ts[k]? = some t →
      Yields text env r (p k) (.ok (some t)) := by
    intro k r t found yielded
    have ran := each k r t found yielded
    exact ran ▸ h r (p k) (by rw [ran]; exact nofun)
  rcases outcome with ⟨all, passed⟩ | ⟨r, item, noTree, stopped⟩
  · rw [passed] at ran
    cases ran
    exact .sequence all next trees
  · rw [stopped] at ran
    have same : run r (p ts.length) = o := by
      rcases stops : run r (p ts.length) with halt | _ | t
      · rw [stops] at ran
        exact ran
      · rw [stops] at ran
        exact ran
      · exact absurd stops (noTree t)
    subst same
    exact .sequence_stops item next trees (h r _ answers) noTree

/-- What a run of alternatives gives, the choice yields. -/
theorem yields_choice {env : Option Grammar} {run : Rule → Matcher}
    (h : ∀ r pos, run r pos ≠ .error .outOfFrames → Yields text env r pos (run r pos))
    {alternatives : List Rule} {pos : Nat}
    (answers : firstOf run alternatives pos ≠ .error .outOfFrames) :
    Yields text env (.choice alternatives) pos (firstOf run alternatives pos) := by
  have failure : ∀ s, run s pos = .ok none → Yields text env s pos (.ok none) :=
    fun s fails ↦ fails ▸ h s pos (by rw [fails]; exact nofun)
  rcases exists_taken_of_firstOf run alternatives pos with
    ⟨all, ran⟩ | ⟨k, r, chosen, before, noFailure, ran⟩
  · rw [ran]
    exact .choice_fails fun s mem ↦ failure s (all s mem)
  · rw [ran] at answers ⊢
    exact .choice chosen (fun j s lt found ↦ failure s (before j s lt found)) (h r pos answers)
      noFailure

/-- What a run of a rule again and again gives, the repetition yields. -/
theorem yields_zeroOrMore {env : Option Grammar} {r : Rule} {run : Matcher}
    (within : StaysWithin text.toArray.size run)
    (h : ∀ pos, run pos ≠ .error .outOfFrames → Yields text env r pos (run pos)) {pos : Nat}
    (answers : chain run (roundsFrom text.toArray pos) pos ≠ .error .outOfFrames) :
    Yields text env (.repeated r .zeroOrMore) pos
      ((chain run (roundsFrom text.toArray pos) pos).map
        fun (ts, stop) ↦ some ⟨pos, stop, ts⟩) := by
  obtain ⟨ts, p, rfl, next, each, advances, outcome⟩ :=
    exists_row_of_chain within (Nat.lt_succ_self (text.toArray.size - pos))
  have trees : ∀ k t, ts[k]? = some t → Yields text env r (p k) (.ok (some t)) := by
    intro k t found
    have ran := each k t found
    exact ran ▸ h (p k) (by rw [ran]; exact nofun)
  rcases outcome with ⟨last, ends, still, ran⟩ | ⟨halt, halts, ran⟩
  · rw [roundsFrom, ran]
    exact .zeroOrMore next trees advances (ends ▸ h _ (by rw [ends]; exact nofun)) still
  · rw [roundsFrom, ran] at answers ⊢
    refine .zeroOrMore_halts next trees advances (halts ▸ h _ ?_)
    rw [halts]
    exact fun out ↦ answers (congrArg Except.error (Except.error.inj out))

/-- What a run gives before its frames run out, the rule yields; and so for repetitions. -/
theorem yields_of_eval_and_evalChain (text : Text) (frames : Nat) :
    (∀ env r pos, eval text.toArray frames env r pos ≠ .error .outOfFrames →
      Yields text env r pos (eval text.toArray frames env r pos)) ∧
    ∀ env r pos, evalChain text.toArray frames env r pos ≠ .error .outOfFrames →
      Yields text env (.repeated r .zeroOrMore) pos
        ((evalChain text.toArray frames env r pos).map fun (ts, stop) ↦ some ⟨pos, stop, ts⟩) := by
  induction frames with
  | zero =>
      constructor
      · intro env r pos answers
        exact absurd (eval_zero ..) answers
      · intro env r pos answers
        exact absurd (evalChain_zero ..) answers
  | succ frames ih =>
      obtain ⟨rule, repetition⟩ := ih
      constructor
      · intro env r pos answers
        cases r with
        | literal t =>
            rw [eval_literal]
            exact yields_literal env t pos
        | charRange ranges =>
            rw [eval_charRange]
            exact yields_charRange env ranges pos
        | anyChar =>
            rw [eval_anyChar]
            exact yields_anyChar env pos
        | reference name slot =>
            rw [eval_reference] at answers ⊢
            cases slot with
            | none => exact .reference_unresolved (.inl rfl)
            | some slot =>
                cases env with
                | none => exact .reference_unresolved (.inr rfl)
                | some g =>
                    rw [resolve, ruleIn] at answers ⊢
                    rcases found : g.ruleAt? slot with _ | r
                    · exact .reference_missing found
                    · rw [found] at answers
                      exact .reference found (rule (some g) r pos answers)
        | bound g slot =>
            rw [eval_bound, ruleIn] at answers ⊢
            rcases found : g.ruleAt? slot with _ | r
            · exact .bound_missing found
            · rw [found] at answers
              exact .bound found (rule (some g) r pos answers)
        | followedBy r =>
            rw [eval_followedBy] at answers ⊢
            have inner := rule env r pos
            generalize eval text.toArray frames env r pos = o at inner answers ⊢
            rcases o with halt | _ | t
            · exact .followedBy_stops (inner answers) (noTree_error halt)
            · exact .followedBy_stops (inner nofun) noTree_failure
            · exact .followedBy (inner nofun)
        | notFollowedBy r =>
            rw [eval_notFollowedBy] at answers ⊢
            have inner := rule env r pos
            generalize eval text.toArray frames env r pos = o at inner answers ⊢
            rcases o with halt | _ | t
            · exact .notFollowedBy_halts (inner answers)
            · exact .notFollowedBy (inner nofun)
            · exact .notFollowedBy_fails (inner nofun)
        | sequence items =>
            rw [eval_sequence] at answers ⊢
            exact yields_sequence (rule env) rfl answers
        | choice alternatives =>
            rw [eval_choice] at answers ⊢
            exact yields_choice (rule env) answers
        | repeated r quantifier =>
            have inner := rule env r pos
            cases quantifier with
            | «optional» =>
                rw [eval_optional] at answers ⊢
                generalize eval text.toArray frames env r pos = o at inner answers ⊢
                rcases o with halt | _ | t
                · exact .optional (inner answers) nofun
                · exact .optional_empty (inner nofun)
                · exact .optional (inner nofun) nofun
            | zeroOrMore =>
                rw [eval_zeroOrMore] at answers ⊢
                have all := repetition env r pos
                generalize evalChain text.toArray frames env r pos = x at all answers ⊢
                rcases x with halt | ⟨ts, stop⟩
                · exact all fun out ↦ answers (congrArg Except.error (Except.error.inj out))
                · exact all nofun
            | oneOrMore =>
                rw [eval_oneOrMore] at answers ⊢
                generalize eval text.toArray frames env r pos = o at inner answers ⊢
                rcases o with halt | _ | first
                · exact .oneOrMore_stops (inner answers) (noTree_error halt)
                · exact .oneOrMore_stops (inner nofun) noTree_failure
                · simp only [Except.ok_bind] at answers ⊢
                  have more := repetition env r first.stop
                  generalize evalChain text.toArray frames env r first.stop = x at more answers ⊢
                  rcases x with halt | ⟨ts, stop⟩
                  · refine .oneOrMore_halts (inner nofun) (more fun out ↦ answers ?_)
                    exact congrArg Except.error (Except.error.inj out)
                  · exact .oneOrMore (inner nofun) (more nofun)
            | unknown symbol =>
                rw [eval_unknown]
                exact .unknown
      · intro env r pos answers
        rw [evalChain_succ] at answers ⊢
        exact yields_zeroOrMore (staysWithin_eval text.toArray frames env r) (rule env r) answers

/-- What a run gives before its frames run out, the rule yields. -/
theorem yields_of_eval {frames : Nat} {env : Option Grammar} {r : Rule} {pos : Nat}
    {o : Except Halt (Option Tree)} (ran : eval text.toArray frames env r pos = o)
    (answers : o ≠ .error .outOfFrames) : Yields text env r pos o := by
  subst ran
  exact (yields_of_eval_and_evalChain text frames).1 env r pos answers

end Soundness

/-! ## From meaning to runs -/

section Completeness

variable {text : Text}

/-- What holds from some number of frames on may be shown for one frame more. -/
theorem eventually_succ_iff {P : Nat → Prop} :
    (∀ᶠ n in atTop, P (n + 1)) ↔ ∀ᶠ n in atTop, P n := by
  rw [← eventually_map (m := (· + 1)) (P := P), map_add_atTop_eq_nat]

theorem eventually_of_succ {P : Nat → Prop} (h : ∀ n, P (n + 1)) : ∀ᶠ n in atTop, P n :=
  eventually_succ_iff.mp (.of_forall h)

theorem eventually_forall_getElem? {α : Type} {xs : List α} {P : Nat → Nat → α → Prop}
    (h : ∀ k x, xs[k]? = some x → ∀ᶠ n in atTop, P n k x) :
    ∀ᶠ n in atTop, ∀ k x, xs[k]? = some x → P n k x := by
  have each : ∀ k ∈ Finset.range xs.length, ∀ᶠ n in atTop, ∀ x, xs[k]? = some x → P n k x := by
    intro k mem
    have found := List.getElem?_eq_getElem (Finset.mem_range.mp mem)
    filter_upwards [h k _ found] with n holds x found'
    obtain rfl := Option.some.inj (found.symm.trans found')
    exact holds
  filter_upwards [(eventually_all_finset (Finset.range xs.length)).mpr each] with n all k x found
  exact all k (Finset.mem_range.mpr (List.getElem?_eq_some_iff.mp found).1) x found

/-- Rules that each succeed from some number of frames on succeed in a row from some number on. -/
theorem eventually_row {env : Option Grammar} {items : List Rule} {ts : List Tree} {p : Nat → Nat}
    (h : ∀ k r t, items[k]? = some r → ts[k]? = some t →
      ∀ᶠ n in atTop, eval text.toArray n env r (p k) = .ok (some t)) :
    ∀ᶠ n in atTop, ∀ k r t, items[k]? = some r → ts[k]? = some t →
      eval text.toArray n env r (p k) = .ok (some t) := by
  have each : ∀ k r, items[k]? = some r → ∀ᶠ n in atTop, ∀ t, ts[k]? = some t →
      eval text.toArray n env r (p k) = .ok (some t) := by
    intro k r found
    rcases yielded : ts[k]? with _ | t
    · exact .of_forall fun _ _ h ↦ by cases h
    · filter_upwards [h k r t found yielded] with n ran u same
      cases same
      exact ran
  filter_upwards [eventually_forall_getElem? each] with n all k r t found yielded
  exact all k r found t yielded

/-- The trees of a row that advances within a text of some size are no more than its characters. -/
theorem length_le_of_advances {size : Nat} {p : Nat → Nat} {ts : List Tree}
    (advances : ∀ k < ts.length, p k < p (k + 1))
    (within : ∀ k < ts.length, p (k + 1) ≤ max (p k) size) : ts.length ≤ size - p 0 := by
  have climbs : ∀ k ≤ ts.length, p 0 + k ≤ p k ∧ p k ≤ max (p 0) size := by
    intro k
    induction k with
    | zero => exact fun _ ↦ ⟨Nat.le_refl _, Nat.le_max_left _ _⟩
    | succ k ih =>
        intro le
        have before := ih (Nat.le_of_succ_le le)
        have step := advances k le
        have bound := within k le
        omega
  have last := climbs ts.length (Nat.le_refl _)
  omega

theorem length_lt_roundsFrom {frames : Nat} {env : Option Grammar} {r : Rule} {ts : List Tree}
    {p : Nat → Nat} (next : Consecutive p ts)
    (each : ∀ k t, ts[k]? = some t → eval text.toArray frames env r (p k) = .ok (some t))
    (advances : ∀ k < ts.length, p k < p (k + 1)) : ts.length < roundsFrom text.toArray (p 0) := by
  refine Nat.lt_succ_of_le (length_le_of_advances advances fun k lt ↦ ?_)
  have found := List.getElem?_eq_getElem lt
  have stays := staysWithin_eval text.toArray frames env r (p k) _ (each k _ found)
  rw [next k _ found] at stays
  exact stays.2

/-- What a rule yields, its runs give from some number of frames on. -/
theorem eventually_eval_of_yields {env : Option Grammar} {r : Rule} {pos : Nat}
    {o : Except Halt (Option Tree)} (h : Yields text env r pos o) :
    ∀ᶠ frames in atTop, eval text.toArray frames env r pos = o := by
  induction h with
  | literal stands =>
      apply eventually_of_succ
      intro n
      rw [eval_literal, if_pos (standsAt_iff.mpr stands)]
  | literal_fails absent =>
      apply eventually_of_succ
      intro n
      rw [eval_literal, if_neg (mt standsAt_iff.mp absent)]
  | charRange here mem low high =>
      apply eventually_of_succ
      intro n
      rw [eval_charRange, charAt_of_getElem? here (any_contains_iff.mpr ⟨_, mem, low, high⟩)]
  | charRange_fails absent =>
      apply eventually_of_succ
      intro n
      rw [eval_charRange, charAt_eq_none_iff.mpr fun c here ↦ ?_]
      apply Bool.eq_false_iff.mpr
      intro holds
      obtain ⟨range, mem, bounds⟩ := any_contains_iff.mp holds
      exact absent c range here mem bounds
  | anyChar here =>
      apply eventually_of_succ
      intro n
      rw [eval_anyChar, charAt_of_getElem? (List.getElem?_eq_getElem here) rfl]
  | anyChar_fails past =>
      apply eventually_of_succ
      intro n
      rw [eval_anyChar, charAt_eq_none_iff.mpr fun c here ↦ ?_]
      rw [List.getElem?_eq_none past] at here
      cases here
  | reference found _ ih =>
      refine eventually_succ_iff.mp ?_
      filter_upwards [ih] with n ran
      rw [eval_reference, resolve, ruleIn, found]
      exact ran
  | reference_missing missing =>
      apply eventually_of_succ
      intro n
      rw [eval_reference, resolve, ruleIn, missing]
      rfl
  | @reference_unresolved env name slot pos unresolved =>
      apply eventually_of_succ
      intro n
      rw [eval_reference]
      rcases unresolved with rfl | rfl
      · rfl
      · cases slot <;> rfl
  | bound found _ ih =>
      refine eventually_succ_iff.mp ?_
      filter_upwards [ih] with n ran
      rw [eval_bound, ruleIn, found]
      exact ran
  | bound_missing missing =>
      apply eventually_of_succ
      intro n
      rw [eval_bound, ruleIn, missing]
      rfl
  | followedBy _ ih =>
      refine eventually_succ_iff.mp ?_
      filter_upwards [ih] with n ran
      rw [eval_followedBy, ran, Except.ok_bind]
  | @followedBy_stops env r pos o _ noTree ih =>
      refine eventually_succ_iff.mp ?_
      filter_upwards [ih] with n ran
      rw [eval_followedBy, ran]
      obtain rfl | ⟨halt, rfl⟩ := noTree_iff.mp noTree
      · rfl
      · rfl
  | notFollowedBy _ ih =>
      refine eventually_succ_iff.mp ?_
      filter_upwards [ih] with n ran
      rw [eval_notFollowedBy, ran, Except.ok_bind]
  | notFollowedBy_fails _ ih =>
      refine eventually_succ_iff.mp ?_
      filter_upwards [ih] with n ran
      rw [eval_notFollowedBy, ran, Except.ok_bind]
  | notFollowedBy_halts _ ih =>
      refine eventually_succ_iff.mp ?_
      filter_upwards [ih] with n ran
      rw [eval_notFollowedBy, ran, Except.error_bind]
  | sequence all next _ ih =>
      refine eventually_succ_iff.mp ?_
      filter_upwards [eventually_row ih] with n each
      rw [eval_sequence, inSequence_of_row all next each, Except.ok_bind]
  | @sequence_stops env items ts r o p item next _ _ noTree ih ihStops =>
      refine eventually_succ_iff.mp ?_
      filter_upwards [eventually_row ih, ihStops] with n each stops
      rw [eval_sequence, inSequence_of_stop item next each stops noTree]
      obtain rfl | ⟨halt, rfl⟩ := noTree_iff.mp noTree
      · rfl
      · rfl
  | @choice env alternatives r pos o k chosen _ _ noFailure ihBefore ih =>
      refine eventually_succ_iff.mp ?_
      have before : ∀ᶠ n in atTop, ∀ j s, alternatives[j]? = some s → j < k →
          eval text.toArray n env s pos = .ok none :=
        eventually_forall_getElem? fun j s found ↦ by
          by_cases lt : j < k
          · filter_upwards [ihBefore j s lt found] with n fails _
            exact fails
          · exact .of_forall fun _ lt' ↦ absurd lt' lt
      filter_upwards [before, ih] with n fails taken
      rw [eval_choice]
      exact firstOf_of_taken chosen (fun j s lt found ↦ fails j s found lt) taken noFailure
  | choice_fails _ ih =>
      refine eventually_succ_iff.mp ?_
      filter_upwards [eventually_forall_getElem? fun k s found ↦
        ih s (List.mem_of_getElem? found)] with n fails
      rw [eval_choice]
      apply firstOf_of_all
      intro s mem
      obtain ⟨k, found⟩ := List.mem_iff_getElem?.mp mem
      exact fails k s found
  | @optional env r pos o _ noFailure ih =>
      refine eventually_succ_iff.mp ?_
      filter_upwards [ih] with n ran
      rw [eval_optional, ran]
      rcases o with halt | _ | t
      · rfl
      · exact absurd rfl noFailure
      · rfl
  | optional_empty _ ih =>
      refine eventually_succ_iff.mp ?_
      filter_upwards [ih] with n ran
      rw [eval_optional, ran, Except.ok_bind]
  | zeroOrMore next _ advances _ still ih ihEnds =>
      -- One frame is for the rule and one for its repetition.
      refine eventually_succ_iff.mp (eventually_succ_iff.mp ?_)
      filter_upwards [eventually_forall_getElem? ih, ihEnds] with n each ends
      rw [eval_zeroOrMore, evalChain_succ, chain_of_row (length_lt_roundsFrom next each advances)
        next each advances ends still, Except.ok_bind]
  | zeroOrMore_halts next _ advances _ ih ihHalts =>
      refine eventually_succ_iff.mp (eventually_succ_iff.mp ?_)
      filter_upwards [eventually_forall_getElem? ih, ihHalts] with n each halts
      rw [eval_zeroOrMore, evalChain_succ, chain_of_halt (length_lt_roundsFrom next each advances)
        next each advances halts, Except.error_bind]
  | oneOrMore _ _ ih ihMore =>
      refine eventually_succ_iff.mp ?_
      filter_upwards [ih, eventually_succ_iff.mpr ihMore] with n ran more
      rw [eval_zeroOrMore] at more
      obtain ⟨⟨ts, stop⟩, chained, more⟩ := Except.bind_eq_ok_iff.mp more
      cases more
      rw [eval_oneOrMore, ran]
      simp only [Except.ok_bind, chained]
  | @oneOrMore_stops env r pos o _ noTree ih =>
      refine eventually_succ_iff.mp ?_
      filter_upwards [ih] with n ran
      rw [eval_oneOrMore, ran]
      obtain rfl | ⟨halt, rfl⟩ := noTree_iff.mp noTree
      · rfl
      · rfl
  | oneOrMore_halts _ _ ih ihMore =>
      refine eventually_succ_iff.mp ?_
      filter_upwards [ih, eventually_succ_iff.mpr ihMore] with n ran more
      rw [eval_zeroOrMore] at more
      obtain halted | ⟨reached, -, more⟩ := Except.bind_eq_error_iff.mp more
      · rw [eval_oneOrMore, ran]
        simp only [Except.ok_bind, halted, Except.error_bind]
      · cases more
  | unknown =>
      apply eventually_of_succ
      intro n
      rw [eval_unknown]

/-- Nothing yields that the frames run out. -/
theorem ne_outOfFrames_of_yields {env : Option Grammar} {r : Rule} {pos : Nat}
    {o : Except Halt (Option Tree)} (h : Yields text env r pos o) : o ≠ .error .outOfFrames := by
  induction h with
  | reference _ _ ih | bound _ _ ih => exact ih
  | followedBy_stops _ _ ih | optional _ _ ih | oneOrMore_stops _ _ ih => exact ih
  | notFollowedBy_halts _ ih => exact ih
  | sequence_stops _ _ _ _ _ _ ih => exact ih
  | choice _ _ _ _ _ ih => exact ih
  | zeroOrMore_halts _ _ _ _ _ ih => exact ih
  | oneOrMore_halts _ _ _ ih => exact ih
  | _ => exact nofun

end Completeness

/-! ## Runs and meaning -/

/-- A rule yields at most one outcome at a position. -/
theorem Yields.unique {text : Text} {env : Option Grammar} {r : Rule} {pos : Nat}
    {o o' : Except Halt (Option Tree)} (h : Yields text env r pos o)
    (h' : Yields text env r pos o') : o = o' := by
  obtain ⟨n, ran, ran'⟩ :=
    ((eventually_eval_of_yields h).and (eventually_eval_of_yields h')).exists
  exact ran.symm.trans ran'

/-- A tree does not stop before its rule runs, and not past the end of the text. -/
theorem Yields.stays {text : Text} {env : Option Grammar} {r : Rule} {pos : Nat} {t : Tree}
    (h : Yields text env r pos (.ok (some t))) : pos ≤ t.stop ∧ t.stop ≤ max pos text.length := by
  obtain ⟨frames, ran⟩ := (eventually_eval_of_yields h).exists
  exact text.size_toArray ▸ staysWithin_eval text.toArray frames env r pos t ran

/-- Runs and meaning agree at every limit. An outcome is yielded if and only if it is the answer
from some limit on, below which the frames run out; at no limit does a run end in any other way; and
there is at most one such outcome. -/
theorem yields_iff_exists_limit (text : Text) (env : Option Grammar) (r : Rule) (pos : Nat) :
    (∀ o, Yields text env r pos o ↔ o ≠ .error .outOfFrames ∧ ∃ limit, ∀ frames,
      eval text.toArray frames env r pos = if frames < limit then .error .outOfFrames else o) ∧
    (∀ frames, eval text.toArray frames env r pos = .error .outOfFrames ∨
      Yields text env r pos (eval text.toArray frames env r pos)) ∧
    ∀ o o', Yields text env r pos o → Yields text env r pos o' → o = o' := by
  refine ⟨?_, ?_, fun _ _ ↦ Yields.unique⟩
  · intro o
    constructor
    · intro yields
      obtain ⟨n, ran⟩ := (eventually_eval_of_yields yields).exists
      have answers := ne_outOfFrames_of_yields yields
      exact ⟨answers, exists_limit ran answers⟩
    · rintro ⟨answers, limit, ran⟩
      have atLimit := ran limit
      rw [if_neg (Nat.lt_irrefl limit)] at atLimit
      exact yields_of_eval atLimit answers
  · intro frames
    by_cases out : eval text.toArray frames env r pos = .error .outOfFrames
    · exact .inl out
    · exact .inr (yields_of_eval rfl out)

/-- The repetition of a rule that may consume nothing yields the characters it does consume, and
needs four frames for it. -/
theorem yields_repetition_of_nullable :
    Yields "aab" none (.repeated (.choice [.literal "a", .literal ""]) .zeroOrMore) 0
      (.ok (some ⟨0, 2, [.leaf 0 1, .leaf 1 2]⟩)) :=
  ((yields_iff_exists_limit _ _ _ _).2.1 4).resolve_left (by
    rw [show eval _ 4 _ _ _ = .ok (some ⟨0, 2, [.leaf 0 1, .leaf 1 2]⟩) from rfl]
    exact nofun)

end Peg
