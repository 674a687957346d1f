import Peg.Proofs.Evaluation.Answers

/-!
# Repetition

A repetition is a loop that knows no bound: it runs its rule wherever the run before stopped, until
the rule fails or does not advance. `Rounds` describes such a loop together with the positions that
it visits. Since the loop advances in all rounds but the last it visits no more positions than there
are from its first one to the end of the text, so the bounded loop of the evaluator is the unbounded
one, and a repetition ends wherever its rule always does.

Nothing is lost and nothing is given back: the trees of a repetition are those of its rule, one
behind the other, and where the last one stops the rule cannot advance any more.
-/

namespace Peg

open Filter

/-! ## Loops without a bound -/

/-- `Rounds run pos visited result`: a loop runs a matcher at the visited positions, the first of
which is `pos` and each other one where the run before it stopped, until the matcher is halted,
fails or does not advance. The result holds the trees that advance and the position reached. -/
inductive Rounds (run : Matcher) : Nat → List Nat → Except Halt (List Tree × Nat) → Prop where
  /-- The loop is halted with its matcher. -/
  | halts {pos : Nat} {halt : Halt} (ran : run pos = .error halt) :
      Rounds run pos [pos] (.error halt)
  /-- The loop ends where its matcher fails. -/
  | fails {pos : Nat} (ran : run pos = .ok none) : Rounds run pos [pos] (.ok ([], pos))
  /-- The loop ends where its matcher does not advance, and drops that tree. -/
  | rests {pos : Nat} {t : Tree} (ran : run pos = .ok (some t)) (still : t.stop = pos) :
      Rounds run pos [pos] (.ok ([], pos))
  /-- The loop keeps a tree that advances and goes on where it stops. -/
  | advances {pos : Nat} {t : Tree} {visited : List Nat} {result : Except Halt (List Tree × Nat)}
      (ran : run pos = .ok (some t)) (moves : t.stop ≠ pos)
      (more : Rounds run t.stop visited result) :
      Rounds run pos (pos :: visited) (Prod.map (t :: ·) id <$> result)

/-- What a loop that came to its end has collected. -/
structure Collected (run : Matcher) (pos : Nat) (visited : List Nat) (ts : List Tree) (stop : Nat) :
    Prop where
  /-- The trees lie one behind the other, from where the loop begins to where it stops. -/
  tiles : Tree.Tiles pos ts stop
  /-- Each tree is what the matcher gives where the tree begins, and it advances. -/
  each : ∀ t ∈ ts, run t.start = .ok (some t) ∧ t.start < t.stop
  /-- The matcher is run where the trees begin, and once more where the last one stops. -/
  visited_eq : visited = ts.map Tree.start ++ [stop]
  /-- Where the loop stops the matcher fails, or gives a tree that consumes nothing. -/
  ends : run stop = .ok none ∨ ∃ t, run stop = .ok (some t) ∧ t.start = stop ∧ t.stop = stop

namespace Collected

variable {run : Matcher} {pos stop : Nat} {visited : List Nat} {ts : List Tree}

/-- A loop visits where each of its trees begins. -/
theorem start_mem (h : Collected run pos visited ts stop) {t : Tree} (mem : t ∈ ts) :
    t.start ∈ visited := by
  rw [h.visited_eq]
  exact List.mem_append_left _ (List.mem_map_of_mem mem)

theorem stop_mem (h : Collected run pos visited ts stop) : stop ∈ visited := by
  rw [h.visited_eq]
  exact List.mem_append_right _ List.mem_cons_self

/-- What a loop collects depends on its matcher at the visited positions only. -/
theorem congr {run' : Matcher} (h : Collected run pos visited ts stop)
    (same : ∀ q ∈ visited, run' q = run q) : Collected run' pos visited ts stop where
  tiles := h.tiles
  each t mem := by
    rw [same t.start (h.start_mem mem)]
    exact h.each t mem
  visited_eq := h.visited_eq
  ends := by
    rw [same stop h.stop_mem]
    exact h.ends

end Collected

namespace Rounds

variable {run : Matcher} {pos size : Nat} {visited : List Nat}
  {result : Except Halt (List Tree × Nat)}

theorem mem_visited (h : Rounds run pos visited result) : pos ∈ visited := by
  cases h <;> exact List.mem_cons_self

/-- A loop depends on its matcher at the visited positions only. -/
theorem congr {run' : Matcher} (h : Rounds run pos visited result)
    (same : ∀ q ∈ visited, run' q = run q) : Rounds run' pos visited result := by
  induction h with
  | halts ran => exact .halts ((same _ List.mem_cons_self).trans ran)
  | fails ran => exact .fails ((same _ List.mem_cons_self).trans ran)
  | rests ran still => exact .rests ((same _ List.mem_cons_self).trans ran) still
  | advances ran moves _ ih =>
      exact .advances ((same _ List.mem_cons_self).trans ran) moves
        (ih fun q mem ↦ same q (List.mem_cons_of_mem _ mem))

/-- A bounded loop gives the result of the unbounded one if it can make as many rounds. -/
theorem chain_eq (h : Rounds run pos visited result) {rounds : Nat}
    (enough : visited.length ≤ rounds) : chain run rounds pos = result := by
  induction h generalizing rounds with
  | halts ran =>
      obtain ⟨rounds, rfl⟩ := Nat.exists_eq_add_one.mpr enough
      rw [chain, ran, Except.error_bind]
  | fails ran =>
      obtain ⟨rounds, rfl⟩ := Nat.exists_eq_add_one.mpr enough
      rw [chain, ran, Except.ok_bind]
  | rests ran still =>
      obtain ⟨rounds, rfl⟩ := Nat.exists_eq_add_one.mpr enough
      rw [chain, ran, Except.ok_bind]
      exact if_pos still
  | @advances _ t _ result ran moves _ ih =>
      obtain ⟨rounds, rfl⟩ := Nat.exists_eq_add_one.mpr (Nat.zero_lt_of_lt enough)
      rw [chain, ran, Except.ok_bind]
      simp only [if_neg moves, ih (Nat.le_of_succ_le_succ enough)]
      rcases result with halt | ⟨ts, stop⟩ <;> rfl

/-- A loop whose matcher stays within an input comes to an end, and visits no more positions than
there are from its first one to the end of the input. -/
theorem exists_of_staysWithin (within : StaysWithin size run) (pos : Nat) :
    ∃ visited result, Rounds run pos visited result ∧ visited.length ≤ size - pos + 1 := by
  -- All rounds but the last advance, so what is left of the input gets less.
  induction left : size - pos using Nat.strong_induction_on generalizing pos with
  | _ n ih =>
      subst left
      rcases ran : run pos with halt | _ | t
      · exact ⟨_, _, .halts ran, Nat.le_add_left _ _⟩
      · exact ⟨_, _, .fails ran, Nat.le_add_left _ _⟩
      · by_cases still : t.stop = pos
        · exact ⟨_, _, .rests ran still, Nat.le_add_left _ _⟩
        · have bounds := within pos t ran
          obtain ⟨visited, result, more, few⟩ := ih (size - t.stop) (by omega) t.stop rfl
          refine ⟨_, _, .advances ran still more, ?_⟩
          rw [List.length_cons]
          omega

/-- A loop is halted by its matcher, at a position from its first one to the end of the input. -/
theorem exists_halt (within : StaysWithin size run) {halt : Halt}
    (h : Rounds run pos visited result) (halted : result = .error halt) :
    ∃ q, pos ≤ q ∧ q ≤ max pos size ∧ run q = .error halt := by
  induction h with
  | halts ran =>
      cases halted
      exact ⟨_, Nat.le_refl _, Nat.le_max_left _ _, ran⟩
  | fails => cases halted
  | rests => cases halted
  | @advances pos t _ result ran _ _ ih =>
      cases result with
      | ok reached => cases halted
      | error halt' =>
          cases halted
          obtain ⟨q, after, before, halts⟩ := ih rfl
          have bounds := within pos t ran
          exact ⟨q, by omega, by omega, halts⟩

/-- What a loop collects that comes to its end. -/
theorem collected (starts : ∀ q t, run q = .ok (some t) → t.start = q ∧ q ≤ t.stop)
    {ts : List Tree} {stop : Nat} (h : Rounds run pos visited result)
    (ended : result = .ok (ts, stop)) : Collected run pos visited ts stop := by
  induction h generalizing ts stop with
  | halts => cases ended
  | fails ran =>
      cases ended
      exact ⟨rfl, nofun, rfl, .inl ran⟩
  | rests ran still =>
      cases ended
      exact ⟨rfl, nofun, rfl, .inr ⟨_, ran, (starts _ _ ran).1, still⟩⟩
  | @advances pos t _ result ran moves _ ih =>
      rcases result with halt | ⟨ts, stop⟩
      · cases ended
      · cases ended
        obtain ⟨start, le⟩ := starts pos t ran
        obtain ⟨tiles, each, rfl, ends⟩ := ih rfl
        refine ⟨⟨start, tiles⟩, ?_, by rw [List.map_cons, start]; rfl, ends⟩
        intro u mem
        rcases List.mem_cons.mp mem with rfl | mem
        · exact ⟨start.symm ▸ ran, by omega⟩
        · exact each u mem

end Rounds

/-! ## Answers of repetitions -/

section Answers

variable {text : Text} {env : Option Grammar} {r : Rule} {pos : Nat}

theorem exists_rounds (text : Text) (env : Option Grammar) (r : Rule) (pos : Nat) :
    ∃ visited result, Rounds (answer text env r) pos visited result ∧
      visited.length ≤ text.length - pos + 1 :=
  Rounds.exists_of_staysWithin (staysWithin_answer text env r) pos

theorem Rounds.eventually_evalChain {visited : List Nat} {result : Except Halt (List Tree × Nat)}
    (h : Rounds (answer text env r) pos visited result)
    (few : visited.length ≤ text.length - pos + 1) :
    ∀ᶠ frames in atTop, Rounds (eval text.toArray frames env r) pos visited result ∧
      evalChain text.toArray (frames + 1) env r pos = result := by
  have same : ∀ᶠ frames in atTop, ∀ q ∈ visited.toFinset,
      eval text.toArray frames env r q = answer text env r q :=
    (eventually_all_finset _).mpr fun q _ ↦ eventually_eval_eq_answer text env r q
  filter_upwards [same] with frames same
  have rounds := h.congr fun q mem ↦ same q (List.mem_toFinset.mpr mem)
  exact ⟨rounds, rounds.chain_eq few⟩

/-- A repetition answers with what its loop collects. -/
theorem Rounds.answer_eq {visited : List Nat} {result : Except Halt (List Tree × Nat)}
    (h : Rounds (answer text env r) pos visited result)
    (few : visited.length ≤ text.length - pos + 1) :
    answer text env (.repeated r .zeroOrMore) pos =
      result >>= fun (ts, stop) ↦ .ok (some ⟨pos, stop, ts⟩) := by
  have whole := eventually_succ_iff.mpr (eventually_succ_iff.mpr
    (eventually_eval_eq_answer text env (.repeated r .zeroOrMore) pos))
  obtain ⟨frames, ⟨-, chained⟩, ran⟩ := ((h.eventually_evalChain few).and whole).exists
  rw [← ran, eval_zeroOrMore, chained]

/-- A repetition is empty where its rule fails or does not advance, and otherwise goes on where the
rule stops. -/
theorem answer_zeroOrMore (text : Text) (env : Option Grammar) (pos : Nat) (r : Rule) :
    answer text env (.repeated r .zeroOrMore) pos =
      answer text env r pos >>= fun
        | none => .ok (some (.leaf pos pos))
        | some t =>
            if t.stop = pos then .ok (some (.leaf pos pos))
            else
              Option.map (Tree.prepend pos t) <$>
                answer text env (.repeated r .zeroOrMore) t.stop := by
  rcases ran : answer text env r pos with halt | _ | t
  · exact (Rounds.halts ran).answer_eq (Nat.le_add_left _ _)
  · exact (Rounds.fails ran).answer_eq (Nat.le_add_left _ _)
  · rw [Except.ok_bind]
    by_cases still : t.stop = pos
    · exact ((Rounds.rests ran still).answer_eq (Nat.le_add_left _ _)).trans (if_pos still).symm
    · have bounds := answer_bounds ran
      obtain ⟨visited, result, more, few⟩ := exists_rounds text env r t.stop
      have shorter : (pos :: visited).length ≤ text.length - pos + 1 := by
        rw [List.length_cons]
        omega
      rw [(Rounds.advances ran still more).answer_eq shorter]
      simp only [if_neg still, more.answer_eq few]
      rcases result with halt | ⟨ts, stop⟩ <;> rfl

/-- Where a repetition stops that begins with a round of its rule. -/
theorem answerStop_zeroOrMore (text : Text) (env : Option Grammar) (pos : Nat) (r : Rule) :
    answerStop text env (.repeated r .zeroOrMore) pos =
      answerStop text env r pos >>= fun
        | none => .ok (some pos)
        | some stop =>
            if stop = pos then .ok (some pos)
            else answerStop text env (.repeated r .zeroOrMore) stop := by
  rw [answerStop, answer_zeroOrMore]
  apply stopOf_bind
  rintro (_ | t)
  · rfl
  · simp only [Option.map_some]
    split
    · rfl
    · exact stopOf_map_prepend pos t _

end Answers

/-! ## Greedy and possessive -/

/-- What repetitions of a rule make of what the rule does from a position on. -/
structure Repeats (run : Rule → Matcher) (r : Rule) (pos : Nat) (visited : List Nat)
    (ts : List Tree) (stop : Nat) : Prop where
  /-- The rule is run again and again until it fails or does not advance. -/
  rounds : Rounds (run r) pos visited (.ok (ts, stop))
  /-- The loop of the evaluator, if it can make as many rounds, makes just these. -/
  chain_eq : ∀ count ≥ visited.length, chain (run r) count pos = .ok (ts, stop)
  /-- The trees that the loop collects lie one behind the other, and nothing can be added. -/
  collected : Collected (run r) pos visited ts stop
  /-- A repetition succeeds with all that the loop collects. -/
  zeroOrMore : run (.repeated r .zeroOrMore) pos = .ok (some ⟨pos, stop, ts⟩)
  /-- A repetition at least once fails only if the rule does. -/
  oneOrMore_fails : run (.repeated r .oneOrMore) pos = .ok none ↔ run r pos = .ok none
  /-- A first tree that does not advance is all that a repetition at least once has. -/
  oneOrMore_rests : ∀ first, run r pos = .ok (some first) → first.stop = pos →
    run (.repeated r .oneOrMore) pos = .ok (some ⟨pos, pos, [first]⟩)
  /-- With a first tree that advances a repetition at least once is like one that can be empty. -/
  oneOrMore_advances : ∀ first, run r pos = .ok (some first) → first.stop ≠ pos →
    ts.head? = some first ∧ run (.repeated r .oneOrMore) pos = .ok (some ⟨pos, stop, ts⟩)
  /-- A repetition gives nothing back: the rule has no success behind it that consumes anything. -/
  possessive : ∀ t, run (.sequence [.repeated r .zeroOrMore, r]) pos = .ok (some t) →
    ∃ u, run r stop = .ok (some u) ∧ u.start = stop ∧ u.stop = stop ∧
      t = ⟨pos, stop, [⟨pos, stop, ts⟩, u]⟩

namespace Repeats

variable {r : Rule} {pos stop : Nat} {visited : List Nat} {ts : List Tree}

/-- Runs that agree where the loop goes and on the repetitions repeat in one way. -/
theorem congr {run run' : Rule → Matcher} (h : Repeats run r pos visited ts stop)
    (loop : ∀ q ∈ visited, run' r q = run r q)
    (whole : ∀ rule ∈ [.repeated r .zeroOrMore, .repeated r .oneOrMore,
      .sequence [.repeated r .zeroOrMore, r]], run' rule pos = run rule pos) :
    Repeats run' r pos visited ts stop := by
  obtain ⟨zeroOrMore, oneOrMore, sequence, -⟩ : _ ∧ _ ∧ _ ∧ _ := by
    simpa only [List.forall_mem_cons] using whole
  have atPos := loop pos h.rounds.mem_visited
  have atStop := loop stop h.collected.stop_mem
  exact {
    rounds := h.rounds.congr loop
    chain_eq _ enough := (h.rounds.congr loop).chain_eq enough
    collected := h.collected.congr loop
    zeroOrMore := zeroOrMore.trans h.zeroOrMore
    oneOrMore_fails := by rw [oneOrMore, atPos]; exact h.oneOrMore_fails
    oneOrMore_rests := by rw [oneOrMore, atPos]; exact h.oneOrMore_rests
    oneOrMore_advances := by rw [oneOrMore, atPos]; exact h.oneOrMore_advances
    possessive := by rw [sequence, atStop]; exact h.possessive }

end Repeats

section Answers

variable {text : Text} {env : Option Grammar} {r : Rule} {pos stop : Nat} {visited : List Nat}
  {ts : List Tree}

/-- The answers of repetitions whose loop comes to its end. -/
theorem repeats_answer (rounds : Rounds (answer text env r) pos visited (.ok (ts, stop)))
    (few : visited.length ≤ text.length - pos + 1) :
    Repeats (answer text env) r pos visited ts stop := by
  have collected : Collected (answer text env r) pos visited ts stop :=
    rounds.collected (fun _ _ ran ↦ ⟨(answer_bounds ran).1, (answer_bounds ran).2.1⟩) rfl
  have whole : answer text env (.repeated r .zeroOrMore) pos = .ok (some ⟨pos, stop, ts⟩) :=
    rounds.answer_eq few
  have rests : ∀ first, answer text env r pos = .ok (some first) → first.stop = pos →
      answer text env (.repeated r .oneOrMore) pos = .ok (some ⟨pos, pos, [first]⟩) := by
    intro first ran still
    -- A second run at the same position gives the same tree, which the loop then drops.
    have again := answer_zeroOrMore text env pos r
    simp only [ran, Except.ok_bind, if_pos still] at again
    rw [answer_oneOrMore, ran]
    simp only [Except.ok_bind, still, again]
    rfl
  have advances : ∀ first, answer text env r pos = .ok (some first) → first.stop ≠ pos →
      ts.head? = some first ∧
        answer text env (.repeated r .oneOrMore) pos = .ok (some ⟨pos, stop, ts⟩) := by
    intro first ran moves
    have unrolled := answer_zeroOrMore text env pos r
    simp only [ran, Except.ok_bind, if_neg moves, whole] at unrolled
    refine ⟨?_, by rw [answer_oneOrMore, ran]; exact unrolled.symm⟩
    rcases more : answer text env (.repeated r .zeroOrMore) first.stop with halt | _ | others
    · rw [more] at unrolled
      cases unrolled
    · rw [more] at unrolled
      cases unrolled
    · rw [more] at unrolled
      cases unrolled
      rfl
  refine ⟨rounds, fun _ ↦ rounds.chain_eq, collected, whole, ?_, rests, advances, ?_⟩
  · constructor
    · intro fails
      rcases ran : answer text env r pos with halt | _ | first
      · rw [answer_oneOrMore, ran] at fails
        cases fails
      · rfl
      · by_cases still : first.stop = pos
        · cases (rests first ran still).symm.trans fails
        · cases (advances first ran still).2.symm.trans fails
    · intro fails
      rw [answer_oneOrMore, fails]
      rfl
  · intro t ran
    rw [answer_sequence_cons, whole] at ran
    simp only [Except.ok_bind, answer_sequence_cons] at ran
    rcases collected.ends with fails | ⟨u, again, start, still⟩
    · rw [fails] at ran
      cases ran
    · simp only [again, Except.ok_bind, still, answer_sequence_nil] at ran
      cases ran
      exact ⟨u, again, start, still, rfl⟩

/-- If a rule runs to an end everywhere from a position on, so do its repetitions there. With frames
enough the loop takes all trees of the rule that advance, in no more rounds than there are positions
left, and stops where the rule fails or consumes nothing; a repetition at least once differs only in
keeping a first tree that consumes nothing; and the rule cannot consume anything behind it. -/
theorem exists_limit_repeats (within : pos ≤ text.length)
    (ends : ∀ q, pos ≤ q → q ≤ text.length →
      ∃ frames found, eval text.toArray frames env r q = .ok found) :
    ∃ visited ts stop, visited.length ≤ text.length - pos + 1 ∧ stop ≤ text.length ∧
      ∃ limit, ∀ frames ≥ limit, Repeats (eval text.toArray frames env) r pos visited ts stop := by
  obtain ⟨visited, result, rounds, few⟩ := exists_rounds text env r pos
  rcases result with halt | ⟨ts, stop⟩
  · -- A loop is halted by its rule, which runs to an end wherever the loop goes.
    obtain ⟨q, after, before, halts⟩ := rounds.exists_halt (staysWithin_answer text env r) rfl
    obtain ⟨frames, found, ran⟩ := ends q after (by omega)
    cases halts.symm.trans (answer_eq_of_eval ran (by simp))
  · have repeats := repeats_answer rounds few
    have loop : ∀ᶠ frames in atTop, ∀ q ∈ visited.toFinset,
        eval text.toArray frames env r q = answer text env r q :=
      (eventually_all_finset _).mpr fun q _ ↦ eventually_eval_eq_answer text env r q
    have before : stop ≤ text.length := by
      have bounds := answer_bounds repeats.zeroOrMore
      exact bounds.2.2.trans_eq (Nat.max_eq_right within)
    refine ⟨visited, ts, stop, few, before, eventually_atTop.mp ?_⟩
    filter_upwards [loop, eventually_eval_eq_answer text env (.repeated r .zeroOrMore) pos,
      eventually_eval_eq_answer text env (.repeated r .oneOrMore) pos,
      eventually_eval_eq_answer text env (.sequence [.repeated r .zeroOrMore, r]) pos]
      with frames loop zeroOrMore oneOrMore sequence
    refine repeats.congr (fun q mem ↦ loop q (List.mem_toFinset.mpr mem)) ?_
    simp only [List.forall_mem_cons]
    exact ⟨zeroOrMore, oneOrMore, sequence, by simp⟩

/-- A letter that can be missing, again and again: the last round of the loop consumes nothing. -/
theorem exists_limit_repeats_optional : ∃ visited ts stop,
    visited.length ≤ ("aab" : Text).length - 0 + 1 ∧ stop ≤ ("aab" : Text).length ∧
      ∃ limit, ∀ frames ≥ limit, Repeats (eval ("aab" : Text).toArray frames none)
        (.repeated (.literal "a") .optional) 0 visited ts stop :=
  exists_limit_repeats (Nat.zero_le _) fun q _ _ ↦ ⟨2, by
    rw [eval_optional, eval_literal]
    split
    · exact ⟨_, rfl⟩
    · exact ⟨_, rfl⟩⟩

end Answers

end Peg
