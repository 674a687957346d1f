import Peg.Proofs.Evaluation.Exchange

/-!
# Answers

A caller who sets no limit gets the *answer* of a rule: what its runs give once there are frames
enough. A run for which no number of frames is enough goes on forever, and then that the frames run
out stands for its answer. So every rule has exactly one answer at every position, the limit of its
runs as the frames get more.

Each operator makes its answer from those of its parts, and the equations below say how. They read
like the operators themselves, with nothing left of the frames, so that laws of rules are shown by
calculating with answers. What a law means to a caller is stated with `SameTrees` or `SameStops`,
which speak of runs only.
-/

namespace Peg

open Filter

/-! ## The same answers -/

/-- Two families of results, one for each number of frames, give the same answers: what the one
gives with some number of frames the other one gives with some number. That the frames run out is no
answer, and a run that has none goes on forever. -/
def SameAnswers {ε α : Type} (out : ε) (x y : Nat → Except ε α) : Prop :=
  ∀ o, o ≠ .error out → ((∃ frames, x frames = o) ↔ ∃ frames, y frames = o)

/-- Whatever is made of the same answers is the same. -/
theorem SameAnswers.bind {ε ε' α β : Type} {out : ε} {x y : Nat → Except ε α}
    (h : SameAnswers out x y) (f : ε → ε') (next : α → Except ε' β) :
    SameAnswers (f out) (fun frames ↦ (x frames).mapError f >>= next)
      fun frames ↦ (y frames).mapError f >>= next := by
  have once : ∀ {x y : Nat → Except ε α}, SameAnswers out x y → ∀ o, o ≠ .error (f out) →
      (∃ frames, (x frames).mapError f >>= next = o) →
        ∃ frames, (y frames).mapError f >>= next = o := by
    rintro x y h o answers ⟨frames, rfl⟩
    have answered : x frames ≠ .error out := fun none ↦ answers (by rw [none]; rfl)
    obtain ⟨frames', same⟩ := (h _ answered).mp ⟨frames, rfl⟩
    exact ⟨frames', by rw [same]⟩
  exact fun o answers ↦
    ⟨once h o answers, once (fun o answers ↦ (h o answers).symm) o answers⟩

/-- An answer stops where something that the rule yields does. -/
theorem exists_stopOf_eval_iff {text : Text} {env : Option Grammar} {r : Rule} {pos : Nat}
    {stop : Except Halt (Option Nat)} (answers : stop ≠ .error .outOfFrames) :
    (∃ frames, stopOf (eval text.toArray frames env r pos) = stop) ↔
      ∃ o, Yields text env r pos o ∧ stopOf o = stop := by
  constructor
  · rintro ⟨frames, rfl⟩
    have answered : eval text.toArray frames env r pos ≠ .error .outOfFrames :=
      fun out ↦ answers (by rw [out]; rfl)
    exact ⟨_, yields_of_eval rfl answered, rfl⟩
  · rintro ⟨o, yields, rfl⟩
    obtain ⟨frames, ran⟩ := (eventually_eval_of_yields yields).exists
    exact ⟨frames, by rw [ran]⟩

/-- At a position of a text two rules give the same trees, or both fail there, or are halted for the
same reason, or go on forever. -/
def SameTrees (text : Text) (env : Option Grammar) (pos : Nat) (r r' : Rule) : Prop :=
  SameAnswers .outOfFrames (fun frames ↦ eval text.toArray frames env r pos)
    fun frames ↦ eval text.toArray frames env r' pos

/-- At a position of a text two rules stop at the same position, or both fail there, or are halted
for the same reason, or go on forever. -/
def SameStops (text : Text) (env : Option Grammar) (pos : Nat) (r r' : Rule) : Prop :=
  SameAnswers .outOfFrames (fun frames ↦ stopOf (eval text.toArray frames env r pos))
    fun frames ↦ stopOf (eval text.toArray frames env r' pos)

/-! ## The answer of a rule -/

/-- The answer of a rule at a position of a text: what it yields, or that the frames run out if it
yields nothing. -/
noncomputable def answer (text : Text) (env : Option Grammar) (r : Rule) : Matcher := fun pos ↦
  open Classical in
  if h : ∃ o, Yields text env r pos o then h.choose else .error .outOfFrames

section Answers

variable {text : Text} {env : Option Grammar} {r r' : Rule} {pos : Nat}

/-- What a rule yields is its answer. -/
theorem Yields.answer_eq {o : Except Halt (Option Tree)} (h : Yields text env r pos o) :
    answer text env r pos = o := by
  rw [answer, dif_pos ⟨o, h⟩]
  exact Yields.unique (Exists.choose_spec (⟨o, h⟩ : ∃ o, Yields text env r pos o)) h

theorem answer_of_forall (h : ∀ frames, eval text.toArray frames env r pos = .error .outOfFrames) :
    answer text env r pos = .error .outOfFrames := by
  refine dif_neg ?_
  rintro ⟨o, yields⟩
  obtain ⟨frames, ran⟩ := (eventually_eval_of_yields yields).exists
  exact ne_outOfFrames_of_yields yields (ran.symm.trans (h frames))

/-- With frames enough a run gives the answer. -/
theorem eventually_eval_eq_answer (text : Text) (env : Option Grammar) (r : Rule) (pos : Nat) :
    ∀ᶠ frames in atTop, eval text.toArray frames env r pos = answer text env r pos := by
  by_cases h : ∀ frames, eval text.toArray frames env r pos = .error .outOfFrames
  · exact .of_forall fun frames ↦ (h frames).trans (answer_of_forall h).symm
  · obtain ⟨frames, answers⟩ := not_forall.mp h
    have yields := yields_of_eval rfl answers
    exact yields.answer_eq ▸ eventually_eval_of_yields yields

/-- A run that does not run out of frames gives the answer. -/
theorem answer_eq_of_eval {frames : Nat} {o : Except Halt (Option Tree)}
    (ran : eval text.toArray frames env r pos = o) (answers : o ≠ .error .outOfFrames) :
    answer text env r pos = o :=
  (yields_of_eval ran answers).answer_eq

/-- What can be learned from runs is what can be learned from the answer. -/
theorem exists_map_eval_iff {α : Type} {f : Except Halt (Option Tree) → Except Halt α}
    (out : f (.error .outOfFrames) = .error .outOfFrames) {o : Except Halt α}
    (answers : o ≠ .error .outOfFrames) :
    (∃ frames, f (eval text.toArray frames env r pos) = o) ↔ f (answer text env r pos) = o := by
  constructor
  · rintro ⟨frames, rfl⟩
    have answered : eval text.toArray frames env r pos ≠ .error .outOfFrames :=
      fun none ↦ answers (by rw [none, out])
    rw [answer_eq_of_eval rfl answered]
  · rintro rfl
    obtain ⟨frames, ran⟩ := (eventually_eval_eq_answer text env r pos).exists
    exact ⟨frames, by rw [ran]⟩

/-- Rules with one answer give a caller the same trees. -/
theorem sameTrees_of_answer_eq (h : answer text env r pos = answer text env r' pos) :
    SameTrees text env pos r r' := by
  intro o answers
  calc (∃ frames, eval text.toArray frames env r pos = o)
    _ ↔ answer text env r pos = o := exists_map_eval_iff (f := id) rfl answers
    _ ↔ answer text env r' pos = o := by rw [h]
    _ ↔ ∃ frames, eval text.toArray frames env r' pos = o :=
      (exists_map_eval_iff (f := id) rfl answers).symm

/-- An answer is a tree that begins at the position, and stops neither before it nor past the end of
the text. -/
theorem answer_bounds {t : Tree} (h : answer text env r pos = .ok (some t)) :
    t.start = pos ∧ pos ≤ t.stop ∧ t.stop ≤ max pos text.length := by
  obtain ⟨frames, ran⟩ := (eventually_eval_eq_answer text env r pos).exists
  have yields : Yields text env r pos (.ok (some t)) := yields_of_eval (ran.trans h) nofun
  exact ⟨yields.start_eq rfl, yields.stays⟩

theorem staysWithin_answer (text : Text) (env : Option Grammar) (r : Rule) :
    StaysWithin text.length (answer text env r) :=
  fun _ _ h ↦ (answer_bounds h).2

end Answers

/-! ## Answers of operators -/

def Tree.prepend (start : Nat) (first others : Tree) : Tree :=
  ⟨start, others.stop, first :: others.children⟩

section Operators

variable {text : Text} {env : Option Grammar}

/-- If the runs of a rule begin with a run of another rule, so does its answer, and goes on with
what the runs go on with in the limit. -/
theorem answer_eq_bind {env' : Option Grammar} {whole r : Rule} {pos : Nat}
    (next : Nat → Option Tree → Except Halt (Option Tree))
    {next' : Option Tree → Except Halt (Option Tree)}
    (step : ∀ frames, eval text.toArray (frames + 1) env whole pos =
      eval text.toArray frames env' r pos >>= next frames)
    (limit : ∀ found, ∀ᶠ frames in atTop, next frames found = next' found) :
    answer text env whole pos = answer text env' r pos >>= next' := by
  have both := (eventually_eval_eq_answer text env' r pos).and
    (eventually_succ_iff.mpr (eventually_eval_eq_answer text env whole pos))
  rcases first : answer text env' r pos with halt | found
  · obtain ⟨frames, begins, ends⟩ := both.exists
    rw [← ends, step, begins, first]
    rfl
  · obtain ⟨frames, ⟨begins, ends⟩, goesOn⟩ := (both.and (limit found)).exists
    rw [← ends, step, begins, first]
    exact goesOn

theorem answer_eq_of_deeper {env' : Option Grammar} {whole r : Rule} {pos : Nat}
    (step : ∀ frames, eval text.toArray (frames + 1) env whole pos =
      eval text.toArray frames env' r pos) :
    answer text env whole pos = answer text env' r pos := by
  obtain ⟨frames, outer, inner⟩ := ((eventually_succ_iff.mpr
    (eventually_eval_eq_answer text env whole pos)).and
    (eventually_eval_eq_answer text env' r pos)).exists
  rw [← outer, ← inner, step]

/-- A linked reference answers as the rule in its slot does. -/
theorem answer_reference {g : Grammar} {name : Text} {slot : Int} {r : Rule}
    (found : g.ruleAt? slot = some r) (pos : Nat) :
    answer text (some g) (.reference name (some slot)) pos = answer text (some g) r pos := by
  refine answer_eq_of_deeper fun frames ↦ ?_
  rw [eval_reference, resolve, ruleIn, found, Except.ok_bind]

theorem answer_bound {g : Grammar} {slot : Nat} {r : Rule} (found : g.ruleAt? slot = some r)
    (pos : Nat) : answer text env (.bound g slot) pos = answer text (some g) r pos := by
  refine answer_eq_of_deeper fun frames ↦ ?_
  rw [eval_bound, ruleIn, found, Except.ok_bind]

variable (text env) (pos : Nat)

/-- The empty literal stands everywhere in the text. -/
theorem answer_literal_nil (within : pos ≤ text.length) :
    answer text env (.literal []) pos = .ok (some (.leaf pos pos)) := by
  have ran : eval text.toArray 1 env (.literal []) pos = .ok (some (.leaf pos pos)) := by
    simp [eval_literal, standsAt, within]
  exact answer_eq_of_eval ran (by simp)

theorem answer_followedBy (r : Rule) : answer text env (.followedBy r) pos =
    answer text env r pos >>= fun
      | some t => .ok (some ⟨pos, pos, [t]⟩)
      | none => .ok none :=
  answer_eq_bind (fun _ ↦ _) (fun _ ↦ rfl) fun _ ↦ .of_forall fun _ ↦ rfl

theorem answer_notFollowedBy (r : Rule) : answer text env (.notFollowedBy r) pos =
    answer text env r pos >>= fun
      | some _ => .ok none
      | none => .ok (some (.leaf pos pos)) :=
  answer_eq_bind (fun _ ↦ _) (fun _ ↦ rfl) fun _ ↦ .of_forall fun _ ↦ rfl

theorem answer_optional (r : Rule) : answer text env (.repeated r .optional) pos =
    answer text env r pos >>= fun
      | some t => .ok (some t)
      | none => .ok (some (.leaf pos pos)) :=
  answer_eq_bind (fun _ ↦ _) (fun _ ↦ rfl) fun _ ↦ .of_forall fun _ ↦ rfl

theorem answer_sequence_nil :
    answer text env (.sequence []) pos = .ok (some (.leaf pos pos)) :=
  answer_eq_of_eval (show eval text.toArray 1 env (.sequence []) pos = _ from rfl) (by simp)

/-- A sequence goes on where its first rule stops. -/
theorem answer_sequence_cons (r : Rule) (rest : List Rule) :
    answer text env (.sequence (r :: rest)) pos =
      answer text env r pos >>= fun
        | none => .ok none
        | some t =>
            Option.map (Tree.prepend pos t) <$> answer text env (.sequence rest) t.stop := by
  refine answer_eq_bind (fun frames ↦ fun
    | none => .ok none
    | some t => Option.map (Tree.prepend pos t) <$>
        eval text.toArray (frames + 1) env (.sequence rest) t.stop) ?_ ?_
  · intro frames
    rw [eval_sequence, inSequence]
    rcases eval text.toArray frames env r pos with halt | _ | t
    · rfl
    · rfl
    · simp only [Except.ok_bind, eval_sequence]
      rcases inSequence (eval text.toArray frames env) rest t.stop with halt | _ | ⟨ts, stop⟩
      all_goals rfl
  · rintro (_ | t)
    · exact .of_forall fun _ ↦ rfl
    · filter_upwards [eventually_succ_iff.mpr
        (eventually_eval_eq_answer text env (.sequence rest) t.stop)] with frames ran
      simp only [ran]

theorem answer_choice_nil : answer text env (.choice []) pos = .ok none :=
  answer_eq_of_eval (show eval text.toArray 1 env (.choice []) pos = _ from rfl) (by simp)

/-- A choice goes on at the same position if its first alternative fails. -/
theorem answer_choice_cons (r : Rule) (rest : List Rule) :
    answer text env (.choice (r :: rest)) pos =
      answer text env r pos >>= fun
        | some t => .ok (some t)
        | none => answer text env (.choice rest) pos := by
  refine answer_eq_bind (fun frames ↦ fun
    | some t => .ok (some t)
    | none => eval text.toArray (frames + 1) env (.choice rest) pos) (fun _ ↦ rfl) ?_
  rintro (_ | t)
  · exact eventually_succ_iff.mpr (eventually_eval_eq_answer text env (.choice rest) pos)
  · exact .of_forall fun _ ↦ rfl

/-- A repetition at least once is its rule and then a repetition. -/
theorem answer_oneOrMore (r : Rule) : answer text env (.repeated r .oneOrMore) pos =
    answer text env r pos >>= fun
      | none => .ok none
      | some t =>
          Option.map (Tree.prepend pos t) <$> answer text env (.repeated r .zeroOrMore) t.stop := by
  refine answer_eq_bind (fun frames ↦ fun
    | none => .ok none
    | some t => Option.map (Tree.prepend pos t) <$>
        eval text.toArray (frames + 1) env (.repeated r .zeroOrMore) t.stop) ?_ ?_
  · intro frames
    rw [eval_oneOrMore]
    rcases eval text.toArray frames env r pos with halt | _ | t
    · rfl
    · rfl
    · simp only [Except.ok_bind, eval_zeroOrMore]
      rcases evalChain text.toArray frames env r t.stop with halt | ⟨ts, stop⟩ <;> rfl
  · rintro (_ | t)
    · exact .of_forall fun _ ↦ rfl
    · filter_upwards [eventually_succ_iff.mpr
        (eventually_eval_eq_answer text env (.repeated r .zeroOrMore) t.stop)] with frames ran
      simp only [ran]

end Operators

/-! ## Where answers stop -/

/-- Where the answer of a rule stops. -/
noncomputable def answerStop (text : Text) (env : Option Grammar) (r : Rule) (pos : Nat) :
    Except Halt (Option Nat) :=
  stopOf (answer text env r pos)

theorem eventually_stopOf_eval (text : Text) (env : Option Grammar) (r : Rule) (pos : Nat) :
    ∀ᶠ frames in atTop,
      stopOf (eval text.toArray frames env r pos) = answerStop text env r pos := by
  filter_upwards [eventually_eval_eq_answer text env r pos] with frames ran
  rw [ran, answerStop]

/-- Rules whose answers stop at one position stop there for a caller. -/
theorem sameStops_of_answerStop_eq {text : Text} {env : Option Grammar} {r r' : Rule} {pos : Nat}
    (h : answerStop text env r pos = answerStop text env r' pos) :
    SameStops text env pos r r' := by
  intro o answers
  calc (∃ frames, stopOf (eval text.toArray frames env r pos) = o)
    _ ↔ answerStop text env r pos = o := exists_map_eval_iff rfl answers
    _ ↔ answerStop text env r' pos = o := by rw [h]
    _ ↔ ∃ frames, stopOf (eval text.toArray frames env r' pos) = o :=
      (exists_map_eval_iff rfl answers).symm

/-- Where something stops that goes on from an outcome depends on where the outcome stops, if what
it goes on with does. -/
theorem stopOf_bind {o : Except Halt (Option Tree)} {next : Option Tree → Except Halt (Option Tree)}
    {next' : Option Nat → Except Halt (Option Nat)}
    (h : ∀ found, stopOf (next found) = next' (found.map Tree.stop)) :
    stopOf (o >>= next) = stopOf o >>= next' := by
  cases o with
  | error halt => rfl
  | ok found => exact h found

theorem stopOf_map_prepend (pos : Nat) (t : Tree) (o : Except Halt (Option Tree)) :
    stopOf (Option.map (Tree.prepend pos t) <$> o) = stopOf o := by
  rcases o with halt | _ | others <;> rfl

section Stops

variable (text : Text) (env : Option Grammar) (pos : Nat)

theorem answerStop_followedBy (r : Rule) : answerStop text env (.followedBy r) pos =
    answerStop text env r pos >>= fun
      | some _ => .ok (some pos)
      | none => .ok none := by
  rw [answerStop, answer_followedBy]
  exact stopOf_bind fun found ↦ by cases found <;> rfl

theorem answerStop_notFollowedBy (r : Rule) : answerStop text env (.notFollowedBy r) pos =
    answerStop text env r pos >>= fun
      | some _ => .ok none
      | none => .ok (some pos) := by
  rw [answerStop, answer_notFollowedBy]
  exact stopOf_bind fun found ↦ by cases found <;> rfl

theorem answerStop_optional (r : Rule) : answerStop text env (.repeated r .optional) pos =
    answerStop text env r pos >>= fun
      | some stop => .ok (some stop)
      | none => .ok (some pos) := by
  rw [answerStop, answer_optional]
  exact stopOf_bind fun found ↦ by cases found <;> rfl

theorem answerStop_sequence_nil : answerStop text env (.sequence []) pos = .ok (some pos) := by
  rw [answerStop, answer_sequence_nil]
  rfl

theorem answerStop_sequence_cons (r : Rule) (rest : List Rule) :
    answerStop text env (.sequence (r :: rest)) pos =
      answerStop text env r pos >>= fun
        | none => .ok none
        | some stop => answerStop text env (.sequence rest) stop := by
  rw [answerStop, answer_sequence_cons]
  apply stopOf_bind
  rintro (_ | t)
  · rfl
  · exact stopOf_map_prepend pos t _

theorem answerStop_choice_nil : answerStop text env (.choice []) pos = .ok none := by
  rw [answerStop, answer_choice_nil]
  rfl

theorem answerStop_choice_cons (r : Rule) (rest : List Rule) :
    answerStop text env (.choice (r :: rest)) pos =
      answerStop text env r pos >>= fun
        | some stop => .ok (some stop)
        | none => answerStop text env (.choice rest) pos := by
  rw [answerStop, answer_choice_cons]
  exact stopOf_bind fun found ↦ by cases found <;> rfl

theorem answerStop_oneOrMore (r : Rule) : answerStop text env (.repeated r .oneOrMore) pos =
    answerStop text env r pos >>= fun
      | none => .ok none
      | some stop => answerStop text env (.repeated r .zeroOrMore) stop := by
  rw [answerStop, answer_oneOrMore]
  apply stopOf_bind
  rintro (_ | t)
  · rfl
  · exact stopOf_map_prepend pos t _

end Stops

end Peg
