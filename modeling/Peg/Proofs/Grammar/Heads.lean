import Mathlib.Data.Fintype.Pigeonhole
import Mathlib.Data.Set.Finite.List
import Peg.Proofs.Evaluation.Calls
import Peg.Proofs.Grammar.Family

/-!
# Heads

The *head* of a rule is the rule that it runs first, at the position where it runs itself, whatever
the text is. No rule decides anything before its head has. So where following the heads never ends,
no number of frames is enough, and it makes no difference that an option succeeds when its rule
fails or that a negative lookahead turns failures into successes: the rule never gets that far.

There are finitely many rules that heads lead to, and so the chain of heads ends or comes back to a
rule that it has passed.
-/

namespace Peg

/-- A rule and the grammar that its references are looked up in, if there is one. -/
structure Site where
  /-- The grammar at hand. -/
  env : Option Grammar
  /-- The rule that runs. -/
  rule : Rule

namespace Site

/-- The rule that a rule runs first at its own position. A repetition whose quantifier means nothing
runs no rule, nor does a sequence or a choice of none. -/
def head? : Site → Option Site
  | ⟨_, .repeated _ (.unknown _)⟩ => none
  | ⟨env, .repeated r _⟩ => some ⟨env, r⟩
  | ⟨env, .followedBy r⟩ => some ⟨env, r⟩
  | ⟨env, .notFollowedBy r⟩ => some ⟨env, r⟩
  | ⟨env, .sequence (r :: _)⟩ => some ⟨env, r⟩
  | ⟨env, .choice (r :: _)⟩ => some ⟨env, r⟩
  | ⟨some g, .reference _ (some slot)⟩ => (g.ruleAt? slot).map (mk (some g))
  | ⟨_, .bound g slot⟩ => (g.ruleAt? slot).map (mk (some g))
  | _ => none

/-- Where the heads lead to in some number of steps. -/
def follow : Nat → Site → Option Site
  | 0, v => some v
  | n + 1, v => v.head?.bind (follow n)

/-- Following the heads never ends. -/
def Endless (v : Site) : Prop := ∀ n, (v.follow n).isSome = true

def run (text : Text) (frames : Nat) (v : Site) : Matcher :=
  eval text.toArray frames v.env v.rule

variable {v w : Site}

/-! ## No rule decides before its head -/

/-- If the head runs out of frames with fewer frames, so does the rule. -/
theorem run_succ_of_head (head : v.head? = some w) {text : Text} {frames pos : Nat}
    (out : ∀ fewer ≤ frames, w.run text fewer pos = .error .outOfFrames) :
    v.run text (frames + 1) pos = .error .outOfFrames := by
  unfold run at out ⊢
  have now := out frames (Nat.le_refl frames)
  unfold head? at head
  split at head
  next => cases head
  next env r quantifier known =>
    cases head
    cases quantifier with
    | «optional» => rw [eval_optional, now]; rfl
    | zeroOrMore =>
        -- The loop takes one of the frames.
        rw [eval_zeroOrMore]
        cases frames with
        | zero => rfl
        | succ frames =>
            rw [evalChain_succ, roundsFrom, chain, out frames (Nat.le_succ frames)]
            rfl
    | oneOrMore => rw [eval_oneOrMore, now]; rfl
    | unknown symbol => exact (known symbol rfl).elim
  next => cases head; rw [eval_followedBy, now]; rfl
  next => cases head; rw [eval_notFollowedBy, now]; rfl
  next => cases head; rw [eval_sequence, inSequence, now]; rfl
  next => cases head; rw [eval_choice, firstOf, now]; rfl
  next g name slot =>
    obtain ⟨r, found, rfl⟩ := Option.map_eq_some_iff.mp head
    rw [eval_reference, resolve, ruleIn, found]
    exact now
  next g slot =>
    obtain ⟨r, found, rfl⟩ := Option.map_eq_some_iff.mp head
    rw [eval_bound, ruleIn, found]
    exact now
  next => cases head

/-! ## Following heads -/

theorem follow_add (m n : Nat) (v : Site) : v.follow (m + n) = (v.follow m).bind (follow n) := by
  induction m generalizing v with
  | zero => rw [Nat.zero_add, follow, Option.bind_some]
  | succ m ih =>
      rw [Nat.add_right_comm, follow, follow]
      cases v.head? with
      | none => rfl
      | some w => exact ih w

theorem isSome_follow_of_le {m n : Nat} (le : m ≤ n) (h : (v.follow n).isSome = true) :
    (v.follow m).isSome = true := by
  obtain ⟨k, rfl⟩ := Nat.exists_eq_add_of_le le
  rw [follow_add] at h
  exact Option.isSome_of_isSome_bind h

/-- Where following the heads never ends there is a head from which it never ends. -/
theorem Endless.exists_head (h : v.Endless) : ∃ w, v.head? = some w ∧ w.Endless := by
  rcases head : v.head? with _ | w
  · have ends := h 1
    rw [follow, head] at ends
    cases ends
  · refine ⟨w, rfl, fun n ↦ ?_⟩
    have onward := h (n + 1)
    rwa [follow, head] at onward

theorem Endless.run_eq (h : v.Endless) (text : Text) (frames pos : Nat) :
    v.run text frames pos = .error .outOfFrames := by
  induction frames using Nat.strong_induction_on generalizing v with
  | _ frames ih =>
      cases frames with
      | zero => rfl
      | succ frames =>
          obtain ⟨w, head, endless⟩ := h.exists_head
          exact run_succ_of_head head fun fewer le ↦ ih fewer (Nat.lt_succ_of_le le) endless

/-! ## Coming back -/

/-- The heads come back to a rule that they have passed. -/
def ComesBack (v : Site) : Prop :=
  ∃ i j w, i < j ∧ v.follow i = some w ∧ v.follow j = some w

/-- Heads that come back go on forever. -/
theorem ComesBack.endless (h : v.ComesBack) : v.Endless := by
  obtain ⟨i, j, w, lt, first, again⟩ := h
  obtain ⟨d, rfl⟩ := Nat.exists_eq_add_of_lt lt
  have around : w.follow (d + 1) = some w := by
    rwa [Nat.add_assoc, follow_add, first, Option.bind_some] at again
  have rounds : ∀ n, w.follow (n * (d + 1)) = some w := by
    intro n
    induction n with
    | zero => rw [Nat.zero_mul, follow]
    | succ n ih => rw [Nat.succ_mul, follow_add, ih, Option.bind_some, around]
  intro n
  have far : v.follow (i + n * (d + 1)) = some w := by
    rw [follow_add, first, Option.bind_some, rounds n]
  have enough : n ≤ i + n * (d + 1) :=
    (Nat.le_mul_of_pos_right n d.succ_pos).trans (Nat.le_add_left _ i)
  exact isSome_follow_of_le enough (far ▸ rfl)

/-! ## Finitely many heads -/

/-- The grammar at hand and the grammars that can be entered from it or from the rule. -/
def grammars (v : Site) : List Grammar := v.env.toList.flatMap Rule.enteredIn ++ v.rule.entered

/-- The parts of the rule, and the nodes of the grammars that it can get to. -/
def around (v : Site) : List Site :=
  v.rule.parts.map (mk v.env) ++ v.grammars.flatMap fun g ↦ g.nodes.map (mk (some g))

theorem mem_grammars_iff {g : Grammar} : g ∈ v.grammars ↔
    (∃ h, v.env = some h ∧ g ∈ Rule.enteredIn h) ∨ g ∈ v.rule.entered := by
  simp [grammars]

/-- Around a rule stand its parts in the same grammar and the nodes of the grammars that it can get
to. -/
theorem mem_around_iff : w ∈ v.around ↔ (w.env = v.env ∧ Rule.PartOf w.rule v.rule) ∨
    ∃ g ∈ v.grammars, w.env = some g ∧ ∃ r ∈ g.rules, Rule.PartOf w.rule r := by
  rw [around, List.mem_append, List.mem_map, List.mem_flatMap]
  constructor
  · rintro (⟨part, mem, rfl⟩ | ⟨g, mem, inside⟩)
    · exact .inl ⟨rfl, Rule.mem_parts_iff.mp mem⟩
    · obtain ⟨part, node, rfl⟩ := List.mem_map.mp inside
      exact .inr ⟨g, mem, rfl, Grammar.mem_nodes_iff.mp node⟩
  · rintro (⟨env, part⟩ | ⟨g, mem, env, node⟩)
    · exact .inl ⟨w.rule, Rule.mem_parts_iff.mpr part, by rw [← env]⟩
    · refine .inr ⟨g, mem, List.mem_map.mpr ⟨w.rule, Grammar.mem_nodes_iff.mpr node, ?_⟩⟩
      rw [← env]

theorem mem_grammars_of_entered {g h : Grammar} (mem : g ∈ v.grammars)
    (mem' : h ∈ Rule.enteredIn g) : h ∈ v.grammars := by
  rcases mem_grammars_iff.mp mem with ⟨g', env, entered⟩ | entered
  · exact mem_grammars_iff.mpr (.inl ⟨g', env, @Rule.entered_trans (.bound g' 0) g h entered mem'⟩)
  · exact mem_grammars_iff.mpr (.inr (Rule.entered_trans entered mem'))

/-- A head is a part of the rule in the same grammar, or a rule of the grammar at hand or of the one
that the rule is bound to. -/
theorem part_or_mem_of_head (head : v.head? = some w) :
    (w.env = v.env ∧ Rule.PartOf w.rule v.rule) ∨
      ∃ g, (v.env = some g ∨ ∃ slot, v.rule = .bound g slot) ∧ w.env = some g ∧
        w.rule ∈ g.rules := by
  unfold head? at head
  split at head
  next => cases head
  next => cases head; exact .inl ⟨rfl, .repeated .refl _⟩
  next => cases head; exact .inl ⟨rfl, .followedBy .refl⟩
  next => cases head; exact .inl ⟨rfl, .notFollowedBy .refl⟩
  next => cases head; exact .inl ⟨rfl, .sequence List.mem_cons_self .refl⟩
  next => cases head; exact .inl ⟨rfl, .choice List.mem_cons_self .refl⟩
  next g name slot =>
    obtain ⟨r, found, rfl⟩ := Option.map_eq_some_iff.mp head
    exact .inr ⟨g, .inl rfl, rfl, Grammar.mem_rules_of_ruleAt? found⟩
  next g slot =>
    obtain ⟨r, found, rfl⟩ := Option.map_eq_some_iff.mp head
    exact .inr ⟨g, .inr ⟨slot, rfl⟩, rfl, Grammar.mem_rules_of_ruleAt? found⟩
  next => cases head

/-- Heads do not leave what is around a rule. -/
theorem mem_around_of_head {u : Site} (mem : u ∈ v.around) (head : u.head? = some w) :
    w ∈ v.around := by
  rw [mem_around_iff] at mem ⊢
  rcases part_or_mem_of_head head with ⟨env, part⟩ | ⟨g, stands, env, mem'⟩
  · rw [env]
    rcases mem with ⟨same, whole⟩ | ⟨g, inside, same, r, mem', whole⟩
    · exact .inl ⟨same, part.trans whole⟩
    · exact .inr ⟨g, inside, same, r, mem', part.trans whole⟩
  · refine .inr ⟨g, ?_, env, w.rule, mem', .refl⟩
    have self : g ∈ Rule.enteredIn g := Rule.mem_enteredIn_iff.mpr (.inl rfl)
    rcases stands with here | ⟨slot, bound⟩
    · rcases mem with ⟨same, -⟩ | ⟨h, inside, same, -⟩
      · exact mem_grammars_iff.mpr (.inl ⟨g, same.symm.trans here, self⟩)
      · cases here.symm.trans same
        exact inside
    · have entered : ∀ {r}, Rule.PartOf u.rule r → g ∈ r.entered := by
        intro r part
        rw [bound] at part
        exact Rule.entered_of_part part self
      rcases mem with ⟨-, part⟩ | ⟨h, inside, -, r, mem, part⟩
      · exact mem_grammars_iff.mpr (.inr (entered part))
      · exact mem_grammars_of_entered inside
          (Rule.mem_enteredIn_iff.mpr (.inr ⟨r, mem, entered part⟩))

theorem mem_around_of_follow {n : Nat} (h : v.follow n = some w) : w ∈ v.around := by
  have onward : ∀ {u : Site}, u ∈ v.around → u.follow n = some w → w ∈ v.around := by
    clear h
    intro u mem reached
    induction n generalizing u with
    | zero =>
        cases reached
        exact mem
    | succ n ih =>
        obtain ⟨u', head, onward⟩ := Option.bind_eq_some_iff.mp reached
        exact ih (mem_around_of_head mem head) onward
  exact onward (mem_around_iff.mpr (.inl ⟨rfl, .refl⟩)) h

theorem Endless.comesBack (h : v.Endless) : v.ComesBack := by
  have reached : ∀ n, ∃ w : {w // w ∈ v.around}, v.follow n = some w.1 := by
    intro n
    obtain ⟨w, found⟩ := Option.isSome_iff_exists.mp (h n)
    exact ⟨⟨w, mem_around_of_follow found⟩, found⟩
  choose step found using reached
  have finite : Finite {w // w ∈ v.around} := v.around.finite_toSet
  obtain ⟨i, j, differ, same⟩ := Finite.exists_ne_map_eq_of_infinite step
  rcases Nat.lt_or_gt_of_ne differ with lt | gt
  · exact ⟨i, j, (step i).1, lt, found i, same ▸ found j⟩
  · exact ⟨j, i, (step j).1, gt, found j, same ▸ found i⟩

/-! ## Unconditional left recursion -/

/-- Following the heads never ends exactly if it comes back to a rule that it has passed. Then the
rule gives no answer: on every text, from every position of it and with every number of frames it
runs out of frames, and if there is no limit it has no outcome. -/
theorem endless_never_answers (v : Site) :
    (v.Endless ↔ v.ComesBack) ∧
    (v.Endless → ∀ text : Text, ∀ pos ≤ text.length,
      (∀ frames, eval text.toArray frames v.env v.rule pos = .error .outOfFrames) ∧
      (∀ o, ¬ Yields text v.env v.rule pos o) ∧
      (v.env = none → ∀ frames,
        v.rule.evaluate frames text pos = .error (.halted .outOfFrames))) := by
  refine ⟨⟨Endless.comesBack, ComesBack.endless⟩, fun endless text pos within ↦ ?_⟩
  have out : ∀ frames, eval text.toArray frames v.env v.rule pos = .error .outOfFrames :=
    fun frames ↦ endless.run_eq text frames pos
  refine ⟨out, fun o yields ↦ ?_, fun outside frames ↦ ?_⟩
  · obtain ⟨frames, ran⟩ := (eventually_eval_of_yields yields).exists
    exact ne_outOfFrames_of_yields yields (ran.symm.trans (out frames))
  · have none := out frames
    rw [outside] at none
    rw [Rule.evaluate_natCast frames v.rule within, none]
    rfl

/-- The heads go through a repetition and into an embedded grammar, and run there in a circle
through an option and a negative lookahead. -/
theorem endless_never_answers_embedded : ∃ (older newer : Grammar) (r : Rule),
    Grammar.build 0 [(.text "A", .rule (.choice [.notFollowedBy (.sequence [.reference "B" none,
      .literal "x"]), .literal "b"])),
      (.text "B", .rule (.repeated (.reference "A" none) .optional))] .null = .ok older ∧
    Grammar.build 1 [(.text "S", .rule (.sequence [.repeated (.bound older 1) .zeroOrMore,
      .literal "c"]))] .null = .ok newer ∧
    newer.rule (.text "S") = .ok r ∧
    ∀ frames, r.evaluate frames "abc" 2 = .error (.halted .outOfFrames) := by
  refine ⟨_, _, _, rfl, rfl, rfl, ?_⟩
  obtain ⟨forever, never⟩ := endless_never_answers ⟨none, .bound _ 0⟩
  exact (never (forever.mpr ⟨4, 10, _, by decide, rfl, rfl⟩) "abc" 2 (by decide)).2.2 rfl

end Site

end Peg
