import Peg.Match
import Peg.Proofs.Evaluation.Adequacy
import Peg.Proofs.Grammar.Closed

/-!
# Runs in closed grammars

A run in closed grammars never leaves them. Each rule that it comes to is part of a rule of one of
the grammars and runs in that grammar, so its references find their slots, and where a bound rule
switches to another grammar that one is closed as well. All that can go wrong is that the frames run
out, or that a quantifier without a meaning was put in by hand.
-/

namespace Peg

open Except

variable {symbols : Text → Prop} {gs : List Grammar}

/-- The grammars are closed and no older one that is bound in them is missing. -/
def SelfContained (symbols : Text → Prop) (gs : List Grammar) : Prop :=
  ∀ g ∈ gs, ∃ earlier, (∀ g' ∈ earlier, g' ∈ gs) ∧ g.Closed symbols earlier

namespace SelfContained

variable {g : Grammar}

/-- A slot of one of the grammars is not empty. -/
theorem exists_rule (h : SelfContained symbols gs) (mem : g ∈ gs) {slot : Nat}
    (lt : slot < g.size) : ∃ r, g.ruleAt? slot = some r := by
  obtain ⟨earlier, -, closed⟩ := h g mem
  rw [← closed.length_rules] at lt
  exact ⟨g.rules[slot], List.getElem?_eq_getElem lt⟩

/-- The rules of the grammars are made of these grammars. -/
theorem composedOf (h : SelfContained symbols gs) :
    ∀ g ∈ gs, ∀ r ∈ g.rules, r.ComposedOf symbols gs := by
  intro g mem r mem'
  obtain ⟨earlier, sub, closed⟩ := h g mem
  exact (closed.composedOf r mem').mono sub

/-- A grammar that is closed over the others can be added to them. -/
theorem cons (h : SelfContained symbols gs) (closed : g.Closed symbols gs) :
    SelfContained symbols (g :: gs) := by
  intro g' mem
  rcases List.mem_cons.mp mem with rfl | mem
  · exact ⟨gs, fun _ ↦ List.mem_cons_of_mem g', closed⟩
  · obtain ⟨earlier, sub, closed'⟩ := h g' mem
    exact ⟨earlier, fun _ mem' ↦ List.mem_cons_of_mem g (sub _ mem'), closed'⟩

end SelfContained

/-! ## Where rules can run -/

namespace Rule

/-- The references in a rule find their slots in the grammar at hand, and the rule is made of the
given grammars. -/
structure RunsIn (symbols : Text → Prop) (gs : List Grammar) (env : Option Grammar) (r : Rule) :
    Prop where
  /-- The grammar at hand, if any, is one of the grammars. -/
  env_mem : ∀ g, env = some g → g ∈ gs
  /-- A reference finds a rule. -/
  reference : ∀ name slot, PartOf (.reference name slot) r →
    ∃ g n r', env = some g ∧ slot = some n ∧ g.ruleAt? n = some r'
  /-- Bound rules and unknown quantifiers are given ones. -/
  composedOf : r.ComposedOf symbols gs

namespace RunsIn

variable {env : Option Grammar} {g : Grammar} {r : Rule}

/-- What is part of a rule runs where the rule does. -/
theorem of_part {part : Rule} (h : r.RunsIn symbols gs env) (h' : PartOf part r) :
    part.RunsIn symbols gs env where
  env_mem := h.env_mem
  reference name slot part := h.reference name slot (part.trans h')
  composedOf := h.composedOf.of_part h'

/-- A repetition of a known kind runs where its inner rule does. -/
theorem zeroOrMore (h : r.RunsIn symbols gs env) :
    (Rule.repeated r .zeroOrMore).RunsIn symbols gs env where
  env_mem := h.env_mem
  reference name slot part :=
    h.reference name slot ((partOf_repeated_iff.mp part).resolve_left nofun)
  composedOf := h.composedOf.repeated nofun

theorem of_mem_rules (closed : SelfContained symbols gs) (mem : g ∈ gs) (mem' : r ∈ g.rules) :
    r.RunsIn symbols gs (some g) := by
  refine ⟨?_, ?_, closed.composedOf g mem r mem'⟩
  · rintro _ ⟨⟩
    exact mem
  · intro name slot part
    obtain ⟨earlier, -, closed'⟩ := closed g mem
    obtain ⟨n, rfl, named⟩ := closed'.linkedTo r mem' name slot part
    obtain ⟨lt, -⟩ := List.getElem?_eq_some_iff.mp named
    obtain ⟨r', found⟩ := closed.exists_rule mem lt
    exact ⟨g, n, r', rfl, rfl, found⟩

/-- A rule that is bound to one of the grammars runs anywhere. -/
theorem bound {slot : Nat} (mem : g ∈ gs) (lt : slot < g.size) :
    (Rule.bound g slot).RunsIn symbols gs none where
  env_mem := nofun
  reference := by simp
  composedOf := .boundTo mem lt

end RunsIn

end Rule

/-! ## What can go wrong -/

/-- A rule that runs in closed grammars halts at nothing but unknown quantifiers. -/
theorem Yields.unknownQuantifier {text : Text} {env : Option Grammar} {r : Rule} {pos : Nat}
    {o : Except Halt (Option Tree)} {halt : Halt} (h : Yields text env r pos o)
    (closed : SelfContained symbols gs) (runs : r.RunsIn symbols gs env)
    (halts : o = .error halt) :
    ∃ symbol, symbols symbol ∧ halt = .unknownQuantifier symbol := by
  induction h with
  | literal | literal_fails | charRange | charRange_fails | anyChar | anyChar_fails | followedBy
  | notFollowedBy | notFollowedBy_fails | sequence | choice_fails | optional_empty | zeroOrMore
  | oneOrMore => cases halts
  | @reference g _ _ _ _ _ found _ ih =>
      have mem : g ∈ gs := runs.env_mem g rfl
      exact ih (.of_mem_rules closed mem (Grammar.mem_rules_of_ruleAt? found)) halts
  | @reference_missing g name slot _ missing =>
      obtain ⟨_, _, r', ⟨⟩, ⟨⟩, found⟩ := runs.reference name slot .refl
      rw [missing] at found
      cases found
  | @reference_unresolved _ name slot _ unresolved =>
      obtain ⟨_, _, r', rfl, rfl, -⟩ := runs.reference name slot .refl
      rcases unresolved with unlinked | outside
      · cases unlinked
      · cases outside
  | @bound _ g slot _ _ _ found _ ih =>
      obtain ⟨mem, -⟩ := runs.composedOf.bound g slot .refl
      exact ih (.of_mem_rules closed mem (Grammar.mem_rules_of_ruleAt? found)) halts
  | @bound_missing _ g slot _ missing =>
      obtain ⟨mem, lt⟩ := runs.composedOf.bound g slot .refl
      obtain ⟨r', found⟩ := closed.exists_rule mem lt
      rw [missing] at found
      cases found
  | followedBy_stops _ _ ih => exact ih (runs.of_part (.followedBy .refl)) halts
  | notFollowedBy_halts _ ih => exact ih (runs.of_part (.notFollowedBy .refl)) halts
  | sequence_stops item _ _ _ _ _ ih =>
      exact ih (runs.of_part (.sequence (List.mem_of_getElem? item) .refl)) halts
  | choice chosen _ _ _ _ ih =>
      exact ih (runs.of_part (.choice (List.mem_of_getElem? chosen) .refl)) halts
  | «optional» _ _ ih => exact ih (runs.of_part (.repeated .refl _)) halts
  | zeroOrMore_halts _ _ _ _ _ ih => exact ih (runs.of_part (.repeated .refl _)) halts
  | oneOrMore_stops _ _ ih => exact ih (runs.of_part (.repeated .refl _)) halts
  | oneOrMore_halts _ _ _ ih => exact ih (runs.of_part (.repeated .refl _)).zeroOrMore halts
  | unknown =>
      cases halts
      exact ⟨_, runs.composedOf.unknown _ _ .refl, rfl⟩

namespace MatchError

/-- An error that a run in closed grammars may end with: the frames run out, or a quantifier that
means nothing has one of the given symbols. -/
def Tolerated (symbols : Text → Prop) : MatchError → Prop
  | halted .outOfFrames => True
  | halted (.unknownQuantifier symbol) => symbols symbol
  | _ => False

end MatchError

namespace Rule

variable {frames : Nat} {r : Rule} {text : Text} {e : MatchError}

/-- Within the text, a rule that runs in closed grammars has no other errors. -/
theorem tolerated_of_evaluate {pos : Int} (closed : SelfContained symbols gs)
    (runs : r.RunsIn symbols gs none) (pos_nonneg : 0 ≤ pos) (pos_le : pos ≤ text.length)
    (h : r.evaluate frames text pos = .error e) : e.Tolerated symbols := by
  rw [evaluate, if_pos ⟨pos_nonneg, pos_le⟩] at h
  rcases ran : eval text.toArray frames none r pos.toNat with halt | found
  · rw [ran] at h
    cases h
    by_cases out : halt = .outOfFrames
    · rw [out]
      trivial
    · have yields := yields_of_eval ran fun same ↦ out (Except.error.inj same)
      obtain ⟨symbol, given, rfl⟩ := yields.unknownQuantifier closed runs rfl
      exact given
  · rw [ran] at h
    cases h

/-- A rule gives no stretch because it fails, or because it gives no answer at all. -/
theorem evaluate_of_parse (h : r.parse frames text = .error e) :
    e = .noMatch ∨ r.evaluate frames text 0 = .error e := by
  rcases bind_eq_error_iff.mp h with h | ⟨found, -, h⟩
  · exact .inr h
  · split at h
    next => cases h
    next =>
      cases h
      exact .inl rfl

/-- A rule does not give the whole text because it fails or stops before its end, or because it
gives no answer at all. -/
theorem evaluate_of_parseAll (h : r.parseAll frames text = .error e) :
    e = .noMatch ∨ r.evaluate frames text 0 = .error e := by
  rcases bind_eq_error_iff.mp h with h | ⟨found, -, h⟩
  · exact .inr h
  · split at h
    next =>
      split at h
      next => cases h
      next =>
        cases h
        exact .inl rfl
    next =>
      cases h
      exact .inl rfl

/-- It is not known whether a rule matches because it gives no answer. -/
theorem evaluate_of_accepts (h : r.accepts frames text = .error e) :
    r.evaluate frames text 0 = .error e := by
  rcases bind_eq_error_iff.mp h with h | ⟨found, -, h⟩
  · exact h
  · cases h

/-- It is not known whether a rule matches the whole text because it gives no answer. -/
theorem evaluate_of_acceptsAll (h : r.acceptsAll frames text = .error e) :
    r.evaluate frames text 0 = .error e := by
  rcases bind_eq_error_iff.mp h with h | ⟨found, -, h⟩
  · exact h
  · split at h
    next => cases h
    next => cases h

end Rule

end Peg
