import Peg.Evaluate

/-!
# The meaning of rules

What a rule does at a position of a text, said without loops, frames or an order of evaluation: it
yields a tree, it fails, or it has no answer because something in it has no meaning (a reference
outside of a grammar, a slot that does not exist, an unknown quantifier). A rule that calls itself
forever yields nothing at all.

Rules in sequence and repeated rules are described by the *row* of trees that they yield: there are
positions `p 0`, `p 1`, … such that the tree with number `k` is yielded at `p k` and stops at
`p (k + 1)`.
-/

namespace Peg

/-- The text stands in another one from a position on. -/
def Text.StandsIn (t text : Text) (pos : Nat) : Prop :=
  ∃ before after, before.length = pos ∧ text = before ++ t ++ after

/-- The trees lie one behind the other: the one with number `k` stops at `p (k + 1)`. -/
def Consecutive (p : Nat → Nat) (ts : List Tree) : Prop :=
  ∀ k t, ts[k]? = some t → t.stop = p (k + 1)

/-- An outcome other than a tree: a failure or a halt. -/
def NoTree (o : Except Halt (Option Tree)) : Prop := ∀ t, o ≠ .ok (some t)

/-- A failure is no tree. -/
@[simp] theorem noTree_failure : NoTree (.ok none) := fun _ h ↦ by cases h

/-- A halt is no tree. -/
@[simp] theorem noTree_error (halt : Halt) : NoTree (.error halt) := fun _ h ↦ by cases h

/-- An outcome other than a tree is a failure or a halt. -/
theorem noTree_iff {o : Except Halt (Option Tree)} :
    NoTree o ↔ o = .ok none ∨ ∃ halt, o = .error halt := by
  constructor
  · intro noTree
    rcases o with halt | _ | t
    · exact .inr ⟨halt, rfl⟩
    · exact .inl rfl
    · exact absurd rfl (noTree t)
  · rintro (rfl | ⟨halt, rfl⟩)
    · exact noTree_failure
    · exact noTree_error halt

/-- `Yields text env r pos o`: in the grammar `env`, if any, the rule `r` yields the outcome `o` at
a position of a text. The outcome is a tree, a failure or a halt. -/
inductive Yields (text : Text) :
    Option Grammar → Rule → Nat → Except Halt (Option Tree) → Prop where
  /-- A literal yields the stretch where it stands. -/
  | literal {env t pos} (stands : t.StandsIn text pos) :
      Yields text env (.literal t) pos (.ok (some (.leaf pos (pos + t.length))))
  /-- A literal fails where it does not stand. -/
  | literal_fails {env t pos} (absent : ¬ t.StandsIn text pos) :
      Yields text env (.literal t) pos (.ok none)
  /-- A class yields the character there if it lies in one of the ranges. -/
  | charRange {env ranges pos c range} (here : text[pos]? = some c) (mem : range ∈ ranges)
      (low : range.low ≤ c) (high : c ≤ range.high) :
      Yields text env (.charRange ranges) pos (.ok (some (.leaf pos (pos + 1))))
  /-- A class fails at the end and at a character in none of its ranges. -/
  | charRange_fails {env ranges pos}
      (absent : ∀ c range, text[pos]? = some c → range ∈ ranges →
        ¬ (range.low ≤ c ∧ c ≤ range.high)) :
      Yields text env (.charRange ranges) pos (.ok none)
  /-- Any character will do. -/
  | anyChar {env pos} (here : pos < text.length) :
      Yields text env .anyChar pos (.ok (some (.leaf pos (pos + 1))))
  /-- At the end there is no character. -/
  | anyChar_fails {env pos} (past : text.length ≤ pos) : Yields text env .anyChar pos (.ok none)
  /-- A linked reference yields what the rule in its slot yields, in the same grammar. -/
  | reference {g : Grammar} {name slot r pos o} (found : g.ruleAt? slot = some r)
      (body : Yields text (some g) r pos o) :
      Yields text (some g) (.reference name (some slot)) pos o
  /-- A reference to a slot that does not exist halts. -/
  | reference_missing {g : Grammar} {name slot pos} (missing : g.ruleAt? slot = none) :
      Yields text (some g) (.reference name (some slot)) pos (.error (.missingSlot slot))
  /-- A reference that is not linked or is outside of a grammar halts. -/
  | reference_unresolved {env name slot pos} (unresolved : slot = none ∨ env = none) :
      Yields text env (.reference name slot) pos (.error (.unresolved name))
  /-- A bound rule yields what the rule in its slot yields in its own grammar. -/
  | bound {env} {g : Grammar} {slot : Nat} {r pos o} (found : g.ruleAt? slot = some r)
      (body : Yields text (some g) r pos o) : Yields text env (.bound g slot) pos o
  /-- A bound rule in a slot that does not exist halts. -/
  | bound_missing {env} {g : Grammar} {slot : Nat} {pos} (missing : g.ruleAt? slot = none) :
      Yields text env (.bound g slot) pos (.error (.missingSlot slot))
  /-- Positive lookahead keeps the tree and consumes nothing. -/
  | followedBy {env r pos t} (ahead : Yields text env r pos (.ok (some t))) :
      Yields text env (.followedBy r) pos (.ok (some ⟨pos, pos, [t]⟩))
  /-- Positive lookahead fails or halts like its rule. -/
  | followedBy_stops {env r pos o} (stops : Yields text env r pos o) (noTree : NoTree o) :
      Yields text env (.followedBy r) pos o
  /-- Negative lookahead consumes nothing where its rule fails. -/
  | notFollowedBy {env r pos} (ahead : Yields text env r pos (.ok none)) :
      Yields text env (.notFollowedBy r) pos (.ok (some (.leaf pos pos)))
  /-- Negative lookahead fails where its rule yields a tree. -/
  | notFollowedBy_fails {env r pos t} (ahead : Yields text env r pos (.ok (some t))) :
      Yields text env (.notFollowedBy r) pos (.ok none)
  /-- Negative lookahead halts where its rule does. -/
  | notFollowedBy_halts {env r pos halt} (ahead : Yields text env r pos (.error halt)) :
      Yields text env (.notFollowedBy r) pos (.error halt)
  /-- Rules in sequence yield a row of trees, one each. -/
  | sequence {env items ts} {p : Nat → Nat} (all : ts.length = items.length)
      (next : Consecutive p ts)
      (each : ∀ k r t, items[k]? = some r → ts[k]? = some t →
        Yields text env r (p k) (.ok (some t))) :
      Yields text env (.sequence items) (p 0) (.ok (some ⟨p 0, p items.length, ts⟩))
  /-- Rules in sequence fail or halt with the first one that does. -/
  | sequence_stops {env items ts r o} {p : Nat → Nat} (item : items[ts.length]? = some r)
      (next : Consecutive p ts)
      (each : ∀ k r t, items[k]? = some r → ts[k]? = some t →
        Yields text env r (p k) (.ok (some t)))
      (stops : Yields text env r (p ts.length) o) (noTree : NoTree o) :
      Yields text env (.sequence items) (p 0) o
  /-- A choice yields what its first alternative that does not fail yields. -/
  | choice {env alternatives r pos o} {k : Nat} (chosen : alternatives[k]? = some r)
      (before : ∀ j s, j < k → alternatives[j]? = some s → Yields text env s pos (.ok none))
      (taken : Yields text env r pos o) (noFailure : o ≠ .ok none) :
      Yields text env (.choice alternatives) pos o
  /-- A choice fails when all its alternatives do. -/
  | choice_fails {env alternatives pos}
      (all : ∀ s ∈ alternatives, Yields text env s pos (.ok none)) :
      Yields text env (.choice alternatives) pos (.ok none)
  /-- An option yields what its rule does unless that fails. -/
  | optional {env r pos o} (body : Yields text env r pos o) (noFailure : o ≠ .ok none) :
      Yields text env (.repeated r .optional) pos o
  /-- An option consumes nothing where its rule fails. -/
  | optional_empty {env r pos} (body : Yields text env r pos (.ok none)) :
      Yields text env (.repeated r .optional) pos (.ok (some (.leaf pos pos)))
  /-- A repetition yields a row of trees that all advance. Where the row stops the rule fails, or
  yields a tree that does not advance, which is dropped. -/
  | zeroOrMore {env r ts last} {p : Nat → Nat} (next : Consecutive p ts)
      (each : ∀ k t, ts[k]? = some t → Yields text env r (p k) (.ok (some t)))
      (advances : ∀ k < ts.length, p k < p (k + 1))
      (ends : Yields text env r (p ts.length) (.ok last))
      (still : ∀ t ∈ last, t.stop = p ts.length) :
      Yields text env (.repeated r .zeroOrMore) (p 0) (.ok (some ⟨p 0, p ts.length, ts⟩))
  /-- A repetition halts where its rule halts after a row of trees that all advance. -/
  | zeroOrMore_halts {env r ts halt} {p : Nat → Nat} (next : Consecutive p ts)
      (each : ∀ k t, ts[k]? = some t → Yields text env r (p k) (.ok (some t)))
      (advances : ∀ k < ts.length, p k < p (k + 1))
      (halts : Yields text env r (p ts.length) (.error halt)) :
      Yields text env (.repeated r .zeroOrMore) (p 0) (.error halt)
  /-- A repetition at least once yields one tree, whether or not it advances, and then a row of
  trees like any repetition. -/
  | oneOrMore {env r pos first others} (once : Yields text env r pos (.ok (some first)))
      (more : Yields text env (.repeated r .zeroOrMore) first.stop (.ok (some others))) :
      Yields text env (.repeated r .oneOrMore) pos
        (.ok (some ⟨pos, others.stop, first :: others.children⟩))
  /-- A repetition at least once fails or halts like its rule. -/
  | oneOrMore_stops {env r pos o} (once : Yields text env r pos o) (noTree : NoTree o) :
      Yields text env (.repeated r .oneOrMore) pos o
  /-- A repetition at least once halts where the repetition after the first tree does. -/
  | oneOrMore_halts {env r pos first halt} (once : Yields text env r pos (.ok (some first)))
      (more : Yields text env (.repeated r .zeroOrMore) first.stop (.error halt)) :
      Yields text env (.repeated r .oneOrMore) pos (.error halt)
  /-- A repetition with an unknown quantifier halts. -/
  | unknown {env r symbol pos} :
      Yields text env (.repeated r (.unknown symbol)) pos (.error (.unknownQuantifier symbol))

end Peg
