import Peg.Rule.Basic
import Peg.Tree

/-!
# Running rules

A rule runs at a position of the input and gives a tree, fails, or is halted. Running is plain
recursive descent without memory: a choice commits to its first alternative that succeeds, a
repetition takes all it can get and gives nothing back.

Each nested run takes one frame of a given number, and the loop of a repetition takes one more; when
no frame is left the run is halted. The number of frames bounds the nesting, not the work: a loop
runs its rule any number of times inside the same frame.
-/

namespace Peg

/-- Why a run was cut off. -/
inductive Halt where
  /-- The rules nest deeper than there are frames. -/
  | outOfFrames
  /-- A reference that is not linked, or that runs outside of a grammar. -/
  | unresolved (name : Text)
  /-- A repetition whose quantifier means nothing. -/
  | unknownQuantifier (symbol : Text)
  /-- A slot that the grammar does not have. -/
  | missingSlot (slot : Int)
deriving DecidableEq

/-- A run from a position on: a tree, a failure (`none`), or a halt. -/
abbrev Matcher := Nat → Except Halt (Option Tree)

/-! ## Single characters -/

/-- Whether a text stands in the input at a position. Nothing stands past the end of the input, not
even the empty text. -/
def standsAt (input : Array CodePoint) : Text → Nat → Bool
  | [], pos => pos ≤ input.size
  | c :: rest, pos => input[pos]? = some c && standsAt input rest (pos + 1)

/-- The character at a position, if it satisfies the condition, as a tree. -/
def charAt (input : Array CodePoint) (condition : CodePoint → Bool) (pos : Nat) : Option Tree :=
  match input[pos]? with
  | some c => if condition c then some (.leaf pos (pos + 1)) else none
  | none => none

/-! ## Several runs -/

/-- Runs the rules one after the other, each where the one before it stopped; fails with the first
that fails. Gives the trees and the position reached. -/
def inSequence (run : Rule → Matcher) : List Rule → Nat → Except Halt (Option (List Tree × Nat))
  | [], pos => .ok (some ([], pos))
  | r :: rest, pos => do
      match ← run r pos with
      | none => .ok none
      | some t =>
          match ← inSequence run rest t.stop with
          | none => .ok none
          | some (ts, stop) => .ok (some (t :: ts, stop))

/-- Runs the rules at the same position until one of them succeeds. -/
def firstOf (run : Rule → Matcher) : List Rule → Matcher
  | [], _ => .ok none
  | r :: rest, pos => do
      match ← run r pos with
      | some t => .ok (some t)
      | none => firstOf run rest pos

/-- Runs a matcher again and again, each time where it stopped before, until it fails or does not
advance. The last success, when it does not advance, is dropped. Gives the trees and the position
reached. The first argument bounds the number of rounds. -/
def chain (run : Matcher) : Nat → Nat → Except Halt (List Tree × Nat)
  | 0, pos => .ok ([], pos)
  | rounds + 1, pos => do
      match ← run pos with
      | none => .ok ([], pos)
      | some t =>
          if t.stop = pos then .ok ([], pos)
          else
            let (ts, stop) ← chain run rounds t.stop
            .ok (t :: ts, stop)

/-- The number of rounds that a repetition beginning at `pos` can make: it advances in all of them
but the last, and cannot pass the end of the input. -/
def roundsFrom (input : Array CodePoint) (pos : Nat) : Nat := input.size - pos + 1

/-! ## Rules -/

def ruleIn (grammar : Grammar) (slot : Int) : Except Halt Rule :=
  match grammar.ruleAt? slot with
  | some r => .ok r
  | none => .error (.missingSlot slot)

/-- The rule that a reference stands for in the grammar at hand. -/
def resolve (name : Text) : Option Int → Option Grammar → Except Halt Rule
  | some slot, some grammar => ruleIn grammar slot
  | _, _ => .error (.unresolved name)

mutual

/-- Runs a rule with a number of frames, in a grammar that its references are looked up in. -/
def eval (input : Array CodePoint) : Nat → Option Grammar → Rule → Matcher
  | 0, _, _, _ => .error .outOfFrames
  | frames + 1, env, rule, pos =>
      match rule with
      | .literal t => .ok (if standsAt input t pos then some (.leaf pos (pos + t.length)) else none)
      | .charRange ranges => .ok (charAt input (fun c ↦ ranges.any (·.contains c)) pos)
      | .anyChar => .ok (charAt input (fun _ ↦ true) pos)
      | .reference name slot => do
          let r ← resolve name slot env
          eval input frames env r pos
      | .bound grammar slot => do
          let r ← ruleIn grammar slot
          eval input frames (some grammar) r pos
      | .followedBy r => do
          match ← eval input frames env r pos with
          | some t => .ok (some ⟨pos, pos, [t]⟩)
          | none => .ok none
      | .notFollowedBy r => do
          match ← eval input frames env r pos with
          | some _ => .ok none
          | none => .ok (some (.leaf pos pos))
      | .sequence items => do
          match ← inSequence (eval input frames env) items pos with
          | some (ts, stop) => .ok (some ⟨pos, stop, ts⟩)
          | none => .ok none
      | .choice alternatives => firstOf (eval input frames env) alternatives pos
      | .repeated r .optional => do
          match ← eval input frames env r pos with
          | some t => .ok (some t)
          | none => .ok (some (.leaf pos pos))
      | .repeated r .zeroOrMore => do
          let (ts, stop) ← evalChain input frames env r pos
          .ok (some ⟨pos, stop, ts⟩)
      | .repeated r .oneOrMore => do
          match ← eval input frames env r pos with
          | none => .ok none
          | some first => do
              let (ts, stop) ← evalChain input frames env r first.stop
              .ok (some ⟨pos, stop, first :: ts⟩)
      | .repeated _ (.unknown symbol) => .error (.unknownQuantifier symbol)

/-- Runs a rule again and again for as long as it advances, inside one frame. -/
def evalChain (input : Array CodePoint) :
    Nat → Option Grammar → Rule → Nat → Except Halt (List Tree × Nat)
  | 0, _, _, _ => .error .outOfFrames
  | frames + 1, env, r, pos => chain (eval input frames env r) (roundsFrom input pos) pos

end

@[simp] theorem eval_zero (input : Array CodePoint) (env : Option Grammar) (rule : Rule)
    (pos : Nat) : eval input 0 env rule pos = .error .outOfFrames := rfl

@[simp] theorem evalChain_zero (input : Array CodePoint) (env : Option Grammar) (rule : Rule)
    (pos : Nat) : evalChain input 0 env rule pos = .error .outOfFrames := rfl

/-! ## One frame at a time -/

section Steps

variable (input : Array CodePoint) (frames : Nat) (env : Option Grammar) (pos : Nat)

theorem eval_literal (t : Text) : eval input (frames + 1) env (.literal t) pos =
    .ok (if standsAt input t pos then some (.leaf pos (pos + t.length)) else none) := rfl

theorem eval_charRange (ranges : List CharRange) :
    eval input (frames + 1) env (.charRange ranges) pos =
      .ok (charAt input (fun c ↦ ranges.any (·.contains c)) pos) := rfl

theorem eval_anyChar : eval input (frames + 1) env .anyChar pos =
    .ok (charAt input (fun _ ↦ true) pos) := rfl

theorem eval_reference (name : Text) (slot : Option Int) :
    eval input (frames + 1) env (.reference name slot) pos =
      resolve name slot env >>= fun r ↦ eval input frames env r pos := rfl

theorem eval_bound (grammar : Grammar) (slot : Nat) :
    eval input (frames + 1) env (.bound grammar slot) pos =
      ruleIn grammar slot >>= fun r ↦ eval input frames (some grammar) r pos := rfl

theorem eval_followedBy (r : Rule) : eval input (frames + 1) env (.followedBy r) pos =
    eval input frames env r pos >>= fun
      | some t => .ok (some ⟨pos, pos, [t]⟩)
      | none => .ok none := rfl

theorem eval_notFollowedBy (r : Rule) : eval input (frames + 1) env (.notFollowedBy r) pos =
    eval input frames env r pos >>= fun
      | some _ => .ok none
      | none => .ok (some (.leaf pos pos)) := rfl

theorem eval_sequence (items : List Rule) : eval input (frames + 1) env (.sequence items) pos =
    inSequence (eval input frames env) items pos >>= fun
      | some (ts, stop) => .ok (some ⟨pos, stop, ts⟩)
      | none => .ok none := rfl

theorem eval_choice (alternatives : List Rule) :
    eval input (frames + 1) env (.choice alternatives) pos =
      firstOf (eval input frames env) alternatives pos := rfl

theorem eval_optional (r : Rule) : eval input (frames + 1) env (.repeated r .optional) pos =
    eval input frames env r pos >>= fun
      | some t => .ok (some t)
      | none => .ok (some (.leaf pos pos)) := rfl

theorem eval_zeroOrMore (r : Rule) : eval input (frames + 1) env (.repeated r .zeroOrMore) pos =
    evalChain input frames env r pos >>= fun (ts, stop) ↦ .ok (some ⟨pos, stop, ts⟩) := rfl

theorem eval_oneOrMore (r : Rule) : eval input (frames + 1) env (.repeated r .oneOrMore) pos =
    eval input frames env r pos >>= fun
      | none => .ok none
      | some first =>
          evalChain input frames env r first.stop >>= fun (ts, stop) ↦
            .ok (some ⟨pos, stop, first :: ts⟩) := rfl

theorem eval_unknown (r : Rule) (symbol : Text) :
    eval input (frames + 1) env (.repeated r (.unknown symbol)) pos =
      .error (.unknownQuantifier symbol) := rfl

theorem evalChain_succ (r : Rule) : evalChain input (frames + 1) env r pos =
    chain (eval input frames env r) (roundsFrom input pos) pos := rfl

end Steps

end Peg
