import Peg.Notation.Reader
import Peg.Proofs.Result

/-!
# Reading does not depend on offsets

Where the tokens of a source begin decides nothing but the offsets in errors. Tokens of the same
kinds and texts, in the same order, are read as the same rules with the same frames; or both are
refused for the same reason, each at an offset of its own.
-/

namespace Peg

open Except
open List (Forall₂)

namespace Notation

/-- The tokens are the same, though they may begin at different offsets. -/
inductive Token.Moved : Token → Token → Prop where
  /-- The token at one offset and at another one. -/
  | intro (kind : TokenKind) (text : Text) (offset offset' : Nat) :
      Moved ⟨kind, text, offset⟩ ⟨kind, text, offset'⟩

def ReadError.unplaced : ReadError → ReadError
  | flawed e => flawed ⟨0, e.flaw⟩
  | e => e

/-- Both results are given and related, or they are missing for the same reason, flaws being at any
offset. -/
inductive UpToOffset {α β : Type} (R : α → β → Prop) :
    Except ReadError α → Except ReadError β → Prop where
  /-- Related results. -/
  | ok {a : α} {b : β} (h : R a b) : UpToOffset R (.ok a) (.ok b)
  /-- The same reason. -/
  | error {e e' : ReadError} (h : e.unplaced = e'.unplaced) : UpToOffset R (.error e) (.error e')

namespace UpToOffset

variable {α β : Type} {R : α → β → Prop}

/-- Two steps agree if each does. -/
theorem bind {α' β' : Type} {S : α' → β' → Prop} {x : Except ReadError α} {y : Except ReadError β}
    {f : α → Except ReadError α'} {g : β → Except ReadError β'} (first : UpToOffset R x y)
    (second : ∀ a b, R a b → UpToOffset S (f a) (g b)) : UpToOffset S (x >>= f) (y >>= g) := by
  cases first with
  | ok related => exact second _ _ related
  | error same => exact .error same

theorem bind_eq {β β' : Type} {S : β → β' → Prop} {x y : Except ReadError α}
    {f : α → Except ReadError β} {g : α → Except ReadError β'} (first : UpToOffset Eq x y)
    (second : ∀ a, UpToOffset S (f a) (g a)) : UpToOffset S (x >>= f) (y >>= g) := by
  refine first.bind ?_
  rintro a _ rfl
  exact second a

theorem ite {p q : Prop} [Decidable p] [Decidable q] (same : p ↔ q) {x x' : Except ReadError α}
    {y y' : Except ReadError β} (holds : UpToOffset R x y) (fails : UpToOffset R x' y') :
    UpToOffset R (if p then x else x') (if q then y else y') := by
  by_cases h : p
  · rw [if_pos h, if_pos (same.mp h)]
    exact holds
  · rw [if_neg h, if_neg (mt same.mpr h)]
    exact fails

/-- The same flaw may be at different offsets. -/
theorem flawAt (offset offset' : Nat) (flaw : Flaw) :
    UpToOffset R (flawAt offset flaw) (flawAt offset' flaw) := .error rfl

/-- Without the offsets of flaws, results that agree are the same. -/
theorem mapError_unplaced {x y : Except ReadError α} (h : UpToOffset Eq x y) :
    x.mapError ReadError.unplaced = y.mapError ReadError.unplaced := by
  cases h with
  | ok same => rw [same]
  | error same => exact congrArg Except.error same

end UpToOffset

/-- What is read is related, and what is left is the same up to offsets. -/
def ReadAlike {α : Type} (R : α → α → Prop) (x y : α × List Token) : Prop :=
  R x.1 y.1 ∧ Forall₂ Token.Moved x.2 y.2

/-- Moving the tokens changes nothing about what is read, up to offsets. -/
def IgnoresOffsets {α : Type} (R : α → α → Prop) (read : Reader α) : Prop :=
  ∀ ⦃tokens tokens' : List Token⦄, Forall₂ Token.Moved tokens tokens' →
    UpToOffset (ReadAlike R) (read tokens) (read tokens')

/-- Once the same is read from both, reading goes on with what is left of each. -/
theorem IgnoresOffsets.bind {α β γ : Type} {S : β → γ → Prop} {read : Reader α}
    (h : IgnoresOffsets Eq read) {tokens tokens' : List Token}
    (moved : Forall₂ Token.Moved tokens tokens')
    {f : α × List Token → Except ReadError β} {g : α × List Token → Except ReadError γ}
    (next : ∀ a left left', Forall₂ Token.Moved left left' →
      UpToOffset S (f (a, left)) (g (a, left'))) :
    UpToOffset S (read tokens >>= f) (read tokens' >>= g) := by
  refine UpToOffset.bind (h moved) ?_
  rintro ⟨a, left⟩ ⟨_, left'⟩ ⟨rfl, moved⟩
  exact next a left left' moved

/-! ## Single tokens -/

namespace Token.Moved

variable {t t' : Token}

theorem kind_eq (h : t.Moved t') : t.kind = t'.kind := by
  cases h
  rfl

/-- Moved tokens have one text. -/
theorem text_eq (h : t.Moved t') : t.text = t'.text := by
  cases h
  rfl

/-- Moved tokens are the same operators. -/
theorem isOneOf_iff (h : t.Moved t') (operators : Text) :
    t.isOneOf operators = true ↔ t'.isOneOf operators = true := by
  rw [isOneOf, isOneOf, h.kind_eq, h.text_eq]

end Token.Moved

theorem atRuleHead_of_moved {tokens tokens' : List Token}
    (moved : Forall₂ Token.Moved tokens tokens') :
    UpToOffset Eq (atRuleHead tokens) (atRuleHead tokens') := by
  cases moved with
  | nil => exact .error rfl
  | cons first others =>
      rw [atRuleHead.eq_def, atRuleHead.eq_def]
      refine .ite (by rw [first.kind_eq]) ?_ (.ok rfl)
      cases others with
      | nil => exact .error rfl
      | cons second _ => exact .ok (by rw [second.kind_eq])

theorem atSequenceEnd_of_moved {tokens tokens' : List Token}
    (moved : Forall₂ Token.Moved tokens tokens') :
    UpToOffset Eq (atSequenceEnd tokens) (atSequenceEnd tokens') := by
  have head := atRuleHead_of_moved moved
  cases moved with
  | nil => exact .error rfl
  | cons first _ =>
      rw [atSequenceEnd, atSequenceEnd]
      exact .ite (by rw [first.kind_eq, first.isOneOf_iff]) (.ok rfl) head

theorem ignoresOffsets_expect (kind : TokenKind) (flaw : Flaw) :
    IgnoresOffsets Token.Moved (expect kind flaw) := by
  intro tokens tokens' moved
  cases moved with
  | nil => exact .error rfl
  | cons first others =>
      rw [expect, expect]
      exact .ite (by rw [first.kind_eq]) (.ok ⟨first, others⟩) (.flawAt ..)

theorem ignoresOffsets_expectClose : IgnoresOffsets Eq expectClose := by
  intro tokens tokens' moved
  cases moved with
  | nil => exact .error rfl
  | cons first others =>
      rw [expectClose, expectClose]
      exact .ite (first.isOneOf_iff ")") (.ok ⟨rfl, others⟩) (.flawAt ..)

theorem ignoresOffsets_takeOneOf (operators : Text) :
    IgnoresOffsets Eq (takeOneOf operators) := by
  intro tokens tokens' moved
  cases moved with
  | nil => exact .error rfl
  | cons first others =>
      rw [takeOneOf, takeOneOf]
      exact .ite (first.isOneOf_iff operators) (.ok ⟨congrArg some first.text_eq, others⟩)
        (.ok ⟨rfl, .cons first others⟩)

/-! ## Rules of single tokens -/

/-- A body spells the same characters at every offset, or has the same flaw. -/
theorem spelledFrom_of_moved (skip offset offset' : Nat) (body : Text) :
    UpToOffset Eq ((spelledFrom skip offset body).mapError .flawed)
      ((spelledFrom skip offset' body).mapError .flawed) := by
  induction body generalizing skip offset offset' with
  | nil => exact .ok rfl
  | cons c rest ih =>
      cases skip with
      | succ skip => exact ih skip _ _
      | zero =>
          rw [spelledFrom.eq_def, spelledFrom.eq_def]
          dsimp only
          by_cases backslash : c = '\\'
          · rw [if_pos backslash, if_pos backslash]
            cases rest with
            | nil => exact .ok rfl
            | cons d after =>
                dsimp only
                cases escape d after with
                -- here alone the offset goes into the result
                | error flaw => exact .error rfl
                | ok spelled =>
                    dsimp only
                    rw [mapError_bind, mapError_bind]
                    exact (ih _ _ _).bind_eq fun _ ↦ .ok rfl
          · rw [if_neg backslash, if_neg backslash, mapError_bind, mapError_bind]
            exact (ih _ _ _).bind_eq fun _ ↦ .ok rfl

theorem spelledIn_of_moved (body : Text) (offset offset' : Nat) :
    UpToOffset Eq (spelledIn body offset) (spelledIn body offset') :=
  spelledFrom_of_moved 0 offset offset' body

theorem literalRule_of_moved {t t' : Token} (moved : t.Moved t') :
    UpToOffset Eq (literalRule t) (literalRule t') := by
  obtain ⟨kind, text, offset, offset'⟩ := moved
  exact (spelledIn_of_moved _ _ _).bind_eq fun _ ↦ .ok rfl

theorem charClassRule_of_moved {t t' : Token} (moved : t.Moved t') :
    UpToOffset Eq (charClassRule t) (charClassRule t') := by
  obtain ⟨kind, text, offset, offset'⟩ := moved
  refine .ite Iff.rfl ?_ ?_
  · exact (spelledIn_of_moved _ _ _).bind_eq fun _ ↦ .ok rfl
  · exact (spelledIn_of_moved _ _ _).bind_eq fun _ ↦ .ok rfl

/-! ## Expressions -/

theorem ignoresOffsets_itemsWith {item : Reader Rule} (h : IgnoresOffsets Eq item) (count : Nat) :
    IgnoresOffsets Eq (itemsWith item count) := by
  induction count with
  | zero => exact fun _ _ _ ↦ .error rfl
  | succ count ih =>
      intro tokens tokens' moved
      rw [itemsWith, itemsWith]
      refine (atSequenceEnd_of_moved moved).bind_eq fun ends ↦ ?_
      refine .ite Iff.rfl (.ok ⟨rfl, moved⟩) ?_
      refine h.bind moved fun r left left' moved ↦ ?_
      refine ih.bind moved fun rs left left' moved ↦ ?_
      exact .ok ⟨rfl, moved⟩

theorem ignoresOffsets_alternativesWith {sequence : Reader Rule} (h : IgnoresOffsets Eq sequence)
    (count : Nat) : IgnoresOffsets Eq (alternativesWith sequence count) := by
  induction count with
  | zero => exact fun _ _ _ ↦ .error rfl
  | succ count ih =>
      intro tokens tokens' moved
      rw [alternativesWith, alternativesWith]
      refine (ignoresOffsets_takeOneOf "/").bind moved fun slash left left' moved ↦ ?_
      cases slash with
      | none => exact .ok ⟨rfl, moved⟩
      | some slash =>
          refine h.bind moved fun r left left' moved ↦ ?_
          refine ih.bind moved fun rs left left' moved ↦ ?_
          exact .ok ⟨rfl, moved⟩

section Readers

variable {frames : Nat}

theorem ignoresOffsets_expression (h : IgnoresOffsets Eq (sequence frames)) :
    IgnoresOffsets Eq (expression (frames + 1)) := by
  intro tokens tokens' moved
  rw [expression, expression]
  refine h.bind moved fun r left left' moved ↦ ?_
  dsimp only
  rw [moved.length_eq]
  refine (ignoresOffsets_alternativesWith h _).bind moved fun rs left left' moved ↦ ?_
  exact .ok ⟨rfl, moved⟩

theorem ignoresOffsets_sequence (h : IgnoresOffsets Eq (item frames)) :
    IgnoresOffsets Eq (sequence (frames + 1)) := by
  intro tokens tokens' moved
  rw [sequence, sequence, moved.length_eq]
  refine (ignoresOffsets_itemsWith h _).bind moved fun rs left left' moved ↦ ?_
  exact .ok ⟨rfl, moved⟩

theorem ignoresOffsets_item (h : IgnoresOffsets Eq (suffixed frames)) :
    IgnoresOffsets Eq (item (frames + 1)) := by
  intro tokens tokens' moved
  rw [item, item]
  refine (ignoresOffsets_takeOneOf "&!").bind moved fun operator left left' moved ↦ ?_
  cases operator with
  | none => exact h moved
  | some operator =>
      refine h.bind moved fun r left left' moved ↦ ?_
      exact .ok ⟨rfl, moved⟩

theorem ignoresOffsets_suffixed (h : IgnoresOffsets Eq (primary frames)) :
    IgnoresOffsets Eq (suffixed (frames + 1)) := by
  intro tokens tokens' moved
  rw [suffixed, suffixed]
  refine h.bind moved fun r left left' moved ↦ ?_
  refine (ignoresOffsets_takeOneOf "?*+").bind moved fun operator left left' moved ↦ ?_
  cases operator with
  | none => exact .ok ⟨rfl, moved⟩
  | some operator => exact .ok ⟨rfl, moved⟩

theorem ignoresOffsets_primary (h : IgnoresOffsets Eq (expression frames)) :
    IgnoresOffsets Eq (primary (frames + 1)) := by
  intro tokens tokens' moved
  cases moved with
  | nil => exact .error rfl
  | cons first others =>
      have literal := literalRule_of_moved first
      have charClass := charClassRule_of_moved first
      obtain ⟨kind, text, offset, offset'⟩ := first
      rw [primary, primary]
      cases kind with
      | identifier => exact .ok ⟨rfl, others⟩
      | literal => exact literal.bind_eq fun r ↦ .ok ⟨rfl, others⟩
      | charClass => exact charClass.bind_eq fun r ↦ .ok ⟨rfl, others⟩
      | operator =>
          refine .ite Iff.rfl (.ok ⟨rfl, others⟩) ?_
          refine .ite Iff.rfl ?_ (.flawAt ..)
          refine h.bind others fun r left left' moved ↦ ?_
          refine ignoresOffsets_expectClose.bind moved fun _ left left' moved ↦ ?_
          exact .ok ⟨rfl, moved⟩
      | arrow => exact .flawAt ..
      | ending => exact .flawAt ..

end Readers

/-- No reader of parts of rules looks at offsets, whatever the number of frames. -/
theorem ignoresOffsets_all (frames : Nat) :
    IgnoresOffsets Eq (expression frames) ∧ IgnoresOffsets Eq (sequence frames) ∧
    IgnoresOffsets Eq (item frames) ∧ IgnoresOffsets Eq (suffixed frames) ∧
    IgnoresOffsets Eq (primary frames) := by
  induction frames with
  | zero =>
      refine ⟨?_, ?_, ?_, ?_, ?_⟩
      all_goals exact fun _ _ _ ↦ .error rfl
  | succ frames ih =>
      obtain ⟨expression, sequence, item, suffixed, primary⟩ := ih
      exact ⟨ignoresOffsets_expression sequence, ignoresOffsets_sequence item,
        ignoresOffsets_item suffixed, ignoresOffsets_suffixed primary,
        ignoresOffsets_primary expression⟩

/-! ## Grammars -/

theorem ignoresOffsets_ruleWith {body : Reader Rule} (h : IgnoresOffsets Eq body)
    (seen : List Text) : IgnoresOffsets Eq (ruleWith body seen) := by
  intro tokens tokens' moved
  rw [ruleWith, ruleWith]
  refine (ignoresOffsets_expect _ _ moved).bind ?_
  rintro ⟨head, left⟩ ⟨head', left'⟩ ⟨name, moved⟩
  refine (ignoresOffsets_expect _ _ moved).bind ?_
  rintro ⟨arrow, left⟩ ⟨arrow', left'⟩ ⟨-, moved⟩
  refine h.bind moved fun r left left' moved ↦ ?_
  dsimp only at name ⊢
  -- the flaw of a name that was seen before names it as well
  rw [name.text_eq]
  exact .ite Iff.rfl (.flawAt ..) (.ok ⟨rfl, moved⟩)

theorem ignoresOffsets_rulesWith {body : Reader Rule} (h : IgnoresOffsets Eq body) (count : Nat)
    (seen : List Text) : IgnoresOffsets Eq (rulesWith body count seen) := by
  induction count generalizing seen with
  | zero => exact fun _ _ _ ↦ .error rfl
  | succ count ih =>
      intro tokens tokens' moved
      cases moved with
      | nil => exact .error rfl
      | cons first others =>
          rw [rulesWith, rulesWith]
          refine .ite (by rw [first.kind_eq]) (.ok ⟨rfl, .cons first others⟩) ?_
          have rule := ignoresOffsets_ruleWith h seen
          refine rule.bind (.cons first others) fun entry left left' moved ↦ ?_
          refine (ih (entry.1 :: seen)).bind moved fun entries left left' moved ↦ ?_
          exact .ok ⟨rfl, moved⟩

theorem ignoresOffsets_grammar (frames : Nat) : IgnoresOffsets Eq (grammar frames) := by
  intro tokens tokens' moved
  rw [grammar, grammar, moved.length_eq]
  have rules := ignoresOffsets_rulesWith (ignoresOffsets_all frames).1 tokens'.length []
  refine rules.bind moved fun entries left left' moved ↦ ?_
  cases entries with
  | cons entry entries => exact .ok ⟨rfl, moved⟩
  | nil =>
      cases moved with
      | nil => exact .error rfl
      | cons => exact .flawAt ..

theorem readRules_of_moved (frames : Nat) {tokens tokens' : List Token}
    (moved : Forall₂ Token.Moved tokens tokens') :
    UpToOffset Eq (readRules frames tokens) (readRules frames tokens') :=
  (ignoresOffsets_grammar frames).bind moved fun _ _ _ _ ↦ .ok rfl

end Notation

end Peg
