import Mathlib.Data.List.OfFn
import Peg.Proofs.Evaluation.Tiling
import Peg.Proofs.Rule.Replacement

/-!
# Exchanging rules

The trees of its parts never decide what a rule does next: all that counts is where they stop. So
where a rule stands, another one that always stops at the same position, fails or halts with it can
stand as well, and everything around it stops where it did.

The two rules may refer to rules in which they stand themselves. The comparison is therefore one of
two grammars, by induction on what is yielded in the first: a rule in the place of the old one
yields what the old one yields in the second grammar, and only there is the new one put in its
place.
-/

namespace Peg

open List (Forall₂)
open Rule (SameShape)

/-! ## Where outcomes stop -/

/-- Where an outcome stops: at the end of its tree, with a failure or with a halt. -/
def stopOf (o : Except Halt (Option Tree)) : Except Halt (Option Nat) := Option.map Tree.stop <$> o

section Stops

variable {o o' : Except Halt (Option Tree)} {t : Tree} {halt : Halt}

theorem exists_tree_of_stopOf (same : stopOf o = stopOf (.ok (some t))) :
    ∃ t', o = .ok (some t') ∧ t'.stop = t.stop := by
  rcases o with halt | _ | t'
  · cases same
  · cases same
  · exact ⟨t', rfl, Option.some.inj (Except.ok.inj same)⟩

theorem eq_of_stopOf_eq (noTree : NoTree o) (same : stopOf o' = stopOf o) : o' = o := by
  obtain rfl | ⟨halt, rfl⟩ := noTree_iff.mp noTree
  · rcases o' with _ | _ | _ <;> cases same
    rfl
  · rcases o' with _ | _ | _ <;> cases same
    rfl

theorem ne_failure_of_stopOf_eq (noFailure : o ≠ .ok none) (same : stopOf o' = stopOf o) :
    o' ≠ .ok none := by
  rintro rfl
  exact noFailure (eq_of_stopOf_eq noTree_failure same.symm)

end Stops

/-! ## Rows -/

theorem exists_list_of_forall {α : Type} {n : Nat} {P : Nat → α → Prop} (h : ∀ k < n, ∃ a, P k a) :
    ∃ as : List α, as.length = n ∧ ∀ k a, as[k]? = some a → P k a := by
  choose f holds using h
  refine ⟨List.ofFn fun k : Fin n ↦ f k k.isLt, List.length_ofFn, fun k a found ↦ ?_⟩
  obtain ⟨lt, rfl⟩ := List.getElem?_eq_some_iff.mp found
  rw [List.getElem_ofFn]
  exact holds k _

section Rows

variable {text : Text} {env env' : Option Grammar} {p : Nat → Nat} {ts : List Tree}

theorem Consecutive.le_length_of_items {items : List Rule} (next : Consecutive p ts)
    (all : ts.length ≤ items.length)
    (each : ∀ k r t, items[k]? = some r → ts[k]? = some t → Yields text env r (p k) (.ok (some t)))
    (first : p 0 ≤ text.length) {k : Nat} (le : k ≤ ts.length) : p k ≤ text.length := by
  have yields : ∀ k t, ts[k]? = some t → ∃ r, Yields text env r (p k) (.ok (some t)) := by
    intro k t found
    have lt : k < items.length := (List.getElem?_eq_some_iff.mp found).1.trans_le all
    exact ⟨items[k], each k _ t (List.getElem?_eq_getElem lt) found⟩
  exact next.le_length yields first le

/-- Trees that stop where those of a row do can be put together to a row. -/
theorem Consecutive.exists_row {P : Nat → Tree → Prop} (next : Consecutive p ts)
    (h : ∀ k t, ts[k]? = some t → ∃ t', P k t' ∧ t'.stop = t.stop) :
    ∃ ts' : List Tree, ts'.length = ts.length ∧ Consecutive p ts' ∧
      ∀ k t', ts'[k]? = some t' → P k t' := by
  have each : ∀ k < ts.length, ∃ t', P k t' ∧ t'.stop = p (k + 1) := by
    intro k lt
    have found := List.getElem?_eq_getElem lt
    obtain ⟨t', holds, stop⟩ := h k _ found
    exact ⟨t', holds, stop.trans (next k _ found)⟩
  obtain ⟨ts', length, holds⟩ := exists_list_of_forall each
  exact ⟨ts', length, fun k t' found ↦ (holds k t' found).2, fun k t' found ↦ (holds k t' found).1⟩

end Rows

/-! ## Grammars with exchanged rules -/

/-- The rules of the second grammar are those of the first one with the new rule in some places of
the old one, and in the second grammar the new rule stops wherever the old one does. -/
structure Exchange (text : Text) (g g' : Grammar) (old new : Rule) (R : Rule → Rule → Prop) :
    Prop where
  /-- Nothing has to be replaced in a rule. -/
  refl : ∀ r, R r r
  /-- The old rule is replaced, or parts of the rule. -/
  here_or_parts : ∀ r r', R r r' → r = old ∧ r' = new ∨ SameShape R r r'
  /-- What stands in the same slot is related. -/
  rules : Forall₂ R g.rules g'.rules
  /-- The new rule stops wherever the old one does. -/
  follows : ∀ pos ≤ text.length, ∀ o, Yields text (some g') old pos o →
    ∃ o', Yields text (some g') new pos o' ∧ stopOf o' = stopOf o

/-- In another grammar the rule yields something that stops where the outcome does. -/
def YieldsLike (text : Text) (g : Grammar) (r : Rule) (pos : Nat) (o : Except Halt (Option Tree)) :
    Prop :=
  ∃ o', Yields text (some g) r pos o' ∧ stopOf o' = stopOf o

namespace YieldsLike

variable {text : Text} {g : Grammar} {r : Rule} {pos : Nat} {o : Except Halt (Option Tree)}
  {t : Tree}

theorem exists_tree (h : YieldsLike text g r pos (.ok (some t))) :
    ∃ t', Yields text (some g) r pos (.ok (some t')) ∧ t'.stop = t.stop := by
  obtain ⟨o', yields, same⟩ := h
  obtain ⟨t', rfl, stop⟩ := exists_tree_of_stopOf same
  exact ⟨t', yields, stop⟩

/-- What yields something like a failure or a halt yields it. -/
theorem yields (h : YieldsLike text g r pos o) (noTree : NoTree o) :
    Yields text (some g) r pos o := by
  obtain ⟨o', yields, same⟩ := h
  exact eq_of_stopOf_eq noTree same ▸ yields

end YieldsLike

namespace Exchange

variable {text : Text} {g g' : Grammar} {old new r r' : Rule} {R : Rule → Rule → Prop}

theorem exists_ruleAt? (h : Exchange text g g' old new R) {slot : Int}
    (found : g.ruleAt? slot = some r) : ∃ r', g'.ruleAt? slot = some r' ∧ R r r' := by
  cases slot with
  | ofNat n => exact h.rules.exists_getElem? found
  | negSucc n => exact (List.forall₂_reverse_iff.mpr h.rules).exists_getElem? found

theorem ruleAt?_eq_none (h : Exchange text g g' old new R) {slot : Int}
    (missing : g.ruleAt? slot = none) : g'.ruleAt? slot = none := by
  cases slot with
  | ofNat n =>
      exact List.getElem?_eq_none_iff.mpr (h.rules.length_eq ▸ List.getElem?_eq_none_iff.mp missing)
  | negSucc n =>
      have reversed := List.forall₂_reverse_iff.mpr h.rules
      exact List.getElem?_eq_none_iff.mpr
        (reversed.length_eq ▸ List.getElem?_eq_none_iff.mp missing)

theorem yieldsLike_of_related (h : Exchange text g g' old new R) {pos : Nat}
    {o : Except Halt (Option Tree)} (within : pos ≤ text.length)
    (parts : ∀ r', SameShape R r r' → YieldsLike text g' r' pos o) (related : R r r') :
    YieldsLike text g' r' pos o := by
  rcases h.here_or_parts r r' related with ⟨rfl, rfl⟩ | shape
  · obtain ⟨o', yields, same⟩ := parts r (.refl h.refl r)
    obtain ⟨o'', yields', same'⟩ := h.follows pos within o' yields
    exact ⟨o'', yields', same'.trans same⟩
  · exact parts r' shape

/-- A row of trees of rules in sequence is followed by a row of trees of related rules. -/
theorem exists_row_of_items (h : Exchange text g g' old new R) {items items' : List Rule}
    {ts : List Tree} {p : Nat → Nat} (related : Forall₂ R items items')
    (all : ts.length ≤ items.length) (next : Consecutive p ts)
    (within : ∀ {k}, k ≤ ts.length → p k ≤ text.length)
    (each : ∀ k r t, items[k]? = some r → ts[k]? = some t → p k ≤ text.length →
      ∀ r', SameShape R r r' → YieldsLike text g' r' (p k) (.ok (some t))) :
    ∃ ts' : List Tree, ts'.length = ts.length ∧ Consecutive p ts' ∧
      ∀ k r' t', items'[k]? = some r' → ts'[k]? = some t' →
        Yields text (some g') r' (p k) (.ok (some t')) := by
  have follows : ∀ k t, ts[k]? = some t → ∃ t', (∀ r', items'[k]? = some r' →
      Yields text (some g') r' (p k) (.ok (some t'))) ∧ t'.stop = t.stop := by
    intro k t found
    have lt : k < ts.length := (List.getElem?_eq_some_iff.mp found).1
    have item := List.getElem?_eq_getElem (lt.trans_le all)
    obtain ⟨r', item', part⟩ := related.exists_getElem? item
    obtain ⟨t', yields, stop⟩ := (h.yieldsLike_of_related (within lt.le)
      (each k _ t item found (within lt.le)) part).exists_tree
    refine ⟨t', fun r'' item'' ↦ ?_, stop⟩
    cases item'.symm.trans item''
    exact yields
  obtain ⟨ts', length, next', each'⟩ := next.exists_row follows
  exact ⟨ts', length, next', fun k r' t' item found ↦ each' k t' found r' item⟩

theorem exists_row_of_repeated (h : Exchange text g g' old new R) (related : R r r')
    {ts : List Tree} {p : Nat → Nat} (next : Consecutive p ts)
    (within : ∀ {k}, k ≤ ts.length → p k ≤ text.length)
    (each : ∀ k t, ts[k]? = some t → p k ≤ text.length →
      ∀ r', SameShape R r r' → YieldsLike text g' r' (p k) (.ok (some t))) :
    ∃ ts' : List Tree, ts'.length = ts.length ∧ Consecutive p ts' ∧
      ∀ k t', ts'[k]? = some t' → Yields text (some g') r' (p k) (.ok (some t')) := by
  refine next.exists_row fun k t found ↦ ?_
  have here : p k ≤ text.length := within (List.getElem?_eq_some_iff.mp found).1.le
  exact (h.yieldsLike_of_related here (each k t found here) related).exists_tree

/-- What a rule yields in the first grammar is followed in the second one by every rule of the same
shape. -/
theorem yieldsLike_of_sameShape (h : Exchange text g g' old new R) {env : Option Grammar}
    {pos : Nat} {o : Except Halt (Option Tree)} (yields : Yields text env r pos o)
    (inside : env = some g) (within : pos ≤ text.length) :
    ∀ r', SameShape R r r' → YieldsLike text g' r' pos o := by
  induction yields with
  | literal stands =>
      rintro _ ⟨⟩
      exact ⟨_, .literal stands, rfl⟩
  | literal_fails absent =>
      rintro _ ⟨⟩
      exact ⟨_, .literal_fails absent, rfl⟩
  | charRange here mem low high =>
      rintro _ ⟨⟩
      exact ⟨_, .charRange here mem low high, rfl⟩
  | charRange_fails absent =>
      rintro _ ⟨⟩
      exact ⟨_, .charRange_fails absent, rfl⟩
  | anyChar here =>
      rintro _ ⟨⟩
      exact ⟨_, .anyChar here, rfl⟩
  | anyChar_fails past =>
      rintro _ ⟨⟩
      exact ⟨_, .anyChar_fails past, rfl⟩
  | reference found _ ih =>
      rintro _ ⟨⟩
      cases inside
      obtain ⟨r', found', related⟩ := h.exists_ruleAt? found
      obtain ⟨o', body, same⟩ := h.yieldsLike_of_related within (ih rfl within) related
      exact ⟨o', .reference found' body, same⟩
  | reference_missing missing =>
      rintro _ ⟨⟩
      cases inside
      exact ⟨_, .reference_missing (h.ruleAt?_eq_none missing), rfl⟩
  | reference_unresolved unresolved =>
      rintro _ ⟨⟩
      subst inside
      exact ⟨_, .reference_unresolved (unresolved.imp_right nofun), rfl⟩
  | bound found body =>
      rintro _ ⟨⟩
      exact ⟨_, .bound found body, rfl⟩
  | bound_missing missing =>
      rintro _ ⟨⟩
      exact ⟨_, .bound_missing missing, rfl⟩
  | followedBy _ ih =>
      intro r' shape
      cases shape with
      | followedBy related =>
          have follows := h.yieldsLike_of_related within (ih inside within) related
          obtain ⟨t', ahead, -⟩ := follows.exists_tree
          exact ⟨_, .followedBy ahead, rfl⟩
  | followedBy_stops _ noTree ih =>
      intro r' shape
      cases shape with
      | followedBy related =>
          have follows := h.yieldsLike_of_related within (ih inside within) related
          exact ⟨_, .followedBy_stops (follows.yields noTree) noTree, rfl⟩
  | notFollowedBy _ ih =>
      intro r' shape
      cases shape with
      | notFollowedBy related =>
          have follows := h.yieldsLike_of_related within (ih inside within) related
          exact ⟨_, .notFollowedBy (follows.yields noTree_failure), rfl⟩
  | notFollowedBy_fails _ ih =>
      intro r' shape
      cases shape with
      | notFollowedBy related =>
          have follows := h.yieldsLike_of_related within (ih inside within) related
          obtain ⟨t', ahead, -⟩ := follows.exists_tree
          exact ⟨_, .notFollowedBy_fails ahead, rfl⟩
  | notFollowedBy_halts _ ih =>
      intro r' shape
      cases shape with
      | notFollowedBy related =>
          have follows := h.yieldsLike_of_related within (ih inside within) related
          exact ⟨_, .notFollowedBy_halts (follows.yields (noTree_error _)), rfl⟩
  | @sequence env items ts p all next each ih =>
      intro r' shape
      cases shape with
      | sequence related =>
          obtain ⟨ts', length, next', each'⟩ := h.exists_row_of_items related all.le next
            (next.le_length_of_items all.le each within)
            fun k r t item found ↦ ih k r t item found inside
          have all' := (length.trans all).trans related.length_eq
          exact ⟨_, .sequence all' next' each', by rw [related.length_eq]; rfl⟩
  | @sequence_stops env items ts r o p item next each _ noTree ih ihStops =>
      intro r' shape
      cases shape with
      | sequence related =>
          have le : ts.length ≤ items.length := (List.getElem?_eq_some_iff.mp item).1.le
          have inRow : ∀ {k}, k ≤ ts.length → p k ≤ text.length :=
            next.le_length_of_items le each within
          obtain ⟨ts', length, next', each'⟩ := h.exists_row_of_items related le next inRow
            fun k r t item found ↦ ih k r t item found inside
          obtain ⟨r', item', part⟩ := related.exists_getElem? item
          have follows := h.yieldsLike_of_related (inRow (Nat.le_refl _))
            (ihStops inside (inRow (Nat.le_refl _))) part
          rw [← length] at item' follows
          exact ⟨_, .sequence_stops item' next' each' (follows.yields noTree) noTree, rfl⟩
  | @choice env alternatives r pos o k chosen _ _ noFailure ihBefore ih =>
      intro r' shape
      cases shape with
      | choice related =>
          obtain ⟨r', chosen', part⟩ := related.exists_getElem? chosen
          obtain ⟨o', taken, same⟩ := h.yieldsLike_of_related within (ih inside within) part
          refine ⟨o', .choice chosen' (fun j s' lt found ↦ ?_) taken
            (ne_failure_of_stopOf_eq noFailure same), same⟩
          obtain ⟨s, found', part⟩ := related.flip.exists_getElem? found
          exact (h.yieldsLike_of_related within (ihBefore j s lt found' inside within) part).yields
            noTree_failure
  | choice_fails _ ih =>
      intro r' shape
      cases shape with
      | choice related =>
          refine ⟨_, .choice_fails fun s' mem ↦ ?_, rfl⟩
          obtain ⟨s, mem', part⟩ := related.exists_left mem
          exact (h.yieldsLike_of_related within (ih s mem' inside within) part).yields
            noTree_failure
  | «optional» _ noFailure ih =>
      intro r' shape
      cases shape with
      | repeated related =>
          obtain ⟨o', body, same⟩ := h.yieldsLike_of_related within (ih inside within) related
          exact ⟨o', .optional body (ne_failure_of_stopOf_eq noFailure same), same⟩
  | optional_empty _ ih =>
      intro r' shape
      cases shape with
      | repeated related =>
          have follows := h.yieldsLike_of_related within (ih inside within) related
          exact ⟨_, .optional_empty (follows.yields noTree_failure), rfl⟩
  | @zeroOrMore env r ts last p next each advances _ still ih ihEnds =>
      intro r' shape
      cases shape with
      | repeated related =>
          have inRow : ∀ {k}, k ≤ ts.length → p k ≤ text.length :=
            next.le_length (fun k t found ↦ ⟨r, each k t found⟩) within
          obtain ⟨ts', length, next', each'⟩ := h.exists_row_of_repeated related next inRow
            fun k t found ↦ ih k t found inside
          have follows := h.yieldsLike_of_related (inRow (Nat.le_refl _))
            (ihEnds inside (inRow (Nat.le_refl _))) related
          rw [← length] at follows advances still ⊢
          cases last with
          | none =>
              exact ⟨_, .zeroOrMore next' each' advances (follows.yields noTree_failure) nofun, rfl⟩
          | some t =>
              obtain ⟨t', ends, stop⟩ := follows.exists_tree
              have still' : ∀ u ∈ some t', u.stop = p ts'.length := by
                rintro _ ⟨⟩
                exact stop.trans (still t rfl)
              exact ⟨_, .zeroOrMore next' each' advances ends still', rfl⟩
  | @zeroOrMore_halts env r ts halt p next each advances _ ih ihHalts =>
      intro r' shape
      cases shape with
      | repeated related =>
          have inRow : ∀ {k}, k ≤ ts.length → p k ≤ text.length :=
            next.le_length (fun k t found ↦ ⟨r, each k t found⟩) within
          obtain ⟨ts', length, next', each'⟩ := h.exists_row_of_repeated related next inRow
            fun k t found ↦ ih k t found inside
          have follows := h.yieldsLike_of_related (inRow (Nat.le_refl _))
            (ihHalts inside (inRow (Nat.le_refl _))) related
          rw [← length] at follows advances
          have halts := follows.yields (noTree_error halt)
          exact ⟨_, .zeroOrMore_halts next' each' advances halts, rfl⟩
  | oneOrMore once _ ih ihMore =>
      intro r' shape
      cases shape with
      | repeated related =>
          obtain ⟨first', once', stop⟩ :=
            (h.yieldsLike_of_related within (ih inside within) related).exists_tree
          have more := ihMore inside (once.stop_bounds within).2 _ (.repeated related .zeroOrMore)
          rw [← stop] at more
          obtain ⟨others', more', stop'⟩ := more.exists_tree
          have same : stopOf (.ok (some others')) = stopOf (.ok (some _)) :=
            congrArg (fun stop ↦ Except.ok (some stop)) stop'
          exact ⟨_, .oneOrMore once' more', same⟩
  | oneOrMore_stops _ noTree ih =>
      intro r' shape
      cases shape with
      | repeated related =>
          have follows := h.yieldsLike_of_related within (ih inside within) related
          exact ⟨_, .oneOrMore_stops (follows.yields noTree) noTree, rfl⟩
  | oneOrMore_halts once _ ih ihMore =>
      intro r' shape
      cases shape with
      | repeated related =>
          obtain ⟨first', once', stop⟩ :=
            (h.yieldsLike_of_related within (ih inside within) related).exists_tree
          have more := ihMore inside (once.stop_bounds within).2 _ (.repeated related .zeroOrMore)
          rw [← stop] at more
          exact ⟨_, .oneOrMore_halts once' (more.yields (noTree_error _)), rfl⟩
  | unknown =>
      intro r' shape
      cases shape with
      | repeated => exact ⟨_, .unknown, rfl⟩

theorem yieldsLike (h : Exchange text g g' old new R) {pos : Nat} {o : Except Halt (Option Tree)}
    (yields : Yields text (some g) r pos o) (within : pos ≤ text.length) (related : R r r') :
    YieldsLike text g' r' pos o :=
  h.yieldsLike_of_related within (h.yieldsLike_of_sameShape yields rfl within) related

/-- What a rule bound to the first grammar yields is followed by the rule bound to the second one in
the same slot. -/
theorem exists_yields_bound (h : Exchange text g g' old new R) {env : Option Grammar} {slot : Nat}
    {pos : Nat} {o : Except Halt (Option Tree)} (yields : Yields text env (.bound g slot) pos o)
    (within : pos ≤ text.length) :
    ∃ o', Yields text env (.bound g' slot) pos o' ∧ stopOf o' = stopOf o := by
  cases yields with
  | bound found body =>
      obtain ⟨r', found', related⟩ := h.exists_ruleAt? found
      obtain ⟨o', body', same⟩ := h.yieldsLike body within related
      exact ⟨o', .bound found' body', same⟩
  | bound_missing missing => exact ⟨_, .bound_missing (h.ruleAt?_eq_none missing), rfl⟩

/-- The old rule can be put back if in the first grammar it stops wherever the new one does. -/
theorem flip (h : Exchange text g g' old new R)
    (follows : ∀ pos ≤ text.length, ∀ o, Yields text (some g) new pos o →
      ∃ o', Yields text (some g) old pos o' ∧ stopOf o' = stopOf o) :
    Exchange text g' g new old fun r' r ↦ R r r' where
  refl := h.refl
  here_or_parts r' r related :=
    (h.here_or_parts r r' related).imp And.symm SameShape.flip
  rules := h.rules.flip
  follows := follows

end Exchange

end Peg
