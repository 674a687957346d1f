import Mathlib.Data.Set.Card
import Peg.Proofs.Evaluation.Calls

/-!
# Left recursion

A slot is left recursive when the rule in it comes back to the slot before anything has been
consumed. Inside of one rule calls only go to smaller rules, so an endless chain of calls without
progress comes back to some slot. Where no slot is left recursive such calls do not run in circles,
and the number of places that can be reached by them is a rank.
-/

namespace Peg

open Relation Place

theorem Place.among_of_reflTransGen {among : Place → Prop} {v w : Place}
    (calls : ∀ v w, among v → v.Calls w → among w) (mem : among v)
    (h : ReflTransGen Calls v w) : among w := by
  induction h with
  | refl => exact mem
  | tail _ once ih => exact calls _ _ ih once

/-- The rule in the slot calls, without progress, something that stands for the slot. -/
def Grammar.LeftRecursive (g : Grammar) (slot : Int) : Prop :=
  ∃ r v, g.ruleAt? slot = some r ∧ ReflTransGen Calls ⟨g, r⟩ v ∧ v.StandsFor g slot

/-- A slot is not left recursive if there are places that its rule does not leave by calls without
progress and none of which stands for the slot. -/
theorem Grammar.not_leftRecursive {g : Grammar} {slot : Int} {among : Place → Prop}
    (first : ∀ r, g.ruleAt? slot = some r → among ⟨g, r⟩)
    (calls : ∀ v w, among v → v.Calls w → among w)
    (outside : ∀ v, among v → ¬ v.StandsFor g slot) : ¬ g.LeftRecursive slot := by
  rintro ⟨r, v, found, reaches, stands⟩
  exact outside v (among_of_reflTransGen calls (first r found) reaches) stands

namespace Place

variable {v w : Place}

/-! ## Circles -/

/-- A call goes to a smaller rule or to the rule in a slot. -/
theorem Calls.smaller_or_slot (h : v.Calls w) : sizeOf w.rule < sizeOf v.rule ∨
    ∃ slot, v.StandsFor w.grammar slot ∧ w.grammar.ruleAt? slot = some w.rule := by
  cases h with
  | repeated => exact .inl (by simp; omega)
  | followedBy | notFollowedBy => exact .inl (by simp)
  | sequence item =>
      have := List.sizeOf_lt_of_mem (List.mem_of_getElem? item)
      exact .inl (by simp; omega)
  | choice mem =>
      have := List.sizeOf_lt_of_mem mem
      exact .inl (by simp; omega)
  | slot stands found => exact .inr ⟨_, stands, found⟩

/-- Calls lead to a smaller rule unless there is a slot on the way. -/
theorem exists_slot_of_transGen (h : TransGen Calls v w) : sizeOf w.rule < sizeOf v.rule ∨
    ∃ u g slot r, ReflTransGen Calls v u ∧ u.StandsFor g slot ∧ g.ruleAt? slot = some r ∧
      ReflTransGen Calls ⟨g, r⟩ w := by
  induction h with
  | single once =>
      rcases once.smaller_or_slot with smaller | ⟨slot, stands, found⟩
      · exact .inl smaller
      · exact .inr ⟨v, _, slot, _, .refl, stands, found, .refl⟩
  | tail before once ih =>
      rcases once.smaller_or_slot with smaller | ⟨slot, stands, found⟩
      · rcases ih with smaller' | ⟨u, g, slot, r, reaches, stands, found, onward⟩
        · exact .inl (smaller.trans smaller')
        · exact .inr ⟨u, g, slot, r, reaches, stands, found, onward.tail once⟩
      · exact .inr ⟨_, _, slot, _, before.to_reflTransGen, stands, found, .refl⟩

theorem exists_leftRecursive_of_circle (h : TransGen Calls v v) :
    ∃ u g slot, ReflTransGen Calls v u ∧ u.StandsFor g slot ∧ g.LeftRecursive slot := by
  rcases exists_slot_of_transGen h with smaller | ⟨u, g, slot, r, reaches, stands, found, onward⟩
  · exact absurd smaller (Nat.lt_irrefl _)
  · exact ⟨u, g, slot, reaches, stands, r, u, found, onward.trans reaches, stands⟩

/-! ## Ranks -/

/-- The number of places that a place reaches by calls without progress. -/
noncomputable def reach (v : Place) : Nat := {w | ReflTransGen Calls v w}.ncard

section Reach

variable {among : Place → Prop} {places : List Place}

/-- Among finitely many places without left recursion the number of places that are reached is a
rank, bounded by the number of places. -/
theorem ranked_reach (ready : ∀ v, among v → v.Ready)
    (part : ∀ v part, among v → Rule.PartOf part v.rule → among ⟨v.grammar, part⟩)
    (calls : ∀ v w, among v → v.Calls w → among w) (listed : ∀ v, among v → v ∈ places)
    (noLeftRecursion : ∀ v g slot, among v → v.StandsFor g slot → ¬ g.LeftRecursive slot) :
    Ranked among reach places.length := by
  classical
  have sub : ∀ v, among v → {w | ReflTransGen Calls v w} ⊆ (places.toFinset : Set Place) := by
    intro v mem w reaches
    exact List.mem_toFinset.mpr (listed w (among_of_reflTransGen calls mem reaches))
  have finite : ∀ v, among v → {w | ReflTransGen Calls v w}.Finite := fun v mem ↦
    places.toFinset.finite_toSet.subset (sub v mem)
  refine ⟨ready, part, fun v w mem once ↦ ⟨calls v w mem once, ?_⟩, ?_, ?_⟩
  · -- The place called reaches less: it does not come back.
    refine Set.ncard_lt_ncard ⟨fun u reaches ↦ .head once reaches, fun back ↦ ?_⟩ (finite v mem)
    have circle : TransGen Calls v v := .head' once (back .refl)
    obtain ⟨u, g, slot, reaches, stands, recursive⟩ := exists_leftRecursive_of_circle circle
    exact noLeftRecursion u g slot (among_of_reflTransGen calls mem reaches) stands recursive
  · exact fun v mem ↦ (Set.ncard_pos (finite v mem)).mpr ⟨v, .refl⟩
  · intro v mem
    calc reach v ≤ (places.toFinset : Set Place).ncard :=
          Set.ncard_le_ncard (sub v mem) places.toFinset.finite_toSet
      _ = places.toFinset.card := Set.ncard_coe_finset _
      _ ≤ places.length := places.toFinset_card_le

end Reach

end Place

end Peg
