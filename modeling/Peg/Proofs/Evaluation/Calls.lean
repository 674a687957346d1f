import Mathlib.Logic.Relation
import Peg.Proofs.Evaluation.Adequacy
import Peg.Proofs.Rule.Parts

/-!
# Calls without progress

A rule that runs inside of a grammar calls other rules: some of them at the position where it runs
itself, the others further on. Which is which can be told from the rules, without a text: what has
matched without consuming anything is nullable, so an item of a sequence runs where the sequence
does only if all items before it are nullable.

If each call without progress lowers a rank, every run ends, and the frames that it needs are linear
in what is left of the text: a call that makes progress may raise the rank again, but there are only
as many of these as there are characters.
-/

namespace Peg

/-- A rule and the grammar that its references are looked up in. -/
structure Place where
  /-- The grammar at hand. -/
  grammar : Grammar
  /-- The rule that runs. -/
  rule : Rule

namespace Place

def run (text : Text) (frames : Nat) (v : Place) : Matcher :=
  eval text.toArray frames (some v.grammar) v.rule

/-- The rule is a reference to a slot of the grammar at hand, or is bound in a slot of its own
grammar. -/
inductive StandsFor : Place → Grammar → Int → Prop where
  /-- A linked reference. -/
  | reference {g : Grammar} {name : Text} {slot : Int} :
      StandsFor ⟨g, .reference name (some slot)⟩ g slot
  /-- A bound rule. -/
  | bound {g h : Grammar} {slot : Nat} : StandsFor ⟨g, .bound h slot⟩ h slot

/-- A bound rule stands for its slot and no other. -/
theorem standsFor_bound_iff {g h h' : Grammar} {slot : Nat} {slot' : Int} :
    StandsFor ⟨g, .bound h slot⟩ h' slot' ↔ h' = h ∧ slot' = slot := by
  constructor
  · rintro ⟨⟩
    exact ⟨rfl, rfl⟩
  · rintro ⟨rfl, rfl⟩
    exact .bound

/-- The rule may match without consuming anything, as far as the rules tell without a text. -/
inductive Nullable : Place → Prop where
  /-- The empty literal. -/
  | literal {g : Grammar} : Nullable ⟨g, .literal []⟩
  /-- An option may match nothing. -/
  | optional {g : Grammar} {r : Rule} : Nullable ⟨g, .repeated r .optional⟩
  /-- A repetition may match nothing. -/
  | zeroOrMore {g : Grammar} {r : Rule} : Nullable ⟨g, .repeated r .zeroOrMore⟩
  /-- A repetition at least once is nullable if its rule is. -/
  | oneOrMore {g : Grammar} {r : Rule} (inner : Nullable ⟨g, r⟩) :
      Nullable ⟨g, .repeated r .oneOrMore⟩
  /-- A positive lookahead consumes nothing. -/
  | followedBy {g : Grammar} {r : Rule} : Nullable ⟨g, .followedBy r⟩
  /-- A negative lookahead consumes nothing. -/
  | notFollowedBy {g : Grammar} {r : Rule} : Nullable ⟨g, .notFollowedBy r⟩
  /-- A sequence is nullable if all its items are. -/
  | sequence {g : Grammar} {items : List Rule} (all : ∀ r ∈ items, Nullable ⟨g, r⟩) :
      Nullable ⟨g, .sequence items⟩
  /-- A choice is nullable if one of its alternatives is. -/
  | choice {g : Grammar} {alternatives : List Rule} {r : Rule} (mem : r ∈ alternatives)
      (inner : Nullable ⟨g, r⟩) : Nullable ⟨g, .choice alternatives⟩
  /-- What stands for a slot is nullable if the rule in the slot is. -/
  | slot {v : Place} {h : Grammar} {slot : Int} {r : Rule} (stands : v.StandsFor h slot)
      (found : h.ruleAt? slot = some r) (inner : Nullable ⟨h, r⟩) : Nullable v

/-- The first rule runs the second one at the position where it runs itself. -/
inductive Calls : Place → Place → Prop where
  /-- A repetition runs its rule. -/
  | repeated {g : Grammar} {r : Rule} {quantifier : Quantifier} :
      Calls ⟨g, .repeated r quantifier⟩ ⟨g, r⟩
  /-- A positive lookahead runs its rule. -/
  | followedBy {g : Grammar} {r : Rule} : Calls ⟨g, .followedBy r⟩ ⟨g, r⟩
  /-- A negative lookahead runs its rule. -/
  | notFollowedBy {g : Grammar} {r : Rule} : Calls ⟨g, .notFollowedBy r⟩ ⟨g, r⟩
  /-- A sequence runs an item that has only nullable ones before it. -/
  | sequence {g : Grammar} {items : List Rule} {r : Rule} {k : Nat} (item : items[k]? = some r)
      (before : ∀ j s, j < k → items[j]? = some s → Nullable ⟨g, s⟩) :
      Calls ⟨g, .sequence items⟩ ⟨g, r⟩
  /-- A choice runs each of its alternatives. -/
  | choice {g : Grammar} {alternatives : List Rule} {r : Rule} (mem : r ∈ alternatives) :
      Calls ⟨g, .choice alternatives⟩ ⟨g, r⟩
  /-- What stands for a slot runs the rule in the slot. -/
  | slot {v : Place} {h : Grammar} {slot : Int} {r : Rule} (stands : v.StandsFor h slot)
      (found : h.ruleAt? slot = some r) : Calls v ⟨h, r⟩

theorem not_calls_literal {g : Grammar} {t : Text} {w : Place} : ¬ Calls ⟨g, .literal t⟩ w := by
  rintro (_ | _ | _ | _ | _ | ⟨⟨⟩, _⟩)

/-- Nothing is missing where the rule runs: its slot holds a rule and its quantifier has a
meaning. -/
structure Ready (v : Place) : Prop where
  /-- A reference finds a rule. -/
  reference : ∀ name slot, v.rule = .reference name slot →
    ∃ n r, slot = some n ∧ v.grammar.ruleAt? n = some r
  /-- A bound rule finds a rule. -/
  bound : ∀ (h : Grammar) (slot : Nat), v.rule = .bound h slot → ∃ r, h.ruleAt? slot = some r
  /-- The quantifier is known. -/
  known : ∀ inner symbol, v.rule ≠ .repeated inner (.unknown symbol)

end Place

open Place

/-! ## What consumes nothing -/

section Nullable

variable {text : Text} {p : Nat → Nat} {ts : List Tree}

theorem Consecutive.stop_eq (next : Consecutive p ts)
    (each : ∀ k t, ts[k]? = some t → p k ≤ t.stop ∧ t.stop ≤ max (p k) text.length)
    (still : p ts.length = p 0) {k : Nat} {t : Tree} (found : ts[k]? = some t) :
    t.stop = p k := by
  have lt := (List.getElem?_eq_some_iff.mp found).1
  have before : p 0 ≤ p k := (next.stays each (Nat.zero_le k) (Nat.le_of_lt lt)).1
  have after : p (k + 1) ≤ p ts.length := (next.stays each lt (Nat.le_refl _)).1
  have := each k t found
  have := next k t found
  omega

/-- A rule that has matched without consuming anything is nullable. -/
theorem nullable_of_yields {env : Option Grammar} {g : Grammar} {r : Rule} {pos : Nat}
    {o : Except Halt (Option Tree)} {t : Tree} (h : Yields text env r pos o) (here : env = some g)
    (tree : o = .ok (some t)) (still : t.stop = pos) : Nullable ⟨g, r⟩ := by
  induction h generalizing g t with
  | @literal _ t _ =>
      cases tree
      obtain rfl : t = [] := List.length_eq_zero_iff.mp (by simpa using still)
      exact .literal
  | charRange | anyChar =>
      cases tree
      simp at still
  | reference found _ ih =>
      cases here
      exact .slot .reference found (ih rfl tree still)
  | bound found _ ih => exact .slot .bound found (ih rfl tree still)
  | followedBy => exact .followedBy
  | notFollowedBy => exact .notFollowedBy
  | @sequence _ items ts p all next each ih =>
      cases tree
      apply Nullable.sequence
      intro r mem
      obtain ⟨k, item⟩ := List.mem_iff_getElem?.mp mem
      have stays : ∀ k t, ts[k]? = some t → p k ≤ t.stop ∧ t.stop ≤ max (p k) text.length := by
        intro k t found
        have lt := (List.getElem?_eq_some_iff.mp found).1
        exact (each k _ t (List.getElem?_eq_getElem (all ▸ lt)) found).stays
      have found := List.getElem?_eq_getElem (all.symm ▸ (List.getElem?_eq_some_iff.mp item).1)
      exact ih k r _ item found here rfl (next.stop_eq stays (all.symm ▸ still) found)
  | choice chosen _ _ _ _ ih => exact .choice (List.mem_of_getElem? chosen) (ih here tree still)
  | «optional» => exact .optional
  | optional_empty => exact .optional
  | zeroOrMore => exact .zeroOrMore
  | oneOrMore once more ih =>
      cases tree
      have onward := more.stays.1
      exact .oneOrMore (ih here rfl (Nat.le_antisymm (onward.trans still.le) once.stays.1))
  | followedBy_stops _ noTree | sequence_stops _ _ _ _ noTree | oneOrMore_stops _ noTree =>
      exact absurd tree (noTree t)
  | _ => cases tree

end Nullable

/-! ## What halts a run -/

section Halts

variable {size : Nat} {halt : Halt}

/-- A sequence halts because an item does. That one runs further on, or where the sequence runs and
the items before it have consumed nothing. -/
theorem exists_item_of_halt {run : Rule → Matcher} (h : ∀ r, StaysWithin size (run r))
    {items : List Rule} {pos : Nat} (halts : inSequence run items pos = .error halt) :
    ∃ (k : Nat) (r : Rule) (q : Nat), items[k]? = some r ∧ run r q = .error halt ∧
      pos ≤ q ∧ q ≤ max pos size ∧
      (q = pos → ∀ j s, j < k → items[j]? = some s →
        ∃ t, run s pos = .ok (some t) ∧ t.stop = pos) := by
  induction items generalizing pos with
  | nil => cases halts
  | cons r rest ih =>
      rcases Except.bind_eq_error_iff.mp halts with first | ⟨found, first, later⟩
      · refine ⟨0, r, pos, rfl, first, Nat.le_refl pos, Nat.le_max_left pos size, ?_⟩
        exact fun _ j _ lt ↦ absurd lt j.not_lt_zero
      · cases found with
        | none => cases later
        | some t =>
            replace later : inSequence run rest t.stop = .error halt := by
              rcases Except.bind_eq_error_iff.mp later with stops | ⟨found, -, ends⟩
              · exact stops
              · cases found with
                | none => cases ends
                | some reached => cases ends
            obtain ⟨k, s, q, item, stops, after, within, before⟩ := ih later
            have bounds := h r pos t first
            refine ⟨k + 1, s, q, item, stops, by omega, by omega, ?_⟩
            intro same j u lt found
            have still : t.stop = pos := by omega
            cases j with
            | zero =>
                cases found
                exact ⟨t, first, still⟩
            | succ j =>
                rw [still] at before
                exact before same j u (Nat.lt_of_succ_lt_succ lt) found

/-- A choice halts because an alternative does. -/
theorem exists_alternative_of_halt {run : Rule → Matcher} {alternatives : List Rule} {pos : Nat}
    (halts : firstOf run alternatives pos = .error halt) :
    ∃ r ∈ alternatives, run r pos = .error halt := by
  rcases exists_taken_of_firstOf run alternatives pos with
    ⟨-, ran⟩ | ⟨k, r, chosen, -, -, ran⟩
  · rw [ran] at halts
    cases halts
  · exact ⟨r, List.mem_of_getElem? chosen, ran ▸ halts⟩

/-- A repetition halts because its rule does, where the repetition runs or further on. -/
theorem exists_round_of_halt {run : Matcher} (h : StaysWithin size run) {rounds pos : Nat}
    (halts : chain run rounds pos = .error halt) :
    ∃ q, run q = .error halt ∧ pos ≤ q ∧ q ≤ max pos size := by
  induction rounds generalizing pos with
  | zero => cases halts
  | succ rounds ih =>
      rcases Except.bind_eq_error_iff.mp halts with first | ⟨found, first, later⟩
      · exact ⟨pos, first, Nat.le_refl pos, Nat.le_max_left pos size⟩
      · cases found with
        | none => cases later
        | some t =>
            simp only at later
            split at later
            next => cases later
            next =>
              rcases Except.bind_eq_error_iff.mp later with stops | ⟨found, -, ends⟩
              · obtain ⟨q, stops, after, within⟩ := ih stops
                have bounds := h pos t first
                exact ⟨q, stops, by omega, by omega⟩
              · cases ends

/-- A repetition halts because its rule does, with the same number of frames or one less. -/
theorem exists_run_of_halt {input : Array CodePoint} {env : Option Grammar} {r : Rule}
    {frames pos : Nat} (halts : evalChain input frames env r pos = .error halt) :
    ∃ q frames', eval input frames' env r q = .error halt ∧ pos ≤ q ∧ q ≤ max pos input.size ∧
      frames' ≤ frames ∧ frames ≤ frames' + 1 := by
  cases frames with
  | zero =>
      cases halts
      exact ⟨pos, 0, eval_zero .., Nat.le_refl pos, Nat.le_max_left pos input.size,
        Nat.le_refl 0, Nat.zero_le 1⟩
  | succ frames =>
      rw [evalChain_succ] at halts
      obtain ⟨q, stops, after, within⟩ :=
        exists_round_of_halt (staysWithin_eval input frames env r) halts
      exact ⟨q, frames, stops, after, within, Nat.le_succ frames, Nat.le_refl _⟩

end Halts

namespace Place

/-- The run of the first rule at a position leads to a run of the second one at another position:
without progress, or in the same grammar and further on. -/
inductive LeadsTo (size : Nat) (v : Place) (pos : Nat) : Place → Nat → Prop where
  /-- A call without progress. -/
  | still {w : Place} (calls : v.Calls w) : LeadsTo size v pos w pos
  /-- A part of the rule runs after some progress. -/
  | onward {part : Rule} {q : Nat} (h : Rule.PartOf part v.rule) (lt : pos < q) (le : q ≤ size) :
      LeadsTo size v pos ⟨v.grammar, part⟩ q

/-- A part of the rule that runs at the same position or further on, and is called if it is the
same. -/
theorem LeadsTo.of_part {size : Nat} {v : Place} {part : Rule} {pos q : Nat}
    (h : Rule.PartOf part v.rule) (le : pos ≤ q) (within : q ≤ size)
    (calls : q = pos → v.Calls ⟨v.grammar, part⟩) :
    LeadsTo size v pos ⟨v.grammar, part⟩ q := by
  rcases Nat.eq_or_lt_of_le le with rfl | lt
  · exact .still (calls rfl)
  · exact .onward h lt within

/-- Where nothing is missing, a run halts because of a run that it leads to, one or two frames
deeper. -/
theorem exists_leadsTo_of_halt {text : Text} {v : Place} (ready : v.Ready) {frames pos : Nat}
    {halt : Halt} (inside : pos ≤ text.length)
    (halts : v.run text (frames + 1) pos = .error halt) :
    ∃ w q frames', LeadsTo text.length v pos w q ∧ w.run text frames' q = .error halt ∧
      frames' ≤ frames ∧ frames ≤ frames' + 1 := by
  obtain ⟨g, r⟩ := v
  have stays : ∀ r, StaysWithin text.length (eval text.toArray frames (some g) r) :=
    fun r ↦ text.size_toArray ▸ staysWithin_eval text.toArray frames (some g) r
  -- Most runs are one frame deeper and at the same position.
  have here : ∀ {w}, Calls ⟨g, r⟩ w → w.run text frames pos = .error halt →
      ∃ w q frames', LeadsTo text.length ⟨g, r⟩ pos w q ∧ w.run text frames' q = .error halt ∧
        frames' ≤ frames ∧ frames ≤ frames' + 1 :=
    fun calls stops ↦ ⟨_, pos, frames, .still calls, stops, Nat.le_refl _, Nat.le_succ _⟩
  -- The rounds of a repetition are two frames deeper.
  have rounds : ∀ {inner quantifier q}, r = .repeated inner quantifier →
      evalChain text.toArray frames (some g) inner q = .error halt → pos ≤ q → q ≤ text.length →
      ∃ w q frames', LeadsTo text.length ⟨g, r⟩ pos w q ∧ w.run text frames' q = .error halt ∧
        frames' ≤ frames ∧ frames ≤ frames' + 1 := by
    rintro inner quantifier q rfl stops le within
    obtain ⟨q', frames', stops, le', within', bounds⟩ := exists_run_of_halt stops
    rw [List.size_toArray, Nat.max_eq_right within] at within'
    exact ⟨⟨g, inner⟩, q', frames', .of_part (.repeated .refl _) (le.trans le') within'
      fun _ ↦ .repeated, stops, bounds⟩
  unfold run at halts
  cases r with
  | literal t => rw [eval_literal] at halts; cases halts
  | charRange ranges => rw [eval_charRange] at halts; cases halts
  | anyChar => rw [eval_anyChar] at halts; cases halts
  | reference name slot =>
      obtain ⟨n, r, rfl, found⟩ := ready.reference name slot rfl
      rw [eval_reference, resolve, ruleIn, found] at halts
      exact here (.slot .reference found) halts
  | bound h slot =>
      obtain ⟨r, found⟩ := ready.bound h slot rfl
      rw [eval_bound, ruleIn, found] at halts
      exact here (.slot .bound found) halts
  | followedBy r =>
      rw [eval_followedBy] at halts
      rcases Except.bind_eq_error_iff.mp halts with stops | ⟨found, -, ends⟩
      · exact here .followedBy stops
      · cases found with
        | none => cases ends
        | some t => cases ends
  | notFollowedBy r =>
      rw [eval_notFollowedBy] at halts
      rcases Except.bind_eq_error_iff.mp halts with stops | ⟨found, -, ends⟩
      · exact here .notFollowedBy stops
      · cases found with
        | none => cases ends
        | some t => cases ends
  | sequence items =>
      rw [eval_sequence] at halts
      rcases Except.bind_eq_error_iff.mp halts with stops | ⟨found, -, ends⟩
      · obtain ⟨k, r, q, item, stops, le, within, before⟩ := exists_item_of_halt stays stops
        rw [Nat.max_eq_right inside] at within
        refine ⟨⟨g, r⟩, q, frames, .of_part (.sequence (List.mem_of_getElem? item) .refl) le within
          ?_, stops, Nat.le_refl _, Nat.le_succ _⟩
        intro same
        refine .sequence item fun j s lt found ↦ ?_
        obtain ⟨t, ran, still⟩ := before same j s lt found
        exact nullable_of_yields (yields_of_eval ran (by simp)) rfl rfl still
      · cases found with
        | none => cases ends
        | some reached => cases ends
  | choice alternatives =>
      rw [eval_choice] at halts
      obtain ⟨r, mem, stops⟩ := exists_alternative_of_halt halts
      exact here (.choice mem) stops
  | repeated r quantifier =>
      cases quantifier with
      | «optional» =>
          rw [eval_optional] at halts
          rcases Except.bind_eq_error_iff.mp halts with stops | ⟨found, -, ends⟩
          · exact here .repeated stops
          · cases found with
            | none => cases ends
            | some t => cases ends
      | zeroOrMore =>
          rw [eval_zeroOrMore] at halts
          rcases Except.bind_eq_error_iff.mp halts with stops | ⟨reached, -, ends⟩
          · exact rounds rfl stops (Nat.le_refl _) inside
          · cases ends
      | oneOrMore =>
          rw [eval_oneOrMore] at halts
          rcases Except.bind_eq_error_iff.mp halts with stops | ⟨found, first, later⟩
          · exact here .repeated stops
          · cases found with
            | none => cases later
            | some t =>
                have bounds := stays r pos t first
                rw [Nat.max_eq_right inside] at bounds
                rcases Except.bind_eq_error_iff.mp later with stops | ⟨reached, -, ends⟩
                · exact rounds rfl stops bounds.1 bounds.2
                · cases ends
      | unknown symbol => exact absurd rfl (ready.known r symbol)

/-! ## Ranks -/

/-- Among the places nothing is missing, they are closed under parts and calls, and a rank between
one and some bound is lowered by each call without progress. -/
structure Ranked (among : Place → Prop) (rank : Place → Nat) (bound : Nat) : Prop where
  /-- Nothing is missing. -/
  ready : ∀ v, among v → v.Ready
  /-- What is part of a rule is among the places. -/
  part : ∀ v part, among v → Rule.PartOf part v.rule → among ⟨v.grammar, part⟩
  /-- What is called is among the places and has a lower rank. -/
  calls : ∀ v w, among v → v.Calls w → among w ∧ rank w < rank v
  /-- The rank is at least one. -/
  rank_pos : ∀ v, among v → 0 < rank v
  /-- The rank does not exceed the bound. -/
  rank_le : ∀ v, among v → rank v ≤ bound

/-- The frames that are enough for a rule of some rank when some number of characters is left: two
for each rank, and two for each character and each rank there is. -/
def framesFor (rank bound left : Nat) : Nat := 2 * rank + 2 * bound * left

namespace Ranked

variable {among : Place → Prop} {rank : Place → Nat} {bound : Nat} {text : Text} {v w : Place}
  {pos q : Nat}

theorem framesFor_add_two_le (ranked : Ranked among rank bound) (mem : among v) {size : Nat}
    (h : LeadsTo size v pos w q) (inside : pos ≤ size) :
    among w ∧ q ≤ size ∧
      framesFor (rank w) bound (size - q) + 2 ≤ framesFor (rank v) bound (size - pos) := by
  unfold framesFor
  cases h with
  | still calls =>
      obtain ⟨mem', lt⟩ := ranked.calls v w mem calls
      exact ⟨mem', inside, by omega⟩
  | @onward part _ h lt le =>
      have mem' := ranked.part v part mem h
      refine ⟨mem', le, ?_⟩
      have := ranked.rank_le _ mem'
      have := ranked.rank_pos v mem
      have progress : 2 * bound * (size - q + 1) ≤ 2 * bound * (size - pos) :=
        Nat.mul_le_mul_left _ (by omega)
      rw [Nat.mul_add_one] at progress
      omega

/-- The frames that are enough are linear in what is left. -/
theorem framesFor_lt (ranked : Ranked among rank bound) (mem : among v) (left : Nat) :
    framesFor (rank v) bound left < 4 * bound * (left + 1) := by
  have low := ranked.rank_pos v mem
  have high := ranked.rank_le v mem
  unfold framesFor
  rw [Nat.mul_assoc 2, Nat.mul_assoc 4, Nat.mul_add_one]
  omega

/-- With these frames a run ends with a tree or a failure. -/
theorem exists_run (ranked : Ranked among rank bound) (mem : among v) (inside : pos ≤ text.length)
    {frames : Nat} (enough : framesFor (rank v) bound (text.length - pos) ≤ frames) :
    ∃ o, v.run text frames pos = .ok o := by
  induction frames using Nat.strong_induction_on generalizing v pos with
  | _ frames ih =>
      cases frames with
      | zero =>
          have := ranked.rank_pos v mem
          unfold framesFor at enough
          omega
      | succ frames =>
          rcases outcome : v.run text (frames + 1) pos with halt | o
          · obtain ⟨w, q, frames', leads, halts, le, ge⟩ :=
              exists_leadsTo_of_halt (ranked.ready v mem) inside outcome
            obtain ⟨mem', inside', less⟩ := ranked.framesFor_add_two_le mem leads inside
            obtain ⟨o, ran⟩ := ih frames' (Nat.lt_succ_of_le le) mem' inside' (by omega)
            rw [halts] at ran
            cases ran
          · exact ⟨o, rfl⟩

end Ranked

end Place

end Peg
