import Peg.Proofs.Grammar.Linking
import Peg.Source.Basic

/-!
# Linking with frames

How many frames a rule needs to be linked can be read off it, and with so many of them it is linked
as if frames did not matter. With fewer of them it is not linked: the frames run out, unless a
reference without a slot is found before that. The same is true of a grammar and its rules.
-/

namespace Peg

open Except

namespace Rule

mutual

/-- How many frames the rule needs to be linked: one for the rule itself, one more to go through the
parts of a sequence or of a choice, and those of the part that needs most of them. Bound rules are
not entered. -/
def linkDepth : Rule → Nat
  | repeated inner _ | followedBy inner | notFollowedBy inner => inner.linkDepth + 1
  | sequence parts | choice parts => greatestLinkDepth parts + 2
  | _ => 1

def greatestLinkDepth : List Rule → Nat
  | [] => 0
  | r :: rest => max r.linkDepth (greatestLinkDepth rest)

end

theorem greatestLinkDepth_le_iff {rs : List Rule} {n : Nat} :
    greatestLinkDepth rs ≤ n ↔ ∀ r ∈ rs, r.linkDepth ≤ n := by
  induction rs with
  | nil => simp [greatestLinkDepth]
  | cons r rs ih => rw [greatestLinkDepth, Nat.max_le, ih, List.forall_mem_cons]

theorem linkDepth_pos (r : Rule) : 0 < r.linkDepth := by
  cases r <;> simp [linkDepth]

/-! ## Rules -/

variable {slotOf : Text → Option Nat} {frames : Nat} {r r' : Rule}

/-- With any number of frames a rule is linked as without them, or they run out. -/
theorem upTo_linkWithin (slotOf : Text → Option Nat) (frames : Nat) :
    (∀ r, UpTo .outOfFrames (linkWithin slotOf frames r) ((link slotOf r).mapError .undefined)) ∧
      ∀ rs, UpTo .outOfFrames (linkAllWithin slotOf frames rs)
        ((linkAll slotOf rs).mapError .undefined) := by
  induction frames with
  | zero => exact ⟨fun _ ↦ .error _ _, fun _ ↦ .error _ _⟩
  | succ frames ih =>
      obtain ⟨rule, rules⟩ := ih
      constructor
      · intro r
        cases r with
        | literal | charRange | anyChar | reference | bound => exact .refl _ _
        | repeated inner | followedBy inner | notFollowedBy inner =>
            simp only [link_repeated, link_followedBy, link_notFollowedBy, mapError_bind]
            exact (rule inner).bind_right _
        | sequence parts | choice parts =>
            simp only [link_sequence, link_choice, mapError_bind]
            exact (rules parts).bind_right _
      · intro rs
        rw [linkAllWithin, linkAll_eq_mapM, mapError_mapM]
        exact .mapM fun r _ ↦ rule r

/-- The frames that a rule needs are enough to link it as without them. -/
theorem linkWithin_eq_of_le (slotOf : Text → Option Nat) (frames : Nat) :
    (∀ r : Rule, r.linkDepth ≤ frames →
      r.linkWithin slotOf frames = (r.link slotOf).mapError .undefined) ∧
      ∀ rs, greatestLinkDepth rs + 1 ≤ frames →
        linkAllWithin slotOf frames rs = (linkAll slotOf rs).mapError .undefined := by
  induction frames with
  | zero =>
      refine ⟨fun r enough ↦ ?_, fun rs enough ↦ absurd enough (Nat.not_succ_le_zero _)⟩
      exact absurd (Nat.lt_of_lt_of_le r.linkDepth_pos enough) (Nat.lt_irrefl 0)
  | succ frames ih =>
      obtain ⟨rule, rules⟩ := ih
      constructor
      · intro r enough
        cases r with
        | literal | charRange | anyChar | reference | bound => rfl
        | repeated inner | followedBy inner | notFollowedBy inner =>
            simp only [link_repeated, link_followedBy, link_notFollowedBy, mapError_bind]
            rw [← rule inner (Nat.le_of_succ_le_succ enough)]
            rfl
        | sequence parts | choice parts =>
            simp only [link_sequence, link_choice, mapError_bind]
            rw [← rules parts (Nat.le_of_succ_le_succ enough)]
            rfl
      · intro rs enough
        have each := greatestLinkDepth_le_iff.mp (Nat.le_of_succ_le_succ enough)
        rw [linkAllWithin, linkAll_eq_mapM, mapError_mapM]
        exact mapM_congr_mem fun r mem ↦ rule r (each r mem)

theorem linkDepth_le_of_linkWithin (slotOf : Text → Option Nat) (frames : Nat) :
    (∀ r r' : Rule, r.linkWithin slotOf frames = .ok r' → r.linkDepth ≤ frames) ∧
      ∀ rs rs', linkAllWithin slotOf frames rs = .ok rs' → greatestLinkDepth rs + 1 ≤ frames := by
  induction frames with
  | zero => exact ⟨nofun, nofun⟩
  | succ frames ih =>
      obtain ⟨rule, rules⟩ := ih
      constructor
      · intro r r' linked
        cases r with
        | literal | charRange | anyChar | reference | bound => exact Nat.succ_pos frames
        | repeated inner | followedBy inner | notFollowedBy inner =>
            obtain ⟨inner', linked, -⟩ := bind_eq_ok_iff.mp linked
            exact Nat.succ_le_succ (rule inner inner' linked)
        | sequence parts | choice parts =>
            obtain ⟨parts', linked, -⟩ := bind_eq_ok_iff.mp linked
            exact Nat.succ_le_succ (rules parts parts' linked)
      · intro rs rs' linked
        refine Nat.succ_le_succ (greatestLinkDepth_le_iff.mpr fun r mem ↦ ?_)
        obtain ⟨r', -, linked⟩ := (mapM_eq_ok_iff.mp linked).exists_right mem
        exact rule r r' linked

theorem linkWithin_eq_ok_iff : r.linkWithin slotOf frames = .ok r' ↔
    r.link slotOf = .ok r' ∧ r.linkDepth ≤ frames := by
  constructor
  · intro linked
    have enough := (linkDepth_le_of_linkWithin slotOf frames).1 r r' linked
    rw [(linkWithin_eq_of_le slotOf frames).1 r enough] at linked
    exact ⟨mapError_eq_ok_iff.mp linked, enough⟩
  · rintro ⟨linked, enough⟩
    rw [(linkWithin_eq_of_le slotOf frames).1 r enough, linked]
    rfl

end Rule

/-! ## Grammars -/

/-- How many frames the operand needs if it is linked. A text stands for a literal. -/
def Operand.linkDepth : Operand → Nat
  | rule r => r.linkDepth
  | value _ => 1

theorem Operand.linkDepth_of_toRule {o : Operand} {r : Rule} (h : o.toRule = .ok r) :
    r.linkDepth = o.linkDepth := by
  unfold toRule at h
  split at h
  · cases h
    rfl
  · cases h
    rfl
  · cases h

namespace Grammar

variable {frames id : Nat} {table : Table} {start : Value} {g : Grammar}

/-- With any number of frames a grammar is built as without them, or they run out. -/
theorem upTo_buildWithin (frames id : Nat) (table : Table) (start : Value) :
    UpTo .outOfFrames (buildWithin frames id table start)
      ((build id table start).mapError .undefined) := by
  rw [build, buildWithin]
  split
  · exact .refl _ _
  · simp only [mapError_bind, mapError_mapM]
    refine UpTo.bind_left _ fun names ↦ UpTo.bind_left _ fun start' ↦ ?_
    have rules : UpTo .outOfFrames
        (table.mapM fun entry ↦ do
          (← entry.2.toRule.mapError .undefined).linkWithin names.idxOf? frames)
        (table.mapM fun entry ↦ do
          ((← entry.2.toRule.mapError .undefined).link names.idxOf?).mapError .undefined) :=
      .mapM fun entry _ ↦ .bind_left _ (Rule.upTo_linkWithin names.idxOf? frames).1
    exact rules.bind_right _

/-- The frames do not run out if there are enough for each rule. -/
theorem buildWithin_ne_outOfFrames (enough : ∀ entry ∈ table, entry.2.linkDepth ≤ frames) :
    buildWithin frames id table start ≠ .error .outOfFrames := by
  have undefined : ∀ {α : Type} {x : Except DefinitionError α},
      x.mapError BuildError.undefined ≠ .error .outOfFrames := by
    intro α x out
    obtain ⟨e, -, impossible⟩ := mapError_eq_error_iff.mp out
    cases impossible
  intro out
  rw [buildWithin] at out
  split at out
  · cases out
  · rcases bind_eq_error_iff.mp out with out | ⟨names, -, out⟩
    · exact undefined out
    rcases bind_eq_error_iff.mp out with out | ⟨start', -, out⟩
    · exact undefined out
    rcases bind_eq_error_iff.mp out with out | ⟨rules, -, impossible⟩
    · obtain ⟨entry, mem, out⟩ := exists_error_of_mapM out
      rcases bind_eq_error_iff.mp out with out | ⟨r, rule, out⟩
      · exact undefined out
      · have needed := Operand.linkDepth_of_toRule (mapError_eq_ok_iff.mp rule)
        rw [(Rule.linkWithin_eq_of_le _ frames).1 r (needed ▸ enough entry mem)] at out
        exact undefined out
    · cases impossible

theorem buildWithin_eq_of_le (enough : ∀ entry ∈ table, entry.2.linkDepth ≤ frames) :
    buildWithin frames id table start = (build id table start).mapError .undefined :=
  (upTo_buildWithin frames id table start).resolve_left (buildWithin_ne_outOfFrames enough)

/-- A grammar is built with a number of frames if it can be built and no rule needs more of them. -/
theorem buildWithin_eq_ok_iff : buildWithin frames id table start = .ok g ↔
    build id table start = .ok g ∧ ∀ entry ∈ table, entry.2.linkDepth ≤ frames := by
  constructor
  · intro built
    constructor
    · have same := (upTo_buildWithin frames id table start).eq_of_ne (by rw [built]; exact nofun)
      exact mapError_eq_ok_iff.mp (same.trans built)
    · rw [buildWithin] at built
      split at built
      · cases built
      · obtain ⟨names, -, built⟩ := bind_eq_ok_iff.mp built
        obtain ⟨start', -, built⟩ := bind_eq_ok_iff.mp built
        obtain ⟨rules, linked, -⟩ := bind_eq_ok_iff.mp built
        intro entry mem
        obtain ⟨r', -, linked⟩ := (mapM_eq_ok_iff.mp linked).exists_right mem
        obtain ⟨r, rule, linked⟩ := bind_eq_ok_iff.mp linked
        rw [← Operand.linkDepth_of_toRule (mapError_eq_ok_iff.mp rule)]
        exact (Rule.linkWithin_eq_ok_iff.mp linked).2
  · rintro ⟨built, enough⟩
    rw [buildWithin_eq_of_le enough, built]
    rfl

/-- A grammar that could be built runs out of frames if there are too few for one of its rules. -/
theorem buildWithin_eq_outOfFrames (built : build id table start = .ok g)
    {entry : Value × Operand} (mem : entry ∈ table) (few : frames < entry.2.linkDepth) :
    buildWithin frames id table start = .error .outOfFrames := by
  refine (upTo_buildWithin frames id table start).resolve_right fun same ↦ ?_
  rw [built] at same
  exact absurd ((buildWithin_eq_ok_iff.mp same).2 entry mem) (Nat.not_le.mpr few)

theorem build_eq_error_of_buildWithin {e : DefinitionError}
    (h : buildWithin frames id table start = .error (.undefined e)) :
    build id table start = .error e := by
  have same := (upTo_buildWithin frames id table start).eq_of_ne (by rw [h]; exact nofun)
  obtain ⟨e', fails, eq⟩ := mapError_eq_error_iff.mp (same.trans h)
  rw [fails, BuildError.undefined.inj eq]

end Grammar

/-! ## Sources -/

/-- The source nests too deeply for the frames: they run out while it is read, or while what is read
of it is linked. -/
def Source.TooDeep (frames id : Nat) (src : Text) (start : Value) : Prop :=
  rulesOf frames src = .error .outOfFrames ∨
    ∃ rules, rulesOf frames src = .ok rules ∧
      Grammar.buildWithin frames id (Grammar.tableOf rules) start = .error .outOfFrames

namespace Grammar

variable {frames id : Nat} {start : Value} {g : Grammar} {src : Text} {rules : List (Text × Rule)}

/-- The grammar of a source is built of the rules that are read. -/
theorem exists_build_of_ofSource (h : ofSource frames id src start = .ok g) :
    ∃ rules, Source.rulesOf frames src = .ok rules ∧ build id (tableOf rules) start = .ok g := by
  obtain ⟨rules, read, built⟩ := bind_eq_ok_iff.mp h
  have built := buildWithin_eq_ok_iff.mp (mapError_eq_ok_iff.mp built)
  exact ⟨rules, mapError_eq_ok_iff.mp read, built.1⟩

/-- With enough frames for each of its rules a source gives the grammar of their table. -/
theorem ofSource_eq_of_le (read : Source.rulesOf frames src = .ok rules)
    (enough : Rule.greatestLinkDepth (rules.map Prod.snd) ≤ frames) :
    ofSource frames id src start = (build id (tableOf rules) start).mapError .undefined := by
  have enough : ∀ entry ∈ tableOf rules, entry.2.linkDepth ≤ frames := by
    intro entry mem
    obtain ⟨⟨name, r⟩, mem', rfl⟩ := List.mem_map.mp mem
    exact Rule.greatestLinkDepth_le_iff.mp enough r (List.mem_map_of_mem mem')
  rw [ofSource, read]
  show (buildWithin frames id (tableOf rules) start).mapError _ = _
  rw [buildWithin_eq_of_le enough]
  cases build id (tableOf rules) start <;> rfl

/-- The frames run out on a source if and only if it nests too deeply for them. -/
theorem ofSource_eq_outOfFrames_iff :
    ofSource frames id src start = .error (.unreadable .outOfFrames) ↔
      Source.TooDeep frames id src start := by
  constructor
  · intro out
    rcases bind_eq_error_iff.mp out with unread | ⟨rules, read, unbuilt⟩
    · obtain ⟨e, unread, same⟩ := mapError_eq_error_iff.mp unread
      cases same
      exact .inl unread
    · obtain ⟨e, unbuilt, same⟩ := mapError_eq_error_iff.mp unbuilt
      cases e with
      | outOfFrames => exact .inr ⟨rules, mapError_eq_ok_iff.mp read, unbuilt⟩
      | undefined e => cases same
  · rintro (unread | ⟨rules, read, unbuilt⟩)
    · rw [ofSource, unread]
      rfl
    · rw [ofSource, read]
      show (buildWithin frames id (tableOf rules) start).mapError _ = _
      rw [unbuilt]
      rfl

end Grammar

end Peg
