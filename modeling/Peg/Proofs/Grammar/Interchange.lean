import Peg.Proofs.Evaluation.Answers
import Peg.Proofs.Evaluation.Simulation
import Peg.Proofs.Grammar.Safety

/-!
# Interchangeable rules

Two rules are interchangeable in a grammar if they stop at the same position of every text, or fail
there, or halt there for the same reason, or both run forever, once they are linked in the grammar.
Their trees can differ. Such rules can take each other's place anywhere in the table of the grammar,
and a caller cannot tell the difference: whether and how much of a text is consumed stays the same.

A caller sets no limit here: an answer is an answer if some number of frames is enough for it, and
the two rules may need different numbers.
-/

namespace Peg

open Except

/-! ## What callers learn -/

/-- The beginning of a text as a stretch. -/
def Span.upTo (text : Text) (stop : Nat) : Span := ⟨0, stop, text.take stop⟩

theorem Span.ofTree_eq_upTo {t : Tree} (start : t.start = 0) (text : Text) :
    Span.ofTree text t = .upTo text t.stop := by
  rw [ofTree, Tree.width, start, List.drop_zero, Nat.sub_zero, upTo]

namespace Rule

variable (frames : Nat) (r : Rule) (text : Text)

theorem evaluate_zero : r.evaluate frames text 0 =
    (eval text.toArray frames none r 0).mapError .halted :=
  Rule.evaluate_natCast frames r (Nat.zero_le _)

/-- What a rule consumes depends on where it stops. -/
theorem parse_eq_bind : r.parse frames text =
    (stopOf (eval text.toArray frames none r 0)).mapError MatchError.halted >>= fun
      | some stop => .ok (Span.upTo text stop)
      | none => .error MatchError.noMatch := by
  rw [parse, evaluate_zero]
  rcases ran : eval text.toArray frames none r 0 with halt | _ | t
  · rfl
  · rfl
  · have start : t.start = 0 := (yields_of_eval ran nofun).start_eq rfl
    exact congrArg Except.ok (Span.ofTree_eq_upTo start text)

/-- Whether a rule consumes all of a text depends on where it stops. -/
theorem parseAll_eq_bind : r.parseAll frames text =
    (stopOf (eval text.toArray frames none r 0)).mapError MatchError.halted >>= fun
      | some stop =>
          if stop = text.length then .ok (Span.upTo text stop) else .error MatchError.noMatch
      | none => .error MatchError.noMatch := by
  rw [parseAll, evaluate_zero]
  rcases ran : eval text.toArray frames none r 0 with halt | _ | t
  · rfl
  · rfl
  · have start : t.start = 0 := (yields_of_eval ran nofun).start_eq rfl
    exact congrArg (fun span ↦ if t.stop = text.length then Except.ok span
      else Except.error MatchError.noMatch) (Span.ofTree_eq_upTo start text)

/-- Whether a rule accepts the beginning of a text depends on where it stops. -/
theorem accepts_eq_bind : r.accepts frames text =
    (stopOf (eval text.toArray frames none r 0)).mapError MatchError.halted >>= fun found ↦
      .ok found.isSome := by
  rw [accepts, evaluate_zero]
  rcases eval text.toArray frames none r 0 with halt | _ | t
  · rfl
  · rfl
  · rfl

/-- Whether a rule accepts all of a text depends on where it stops. -/
theorem acceptsAll_eq_bind : r.acceptsAll frames text =
    (stopOf (eval text.toArray frames none r 0)).mapError MatchError.halted >>= fun
      | some stop => .ok (stop = text.length : Bool)
      | none => .ok false := by
  rw [acceptsAll, evaluate_zero]
  rcases eval text.toArray frames none r 0 with halt | _ | t
  · rfl
  · rfl
  · rfl

/-! ## Interchangeable rules -/

/-- Once they are linked in the grammar the two rules give the same answers at all positions of all
texts, as far as it matters where they stop. -/
def InterchangeableIn (g : Grammar) (old new : Rule) : Prop :=
  ∀ old' new', old.link g.names.idxOf? = .ok old' → new.link g.names.idxOf? = .ok new' →
    ∀ (text : Text) (pos : Nat), pos ≤ text.length → SameAnswers .outOfFrames
      (fun frames ↦ stopOf (eval text.toArray frames (some g) old' pos))
      fun frames ↦ stopOf (eval text.toArray frames (some g) new' pos)

/-- A rule and the sequence of that rule alone are interchangeable, though the sequence wraps its
tree in another one. -/
theorem interchangeableIn_sequence_singleton (g : Grammar) (r : Rule) :
    InterchangeableIn g r (.sequence [r]) := by
  intro r' new' link linkNew text pos _
  obtain rfl : .sequence [r'] = new' := by
    rw [link_sequence, linkAll_cons, link] at linkNew
    exact Except.ok.inj linkNew
  have wraps : ∀ frames,
      stopOf (eval text.toArray (frames + 1) (some g) (.sequence [r']) pos) =
        stopOf (eval text.toArray frames (some g) r' pos) := by
    intro frames
    rw [eval_sequence, inSequence]
    rcases eval text.toArray frames (some g) r' pos with halt | _ | t
    · rfl
    · rfl
    · rfl
  intro o answers
  constructor
  · rintro ⟨frames, ran⟩
    exact ⟨frames + 1, (wraps frames).trans ran⟩
  · rintro ⟨frames, ran⟩
    cases frames with
    | zero => exact absurd ran.symm answers
    | succ frames => exact ⟨frames, (wraps frames).symm.trans ran⟩

end Rule

/-- The second table is the first one with the new rule in some of the places of the old one, at any
depth of its rules. A text that stands for its literal is a rule as well. -/
def Table.Replaced (old new : Rule) : Table → Table → Prop :=
  List.Forall₂ fun entry entry' ↦ entry'.1 = entry.1 ∧ ∃ r r', entry.2.toRule = .ok r ∧
    entry'.2.toRule = .ok r' ∧ Rule.Replaced old new r r'

section Replaced

variable {old new : Rule} {table table' : Table} {id id' : Nat} {start start' : Value}
  {g g' : Grammar}

/-- Rules that give the same answers yield the same as far as it matters where they stop. -/
theorem yieldsLike_of_sameAnswers {text : Text} {g : Grammar} {r r' : Rule} {pos : Nat}
    (h : SameAnswers .outOfFrames (fun frames ↦ stopOf (eval text.toArray frames (some g) r pos))
      fun frames ↦ stopOf (eval text.toArray frames (some g) r' pos)) :
    (∀ o, Yields text (some g) r pos o → YieldsLike text g r' pos o) ∧
      ∀ o, Yields text (some g) r' pos o → YieldsLike text g r pos o := by
  have answers : ∀ {r o}, Yields text (some g) r pos o → stopOf o ≠ .error .outOfFrames := by
    intro r o yields out
    rcases o with halt | _ | t
    · exact ne_outOfFrames_of_yields yields (congrArg _ (Except.error.inj out))
    · cases out
    · cases out
  constructor
  · intro o yields
    have same := h (stopOf o) (answers yields)
    rw [exists_stopOf_eval_iff (answers yields), exists_stopOf_eval_iff (answers yields)] at same
    exact same.mp ⟨o, yields, rfl⟩
  · intro o yields
    have same := h (stopOf o) (answers yields)
    rw [exists_stopOf_eval_iff (answers yields), exists_stopOf_eval_iff (answers yields)] at same
    exact same.mpr ⟨o, yields, rfl⟩

/-- Each rule of a grammar has the same answers in a second one if its rules are those of the first
one with a rule replaced that has the same answers as the new one in both. -/
theorem sameAnswers_bound {old' new' : Rule}
    (rules : List.Forall₂ (Rule.Replaced old' new') g.rules g'.rules) (text : Text)
    (here : ∀ pos ≤ text.length, SameAnswers .outOfFrames
      (fun frames ↦ stopOf (eval text.toArray frames (some g) old' pos))
      fun frames ↦ stopOf (eval text.toArray frames (some g) new' pos))
    (there : ∀ pos ≤ text.length, SameAnswers .outOfFrames
      (fun frames ↦ stopOf (eval text.toArray frames (some g') old' pos))
      fun frames ↦ stopOf (eval text.toArray frames (some g') new' pos)) (slot : Nat) :
    SameAnswers .outOfFrames
      (fun frames ↦ stopOf (eval text.toArray frames none (.bound g slot) 0))
      fun frames ↦ stopOf (eval text.toArray frames none (.bound g' slot) 0) := by
  have exchange : Exchange text g g' old' new' (Rule.Replaced old' new') :=
    { refl := .refl
      here_or_parts := fun _ _ ↦ Rule.Replaced.here_or_parts
      rules := rules
      follows := fun pos within ↦ (yieldsLike_of_sameAnswers (there pos within)).1 }
  have back := exchange.flip fun pos within ↦ (yieldsLike_of_sameAnswers (here pos within)).2
  intro stop answers
  rw [exists_stopOf_eval_iff answers, exists_stopOf_eval_iff answers]
  constructor
  · rintro ⟨o, yields, rfl⟩
    exact exchange.exists_yields_bound yields (Nat.zero_le _)
  · rintro ⟨o, yields, rfl⟩
    exact back.exists_yields_bound yields (Nat.zero_le _)

namespace Grammar

/-- A table in which rules are replaced makes a grammar if the new rule can be linked, and the rules
of that grammar are those of the first one with the linked rules replaced. -/
theorem exists_build_replaced {old' new' : Rule} (built : build id table start = .ok g)
    (linkOld : old.link g.names.idxOf? = .ok old') (linkNew : new.link g.names.idxOf? = .ok new')
    (replaced : Table.Replaced old new table table') (id' : Nat) :
    (∃ g', build id' table' start = .ok g') ∧
    ∀ start' g', build id' table' start' = .ok g' → g'.names = g.names ∧
      List.Forall₂ (Rule.Replaced old' new') g.rules g'.rules := by
  obtain ⟨table_ne_nil, -, named, started, linked⟩ := build_eq_ok_iff.mp built
  obtain ⟨names, named', same⟩ := replaced.exists_square named (V := Eq)
    (U := fun entry name ↦ ruleName entry.1 = .ok name)
    fun _ _ _ name entries called ↦ ⟨name, entries.1.symm ▸ called, rfl⟩
  obtain rfl : g.names = names := by rwa [List.forall₂_eq_eq_eq] at same
  obtain ⟨rules, linked', related⟩ := replaced.exists_square linked
    (V := Rule.Replaced old' new')
    (U := fun entry r ↦ ∃ r', entry.2.toRule = .ok r' ∧ r'.link g.names.idxOf? = .ok r) (by
      rintro _ _ _ _ ⟨-, r, r', rule, rule', part⟩ ⟨_, again, link⟩
      cases rule.symm.trans again
      obtain ⟨linked', link', related⟩ := part.exists_link linkOld linkNew link
      exact ⟨linked', ⟨r', rule', link'⟩, related⟩)
  constructor
  · have table'_ne_nil : table' ≠ [] := by
      rintro rfl
      exact table_ne_nil (List.forall₂_nil_right_iff.mp replaced)
    exact ⟨⟨id', g.names, rules, g.start⟩,
      build_eq_ok_iff.mpr ⟨table'_ne_nil, rfl, named', started, linked'⟩⟩
  · intro start' g' built'
    obtain ⟨-, -, named'', -, linked''⟩ := build_eq_ok_iff.mp built'
    have names : g'.names = g.names := (texts_eq_names named'').symm.trans (texts_eq_names named')
    -- Linking leaves no choice, so the rules are the ones found before.
    simp only [names, ← bind_eq_ok_iff, ← mapM_eq_ok_iff] at linked' linked''
    cases linked'.symm.trans linked''
    exact ⟨names, related⟩

/-- Interchangeable rules can take each other's place. Let some occurrences of a rule in a table be
replaced by another one, at any depth, also inside rules that the two refer to. If the table makes a
grammar in which both can be linked, so does the new table; and if the two rules are interchangeable
in these two grammars, as they are if they are interchangeable in every grammar, each rule of the
first grammar and the rule of its name in the second one consume and accept the same texts, fail on
the same texts, halt for the same reasons and run forever on the same texts. -/
theorem sameAnswers_of_replaced (built : build id table start = .ok g)
    (linkableOld : old.Linkable g.names.idxOf?) (linkableNew : new.Linkable g.names.idxOf?)
    (replaced : Table.Replaced old new table table') (id' : Nat) :
    (∃ g', build id' table' start = .ok g') ∧
    ∀ start' g', build id' table' start' = .ok g' →
      Rule.InterchangeableIn g old new → Rule.InterchangeableIn g' old new →
      ∀ name ∈ g.names, ∃ r r', g.rule (.text name) = .ok r ∧ g'.rule (.text name) = .ok r' ∧
        ∀ text,
          SameAnswers (.halted .outOfFrames) (r.parse · text) (r'.parse · text) ∧
          SameAnswers (.halted .outOfFrames) (r.parseAll · text) (r'.parseAll · text) ∧
          SameAnswers (.halted .outOfFrames) (r.accepts · text) (r'.accepts · text) ∧
          SameAnswers (.halted .outOfFrames) (r.acceptsAll · text) (r'.acceptsAll · text) := by
  obtain ⟨old', linkOld⟩ := linkableOld
  obtain ⟨new', linkNew⟩ := linkableNew
  obtain ⟨exists_built, rules⟩ := exists_build_replaced built linkOld linkNew replaced id'
  refine ⟨exists_built, fun start' g' built' here there name mem ↦ ?_⟩
  obtain ⟨names, related⟩ := rules start' g' built'
  obtain ⟨slot, found⟩ := Option.isSome_iff_exists.mp (List.isSome_idxOf?.mpr mem)
  have found' : g'.slot? name = some slot := by
    rw [GrammarOf.slot?, names]
    exact found
  refine ⟨.bound g slot, .bound g' slot, rule_text found, rule_text found', fun text ↦ ?_⟩
  have same := sameAnswers_bound related text (here old' new' linkOld linkNew text)
    (there old' new' (names ▸ linkOld) (names ▸ linkNew) text) slot
  simp only [Rule.parse_eq_bind, Rule.parseAll_eq_bind, Rule.accepts_eq_bind,
    Rule.acceptsAll_eq_bind]
  exact ⟨same.bind MatchError.halted _, same.bind MatchError.halted _,
    same.bind MatchError.halted _, same.bind MatchError.halted _⟩

/-- A reference is put in a sequence of its own in one of the two places where it stands, inside the
rule that it refers to. -/
theorem sameAnswers_of_replaced_recursive : ∃ (g g' : Grammar) (r r' : Rule),
    g.rules = [.choice [.sequence [.literal "a", .reference "S" (some 0), .literal "b"],
      .sequence [.literal "c", .reference "S" (some 0)], .literal "d"]] ∧
    g'.rules = [.choice [.sequence [.literal "a", .sequence [.reference "S" (some 0)],
      .literal "b"], .sequence [.literal "c", .reference "S" (some 0)], .literal "d"]] ∧
    g.rule (.text "S") = .ok r ∧ g'.rule (.text "S") = .ok r' ∧
    SameAnswers (.halted .outOfFrames) (r.parse · "acdb") (r'.parse · "acdb") ∧
    r.parse 12 "acdb" = .ok ⟨0, 4, "acdb"⟩ := by
  let old : Rule := .reference "S" none
  let table : Table := [(.text "S", .rule (.choice [.sequence [.literal "a", old, .literal "b"],
    .sequence [.literal "c", old], .literal "d"]))]
  let table' : Table := [(.text "S", .rule (.choice [.sequence [.literal "a", .sequence [old],
    .literal "b"], .sequence [.literal "c", old], .literal "d"]))]
  let g : Grammar := ⟨0, ["S"], [.choice [.sequence [.literal "a", .reference "S" (some 0),
    .literal "b"], .sequence [.literal "c", .reference "S" (some 0)], .literal "d"]], "S"⟩
  have replaced : Table.Replaced old (.sequence [old]) table table' := by
    refine .cons ⟨rfl, _, _, rfl, rfl, .parts (.choice (.cons ?_ (.cons (.refl _)
      (.cons (.refl _) .nil))))⟩ .nil
    exact .parts (.sequence (.cons (.refl _) (.cons .here (.cons (.refl _) .nil))))
  have built : build 0 table .null = .ok g := rfl
  obtain ⟨⟨g', built'⟩, agree⟩ := sameAnswers_of_replaced built ⟨_, rfl⟩ ⟨_, rfl⟩ replaced 1
  obtain ⟨r, r', called, called', same⟩ := agree .null g' built'
    (old.interchangeableIn_sequence_singleton g) (old.interchangeableIn_sequence_singleton g') "S"
    List.mem_cons_self
  cases built'
  refine ⟨g, _, r, r', rfl, rfl, called, called', (same "acdb").1, ?_⟩
  cases called
  rfl

end Grammar

end Replaced

end Peg
