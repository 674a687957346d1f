import Peg.Proofs.Grammar.History
import Peg.Proofs.Grammar.Interchange

/-!
# Matching texts

A caller can have the beginning of a text parsed or accepted, and the whole text. These four
operations all look at one run of the rule at the beginning of the text, and so what one of them
gives determines what the others give, except that accepting tells less than parsing.

The operations on whole texts compare where the run stops with the length of the text. A rule can do
that by itself: it goes on with the negative lookahead for any character, which succeeds exactly at
the end of the text.
-/

namespace Peg

open Except

namespace Rule

/-! ## Runs -/

theorem stop_le_length_of_eval {frames : Nat} {r : Rule} {text : Text} {t : Tree}
    (ran : eval text.toArray frames none r 0 = .ok (some t)) : t.stop ≤ text.length := by
  have stays := (staysWithin_eval text.toArray frames none r 0 t ran).2
  rwa [List.size_toArray, Nat.zero_max] at stays

/-- What is made of the answer of a rule is the same with more frames. -/
theorem evaluate_bind_eq_of_le {α : Type} {n m : Nat} {r : Rule} {text : Text} {pos : Int}
    {next : Option Tree → Except MatchError α} {o : Except MatchError α}
    (ran : r.evaluate n text pos >>= next = o) (answers : o ≠ .error (.halted .outOfFrames))
    (le : n ≤ m) : r.evaluate m text pos >>= next = o := by
  subst ran
  unfold evaluate at answers ⊢
  split
  next within =>
    rw [if_pos within] at answers
    have answered : eval text.toArray n none r pos.toNat ≠ .error .outOfFrames :=
      fun out ↦ answers (by rw [out]; rfl)
    rw [eval_eq_of_le rfl answered le]
  next => rfl

/-! ## The four operations -/

/-- What a rule gives on a text with a number of frames, for each of the operations in terms of the
other ones. -/
structure MatchesAlike (frames : Nat) (r : Rule) (text : Text) : Prop where
  /-- The rule parses the beginning of the text if and only if it accepts it. -/
  parse_iff_accepts : (∃ span, r.parse frames text = .ok span) ↔ r.accepts frames text = .ok true
  /-- What it parses is the stretch from the beginning up to some position of the text. -/
  span_eq : ∀ span, r.parse frames text = .ok span →
    span.start = 0 ∧ span.stop ≤ text.length ∧ span.value = text.take span.stop
  /-- It parses the whole text if and only if what it parses is the text, and then they are the
  same stretch. -/
  parseAll_iff_parse : ∀ span,
    r.parseAll frames text = .ok span ↔ r.parse frames text = .ok span ∧ span.value = text
  /-- It parses the whole text if and only if it accepts it. -/
  parseAll_iff_acceptsAll :
    (∃ span, r.parseAll frames text = .ok span) ↔ r.acceptsAll frames text = .ok true
  /-- The beginning is refused if and only if it is not accepted. -/
  parse_noMatch_iff : r.parse frames text = .error .noMatch ↔ r.accepts frames text = .ok false
  /-- The whole text is refused if and only if it is not accepted. -/
  parseAll_noMatch_iff :
    r.parseAll frames text = .error .noMatch ↔ r.acceptsAll frames text = .ok false
  /-- Accepting never fails for want of a match. -/
  accepts_ne_noMatch :
    r.accepts frames text ≠ .error .noMatch ∧ r.acceptsAll frames text ≠ .error .noMatch
  /-- Any other error is the error of all four. -/
  error_iff : ∀ e, e ≠ .noMatch →
    (r.parseAll frames text = .error e ↔ r.parse frames text = .error e) ∧
    (r.accepts frames text = .error e ↔ r.parse frames text = .error e) ∧
    (r.acceptsAll frames text = .error e ↔ r.parse frames text = .error e)

theorem value_upTo_eq_iff {text : Text} {stop : Nat} (within : stop ≤ text.length) :
    (Span.upTo text stop).value = text ↔ stop = text.length := by
  rw [Span.upTo, List.take_eq_self_iff]
  omega

section Operations

variable (frames : Nat) (r : Rule) (text : Text)

/-- A rule is halted by a text, or refuses it, or stops at a position of it, and each operation says
so in its own way. -/
theorem matching_cases :
    (∃ halt, r.parse frames text = .error (.halted halt) ∧
      r.parseAll frames text = .error (.halted halt) ∧
      r.accepts frames text = .error (.halted halt) ∧
      r.acceptsAll frames text = .error (.halted halt)) ∨
    (r.parse frames text = .error .noMatch ∧ r.parseAll frames text = .error .noMatch ∧
      r.accepts frames text = .ok false ∧ r.acceptsAll frames text = .ok false) ∨
    ∃ stop ≤ text.length, r.parse frames text = .ok (.upTo text stop) ∧
      r.parseAll frames text =
        (if stop = text.length then .ok (.upTo text stop) else .error .noMatch) ∧
      r.accepts frames text = .ok true ∧
      r.acceptsAll frames text = .ok (stop = text.length : Bool) := by
  rw [parse_eq_bind, parseAll_eq_bind, accepts_eq_bind, acceptsAll_eq_bind]
  rcases ran : eval text.toArray frames none r 0 with halt | _ | t
  · exact .inl ⟨halt, rfl, rfl, rfl, rfl⟩
  · exact .inr (.inl ⟨rfl, rfl, rfl, rfl⟩)
  · have within := stop_le_length_of_eval ran
    exact .inr (.inr ⟨t.stop, within, rfl, rfl, rfl, rfl⟩)

/-- The four operations agree on every rule, every text and every number of frames. -/
theorem matchesAlike_all : r.MatchesAlike frames text := by
  obtain ⟨halt, parse, parseAll, accepts, acceptsAll⟩ | ⟨parse, parseAll, accepts, acceptsAll⟩ |
    ⟨stop, within, parse, parseAll, accepts, acceptsAll⟩ := matching_cases frames r text
  case inl => constructor <;> simp [parse, parseAll, accepts, acceptsAll]
  case inr.inl =>
    constructor
    case error_iff => simp +contextual [parse, parseAll, accepts, acceptsAll, eq_comm]
    all_goals simp [parse, parseAll, accepts, acceptsAll]
  case inr.inr =>
    have value : (Span.upTo text stop).value = text ↔ stop = text.length :=
      value_upTo_eq_iff within
    constructor
    case span_eq =>
      intro span parsed
      obtain rfl : .upTo text stop = span := Except.ok.inj (parse.symm.trans parsed)
      exact ⟨rfl, within, rfl⟩
    case parseAll_iff_parse =>
      intro span
      rw [parse, parseAll]
      split
      next all =>
        refine ⟨fun parsed ↦ ⟨parsed, ?_⟩, And.left⟩
        exact Except.ok.inj parsed ▸ value.mpr all
      next notAll =>
        refine ⟨nofun, fun ⟨parsed, whole⟩ ↦ ?_⟩
        exact (notAll (value.mp (Except.ok.inj parsed ▸ whole))).elim
    all_goals
      by_cases all : stop = text.length
      · simp +contextual [parse, parseAll, accepts, acceptsAll, all]
      · simp +contextual [parse, parseAll, accepts, acceptsAll, all, eq_comm]

end Operations

/-! ## The end of the text -/

/-- The rule and then the end of the text, that is no further character. -/
def untilEnd (r : Rule) : Rule := .sequence [r, .notFollowedBy .anyChar]

/-- No character follows exactly where the input ends. -/
theorem eval_notFollowedBy_anyChar (input : Array CodePoint) (frames : Nat) (env : Option Grammar)
    (pos : Nat) : eval input (frames + 2) env (.notFollowedBy .anyChar) pos =
      .ok (if pos < input.size then none else some (.leaf pos pos)) := by
  rw [eval_notFollowedBy, eval_anyChar, charAt]
  by_cases before : pos < input.size
  · rw [if_pos before, Array.getElem?_eq_getElem before]
    rfl
  · rw [if_neg before, Array.getElem?_eq_none (not_lt.mp before)]
    rfl

/-- The rule that goes on until the end is accepted where the rule is accepted with all of the text.
It takes one more frame. -/
theorem accepts_untilEnd (frames : Nat) (r : Rule) (text : Text) :
    r.untilEnd.accepts (frames + 3) text = r.acceptsAll (frames + 2) text := by
  rw [accepts, acceptsAll, evaluate_zero, evaluate_zero, untilEnd, eval_sequence, inSequence]
  rcases ran : eval text.toArray (frames + 2) none r 0 with halt | _ | t
  · rfl
  · rfl
  · have within := stop_le_length_of_eval ran
    simp only [ok_bind, inSequence, eval_notFollowedBy_anyChar, List.size_toArray]
    by_cases before : t.stop < text.length
    · have notAll : t.stop ≠ text.length := before.ne
      rw [if_pos before]
      exact congrArg Except.ok (decide_eq_false notAll).symm
    · have all : t.stop = text.length := le_antisymm within (not_lt.mp before)
      rw [if_neg before]
      exact congrArg Except.ok (decide_eq_true all).symm

/-- Without a limit, going on until the end gives what the comparison with the length gives. -/
theorem sameAnswers_accepts_untilEnd (r : Rule) (text : Text) :
    SameAnswers (.halted .outOfFrames) (r.acceptsAll · text) (r.untilEnd.accepts · text) := by
  intro o answers
  constructor
  · rintro ⟨frames, ran⟩
    have later : r.acceptsAll (frames + 2) text = o :=
      evaluate_bind_eq_of_le ran answers (Nat.le_add_right frames 2)
    exact ⟨frames + 3, (r.accepts_untilEnd frames text).trans later⟩
  · rintro ⟨frames, ran⟩
    have later : r.untilEnd.accepts (frames + 3) text = o :=
      evaluate_bind_eq_of_le ran answers (Nat.le_add_right frames 3)
    exact ⟨frames + 2, (r.accepts_untilEnd frames text).symm.trans later⟩

end Rule

/-! ## Grammars -/

namespace Grammar

/-- The four operations agree with each other, on every rule and every text and with every number
of frames; accepting the whole text is accepting its beginning by the rule that goes on with the
negative lookahead for any character, within one frame more, and so for the same texts if there is
no limit; and each operation gives for a grammar what it gives for the rule of its start name. -/
theorem matching_agrees :
    (∀ (frames : Nat) (r : Rule) (text : Text), r.MatchesAlike frames text) ∧
    (∀ r : Rule, ∃ ahead whole, Rule.notFollowedByOf (.rule .anyChar) = .ok ahead ∧
      Rule.sequenceOf [.rule r, .rule ahead] = .ok whole ∧
      (∀ frames text, whole.accepts (frames + 3) text = r.acceptsAll (frames + 2) text) ∧
      ∀ text,
        SameAnswers (.halted .outOfFrames) (r.acceptsAll · text) (whole.accepts · text)) ∧
    ∀ id table start g, build id table start = .ok g →
      ∃ r, g.rule (.text g.start) = .ok r ∧ ∀ frames text,
        g.parse frames text = r.parse frames text ∧
        g.parseAll frames text = r.parseAll frames text ∧
        g.accepts frames text = r.accepts frames text ∧
        g.acceptsAll frames text = r.acceptsAll frames text := by
  refine ⟨Rule.matchesAlike_all, fun r ↦ ?_, fun id table start g built ↦ ?_⟩
  · exact ⟨_, r.untilEnd, rfl, rfl, r.accepts_untilEnd, r.sameAnswers_accepts_untilEnd⟩
  · exact ⟨g.startRule, rule_start (start_mem_of_build built).2,
      fun frames text ↦ ⟨rfl, rfl, rfl, rfl⟩⟩

/-- A grammar that starts with its second rule, and a text of which that rule takes only the
beginning: the whole text is refused, and so is the beginning if the text must end there. -/
theorem matching_agrees_prefix : ∃ (g : Grammar) (r whole : Rule),
    build 0 [(.text "B", .value (.text "b")),
      (.text "S", .rule (.repeated (.reference "B" none) .oneOrMore))] (.text "S") = .ok g ∧
    g.rule (.text g.start) = .ok r ∧
    Rule.sequenceOf [.rule r, .rule (.notFollowedBy .anyChar)] = .ok whole ∧
    g.parse 9 "bba" = .ok ⟨0, 2, "bb"⟩ ∧ r.accepts 9 "bba" = .ok true ∧
    g.parseAll 9 "bba" = .error .noMatch ∧ r.acceptsAll 9 "bba" = .ok false ∧
    whole.accepts 10 "bba" = .ok false := by
  obtain ⟨alike, ends, starts⟩ := matching_agrees
  obtain ⟨r, called, same⟩ := starts 0 [(.text "B", .value (.text "b")),
    (.text "S", .rule (.repeated (.reference "B" none) .oneOrMore))] (.text "S") _ rfl
  obtain ⟨_, whole, ⟨⟩, sequence, untilEnd, -⟩ := ends r
  obtain ⟨parse, parseAll, -⟩ := same 9 "bba"
  have parsed : r.parse 9 "bba" = .ok ⟨0, 2, "bb"⟩ := parse.symm.trans (by decide +kernel)
  have accepted := (alike 9 r "bba").parse_iff_accepts.mp ⟨_, parsed⟩
  have refused : r.parseAll 9 "bba" = .error .noMatch := parseAll.symm.trans (by decide +kernel)
  have notAccepted := (alike 9 r "bba").parseAll_noMatch_iff.mp refused
  exact ⟨_, r, whole, rfl, called, sequence, parse.trans parsed, accepted, parseAll.trans refused,
    notAccepted, (untilEnd 7 "bba").trans notAccepted⟩

end Grammar

end Peg
