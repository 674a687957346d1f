import Peg.Proofs.Algebra.Primitives
import Peg.Proofs.Evaluation.Repetition
import Peg.Proofs.Grammar.Matching
import Peg.Proofs.Notation.Frames
import Peg.Proofs.Rule.Sameness

/-!
# Three runs of equal length

The words `aⁿbⁿcⁿ` with `n ≥ 1` are no context-free language, but a grammar with predicates tells
them from all other words:

```
S := &(A 'c') 'a'+ B !.
A := 'a' A? 'b'
B := 'b' B? 'c'
```

Neither the option in `A` nor the repetition in `S` ever has to give anything back. A nested rule
like `A` either closes all the letters that it has opened or fails, because a letter that is left
open is followed by another one that opens and not by one that closes.
-/

namespace Peg

open Filter

/-! ## Runs of one character -/

namespace Text

/-- How often a character stands in a row at the beginning of a text. -/
def leading (c : CodePoint) (t : Text) : Nat := (t.takeWhile (· = c)).length

variable {c d : CodePoint} {t rest : Text} {pos n : Nat}

theorem leading_drop_of_getElem? (here : t[pos]? = some c) :
    leading c (t.drop pos) = leading c (t.drop (pos + 1)) + 1 := by
  obtain ⟨before, rfl⟩ := List.getElem?_eq_some_iff.mp here
  rw [List.drop_eq_getElem_cons before, leading, List.takeWhile_cons_of_pos (by simp),
    List.length_cons, leading]

theorem leading_drop_of_ne (absent : t[pos]? ≠ some c) : leading c (t.drop pos) = 0 := by
  rw [leading, List.length_eq_zero_iff]
  by_cases before : pos < t.length
  · rw [List.drop_eq_getElem_cons before]
    apply List.takeWhile_cons_of_neg
    rw [List.getElem?_eq_getElem before] at absent
    simpa using absent
  · rw [List.drop_eq_nil_of_le (not_lt.mp before)]
    rfl

theorem getElem?_eq_iff : t[pos]? = some c ↔ 0 < leading c (t.drop pos) := by
  by_cases here : t[pos]? = some c
  · simp [here, leading_drop_of_getElem? here]
  · simp [here, leading_drop_of_ne here]

theorem getElem?_add_eq_iff (within : n ≤ leading c (t.drop pos)) :
    t[pos + n]? = some c ↔ n < leading c (t.drop pos) := by
  induction n generalizing pos with
  | zero => exact getElem?_eq_iff
  | succ n ih =>
      have here : t[pos]? = some c := getElem?_eq_iff.mpr (Nat.zero_lt_of_lt within)
      rw [leading_drop_of_getElem? here] at within ⊢
      have onward := @ih (pos + 1) (by omega)
      rw [Nat.add_assoc, Nat.add_comm 1 n] at onward
      rw [onward]
      omega

theorem leading_drop_le (c : CodePoint) (t : Text) (pos : Nat) :
    leading c (t.drop pos) ≤ t.length - pos :=
  List.length_drop ▸ (List.takeWhile_prefix _).length_le

theorem leading_replicate_append (apart : rest.head? ≠ some c) :
    leading c (List.replicate n c ++ rest) = n := by
  have none : rest.takeWhile (· = c) = [] := by
    cases rest with
    | nil => rfl
    | cons d rest => exact List.takeWhile_cons_of_neg (by simpa using apart)
  rw [leading, List.takeWhile_append_of_pos (by simp), none, List.append_nil,
    List.length_replicate]

theorem replicate_leading_append_drop (c : CodePoint) (t : Text) :
    List.replicate (leading c t) c ++ t.drop (leading c t) = t := by
  have run : t.takeWhile (· = c) = List.replicate (leading c t) c := by
    rw [leading, List.eq_replicate_length]
    intro d mem
    simpa using List.all_eq_true.mp (List.all_takeWhile (l := t) (p := (· = c))) d mem
  have front : t.takeWhile (· = c) = t.take (leading c t) :=
    List.prefix_iff_eq_take.mp (List.takeWhile_prefix _)
  rw [← run, front, List.take_append_drop]

theorem replicate_isPrefix_iff : List.replicate n c <+: t ↔ n ≤ leading c t := by
  constructor
  · rintro ⟨rest, rfl⟩
    rw [leading, List.takeWhile_append_of_pos (by simp), List.length_append,
      List.length_replicate]
    exact Nat.le_add_right _ _
  · intro within
    obtain ⟨more, run⟩ := Nat.exists_eq_add_of_le within
    have split := replicate_leading_append_drop c t
    rw [run, List.replicate_add, List.append_assoc] at split
    exact ⟨_, split⟩

end Text

/-! ## Nested rules -/

section Nested

variable {text : Text} {pos : Nat}

theorem answerStop_literal_single (text : Text) (env : Option Grammar) (c : CodePoint)
    (pos : Nat) : answerStop text env (.literal [c]) pos =
      .ok (if text[pos]? = some c then some (pos + 1) else none) := by
  have ran : eval text.toArray 1 env (.literal [c]) pos =
      .ok (if text[pos]? = some c then some (.leaf pos (pos + 1)) else none) := by
    simp [eval_literal, standsAt_single]
  rw [answerStop, answer_eq_of_eval ran (by simp)]
  split <;> rfl

theorem answerStop_ending (text : Text) (env : Option Grammar) (pos : Nat) :
    answerStop text env (.notFollowedBy .anyChar) pos =
      .ok (if pos < text.length then none else some pos) := by
  rw [answerStop, answer_eq_of_eval (Rule.eval_notFollowedBy_anyChar text.toArray 0 env pos)
    (by simp), List.size_toArray]
  split <;> rfl

theorem answerStop_sequence_singleton (text : Text) (env : Option Grammar) (r : Rule) (pos : Nat) :
    answerStop text env (.sequence [r]) pos = answerStop text env r pos := by
  rw [answerStop_sequence_cons]
  rcases answerStop text env r pos with halt | _ | stop
  · rfl
  · rfl
  · exact answerStop_sequence_nil text env stop

/-- A repeated character takes all of its run. -/
theorem answerStop_zeroOrMore_single (text : Text) (env : Option Grammar) (c : CodePoint)
    (pos : Nat) : answerStop text env (.repeated (.literal [c]) .zeroOrMore) pos =
      .ok (some (pos + Text.leading c (text.drop pos))) := by
  induction run : Text.leading c (text.drop pos) generalizing pos with
  | zero =>
      have absent : ¬ text[pos]? = some c := by simp [Text.getElem?_eq_iff, run]
      rw [answerStop_zeroOrMore, answerStop_literal_single, if_neg absent]
      rfl
  | succ n ih =>
      have here : text[pos]? = some c := by simp [Text.getElem?_eq_iff, run]
      rw [Text.leading_drop_of_getElem? here, Nat.add_right_cancel_iff] at run
      rw [answerStop_zeroOrMore, answerStop_literal_single, if_pos here, Except.ok_bind]
      simp only [Nat.succ_ne_self, if_false, ih (pos + 1) run]
      rw [Nat.add_assoc, Nat.add_comm 1 n]

theorem answerStop_oneOrMore_single (env : Option Grammar) {c : CodePoint}
    (positive : 1 ≤ Text.leading c (text.drop pos)) :
    answerStop text env (.repeated (.literal [c]) .oneOrMore) pos =
      .ok (some (pos + Text.leading c (text.drop pos))) := by
  have here : text[pos]? = some c := Text.getElem?_eq_iff.mpr positive
  rw [answerStop_oneOrMore, answerStop_literal_single, if_pos here, Except.ok_bind]
  simp only [answerStop_zeroOrMore_single]
  rw [Text.leading_drop_of_getElem? here, Nat.add_assoc, Nat.add_comm 1]

/-- A rule that opens with one character and closes with another one, and in between may hold the
rule that a reference leads to. -/
def nested (name : Text) (slot : Option Int) (first last : CodePoint) : Rule :=
  .sequence [.literal [first], .repeated (.reference name slot) .optional, .literal [last]]

variable {g : Grammar} {name : Text} {slot : Int} {first last : CodePoint}

theorem answerStop_nested_of_ne
    (found : g.ruleAt? slot = some (nested name (some slot) first last))
    (absent : text[pos]? ≠ some first) :
    answerStop text (some g) (.reference name (some slot)) pos = .ok none := by
  rw [answerStop, answer_reference found, ← answerStop, nested, answerStop_sequence_cons,
    answerStop_literal_single, if_neg absent]
  rfl

/-- Behind its opening character a nested rule goes on where the inner one stops, or right there if
that fails. -/
theorem answerStop_nested_of_ok
    (found : g.ruleAt? slot = some (nested name (some slot) first last))
    (here : text[pos]? = some first) {inner : Option Nat}
    (ran : answerStop text (some g) (.reference name (some slot)) (pos + 1) = .ok inner) :
    answerStop text (some g) (.reference name (some slot)) pos =
      .ok (if text[inner.getD (pos + 1)]? = some last then some (inner.getD (pos + 1) + 1)
        else none) := by
  rw [answerStop, answer_reference found, ← answerStop, nested, answerStop_sequence_cons,
    answerStop_literal_single, if_pos here, Except.ok_bind]
  simp only
  rw [answerStop_sequence_cons, answerStop_optional, ran, Except.ok_bind]
  simp only [answerStop_sequence_singleton, answerStop_literal_single]
  cases inner with
  | none => rfl
  | some stop => rfl

/-- A nested rule takes all opening characters of a run and as many closing ones, and fails if there
are fewer of these. -/
theorem answerStop_nested (apart : first ≠ last)
    (found : g.ruleAt? slot = some (nested name (some slot) first last)) {n m : Nat}
    (opens : Text.leading first (text.drop pos) = n)
    (closes : Text.leading last (text.drop (pos + n)) = m) :
    answerStop text (some g) (.reference name (some slot)) pos =
      .ok (if 1 ≤ n ∧ n ≤ m then some (pos + 2 * n) else none) := by
  induction n generalizing pos with
  | zero =>
      have absent : text[pos]? ≠ some first := by simp [Text.getElem?_eq_iff, opens]
      exact answerStop_nested_of_ne found absent
  | succ n ih =>
      have here : text[pos]? = some first := by simp [Text.getElem?_eq_iff, opens]
      rw [Text.leading_drop_of_getElem? here, Nat.add_right_cancel_iff] at opens
      rw [← Nat.add_assoc, Nat.add_right_comm] at closes
      rw [answerStop_nested_of_ok found here (ih opens closes)]
      have inner : (if 1 ≤ n ∧ n ≤ m then some (pos + 1 + 2 * n) else none).getD (pos + 1) =
          if n ≤ m then pos + 1 + n + n else pos + 1 := by
        split_ifs <;> simp only [Option.getD_some, Option.getD_none] <;> omega
      rw [inner]
      by_cases closed : n ≤ m
      · -- All that was opened further inside is closed, and one closing character more may follow.
        have next := Text.getElem?_add_eq_iff (closes.symm ▸ closed)
        rw [closes] at next
        simp only [if_pos closed, next]
        by_cases more : n < m
        · rw [if_pos more, if_pos (by omega)]
          congr 2
          omega
        · rw [if_neg more, if_neg (by omega)]
      · -- Nothing is closed further inside, where an opening character stands.
        have opening : text[pos + 1]? = some first := by
          rw [Text.getElem?_eq_iff, opens]
          omega
        have absent : ¬ text[pos + 1]? = some last := by
          rw [opening, Option.some.injEq]
          exact apart
        rw [if_neg closed, if_neg absent, if_neg (by omega)]

end Nested

/-! ## The grammar -/

namespace EqualRuns

/-- The grammar as the combinators make it. -/
def combined (id : Nat) : Except DefinitionError Grammar := do
  let a ← Rule.referenceTo (.text "A")
  let b ← Rule.referenceTo (.text "B")
  let counted ← Rule.sequenceOf [.rule a, .value (.text "c")]
  let ahead ← Rule.followedByOf (.rule counted)
  let letters ← Rule.oneOrMoreOf (.value (.text "a"))
  let ending ← Rule.notFollowedByOf (.rule .anyChar)
  let start ← Rule.sequenceOf [.rule ahead, .rule letters, .rule b, .rule ending]
  let optionalA ← Rule.optionalOf (.rule a)
  let bodyA ← Rule.sequenceOf [.value (.text "a"), .rule optionalA, .value (.text "b")]
  let optionalB ← Rule.optionalOf (.rule b)
  let bodyB ← Rule.sequenceOf [.value (.text "b"), .rule optionalB, .value (.text "c")]
  let table ← Table.ofList
    [(.text "S", .rule start), (.text "A", .rule bodyA), (.text "B", .rule bodyB)]
  Grammar.build id table .null

def source : Text := "S := &(A 'c') 'a'+ B !.\nA := 'a' A? 'b'\nB := 'b' B? 'c'\n"

/-- The rule that looks ahead for as many letters of the second kind as there are of the first one,
and for one of the third kind behind them. -/
def ahead (slotA : Option Int) : Rule :=
  .followedBy (.sequence [.reference "A" slotA, .literal ['c']])

/-- The rules that take the letters. -/
def taken (slotB : Option Int) : List Rule :=
  [.repeated (.literal ['a']) .oneOrMore, .reference "B" slotB, .notFollowedBy .anyChar]

def names : List Text := ["S", "A", "B"]

/-- The rules in the order of their names, with the slots that their references are linked to. -/
def rules (slotA slotB : Option Int) : List Rule :=
  [.sequence (ahead slotA :: taken slotB), nested "A" slotA 'a' 'b', nested "B" slotB 'b' 'c']

def grammar (id : Nat) : Grammar := ⟨id, names, rules (some 1) (some 2), "S"⟩

theorem combined_eq (id : Nat) : combined id = .ok (grammar id) := rfl

theorem not_partOf_bound {r : Rule} (mem : r ∈ rules none none) (g : Grammar) (slot : Nat) :
    ¬ Rule.PartOf (.bound g slot) r := by
  revert r
  simp [rules, ahead, taken, nested]

/-- The source is read as the rules, not linked yet. -/
theorem rulesOf_source {frames : Nat} (enough : 10 ≤ frames) :
    Source.rulesOf frames source = .ok (names.zip (rules none none)) := by
  have same : (Source.rulesOf 10 source).toOption.any (fun entries ↦
      entries.map Prod.fst = names ∧ Rule.sameAll (entries.map Prod.snd) (rules none none)) := by
    decide +kernel
  rcases read : Source.rulesOf 10 source with e | entries
  · rw [read] at same
    cases same
  rw [read] at same
  obtain ⟨firsts, seconds⟩ := of_decide_eq_true same
  have linked : entries.map Prod.snd = rules none none := by
    refine Rule.eq_of_sameAll seconds fun r _ s mem same ↦ Rule.eq_of_same same ?_
    exact fun g h i j _ part _ ↦ absurd part (not_partOf_bound mem h j)
  obtain ⟨tokens, tokenized, done⟩ := Except.bind_eq_ok_iff.mp read
  have more : Notation.readRules frames tokens = Notation.readRules 10 tokens :=
    Notation.readRules_eq_of_le enough (by rw [done]; simp)
  rw [Source.rulesOf, tokenized, Except.ok_bind, more, done, List.zip_of_prod firsts linked]

theorem ofSource_source (id : Nat) {frames : Nat} (enough : 10 ≤ frames) :
    Grammar.ofSource frames id source .null = .ok (grammar id) := by
  have depth : Rule.greatestLinkDepth ((names.zip (rules none none)).map Prod.snd) ≤ 10 := by decide
  rw [Grammar.ofSource_eq_of_le (rulesOf_source enough) (depth.trans enough)]
  rfl

/-! ## The words -/

/-- The word of three runs of equal length. -/
def word (n : Nat) : Text :=
  List.replicate n (CodePoint.ofChar 'a') ++ List.replicate n (CodePoint.ofChar 'b') ++
    List.replicate n (CodePoint.ofChar 'c')

variable {w : Text} {n m l : Nat}

/-- A text is such a word if its first three runs are as long as each other and nothing follows. -/
theorem exists_eq_word_iff (as : Text.leading 'a' w = n) (bs : Text.leading 'b' (w.drop n) = m)
    (cs : Text.leading 'c' (w.drop (n + m)) = l) :
    (∃ k ≥ 1, w = word k) ↔ 1 ≤ n ∧ m = n ∧ l = n ∧ w.length ≤ n + m + l := by
  constructor
  · rintro ⟨k, positive, rfl⟩
    obtain ⟨j, rfl⟩ := Nat.exists_eq_add_one.mpr positive
    have first : n = j + 1 := by
      rw [← as, word, List.append_assoc]
      exact Text.leading_replicate_append (by simp [List.replicate_succ])
    have second : m = j + 1 := by
      rw [← bs, word, List.append_assoc, first, List.drop_left' List.length_replicate]
      exact Text.leading_replicate_append (by simp [List.replicate_succ])
    have third : l = j + 1 := by
      rw [← cs, word, first, second, List.drop_left' (by simp)]
      rw [← List.append_nil (List.replicate (j + 1) _)]
      exact Text.leading_replicate_append (by simp)
    refine ⟨by omega, by omega, by omega, ?_⟩
    simp [word, first, second, third, Nat.add_assoc]
  · rintro ⟨positive, same, same', all⟩
    refine ⟨n, positive, ?_⟩
    have first := Text.replicate_leading_append_drop 'a' w
    have second := Text.replicate_leading_append_drop 'b' (w.drop n)
    have third := Text.replicate_leading_append_drop 'c' (w.drop (n + m))
    rw [as] at first
    rw [bs, List.drop_drop] at second
    rw [cs, List.drop_drop, List.drop_eq_nil_of_le all, List.append_nil] at third
    rw [← third, same, same'] at second
    rw [word, List.append_assoc, second, first]

/-! ## Where the rules stop -/

section Stops

variable (id : Nat) (as : Text.leading 'a' w = n) (bs : Text.leading 'b' (w.drop n) = m)
  (cs : Text.leading 'c' (w.drop (n + m)) = l)

include as bs

theorem answerStop_reference_a :
    answerStop w (some (grammar id)) (.reference "A" (some 1)) 0 =
      .ok (if 1 ≤ n ∧ n ≤ m then some (2 * n) else none) := by
  have stops : answerStop w (some (grammar id)) (.reference "A" (some 1)) 0 =
      .ok (if 1 ≤ n ∧ n ≤ m then some (0 + 2 * n) else none) :=
    answerStop_nested (by decide) rfl as (by rw [Nat.zero_add, bs])
  rwa [Nat.zero_add] at stops

include cs

/-- The lookahead succeeds if the first two runs are as long as each other and the third one is not
empty. -/
theorem answerStop_ahead : answerStop w (some (grammar id)) (ahead (some 1)) 0 =
    .ok (if 1 ≤ n ∧ m = n ∧ 1 ≤ l then some 0 else none) := by
  rw [ahead, answerStop_followedBy, answerStop_sequence_cons, answerStop_reference_a id as bs]
  by_cases closed : 1 ≤ n ∧ n ≤ m
  · have second := Text.getElem?_add_eq_iff (bs.symm ▸ closed.2)
    have third : w[n + m]? = some (CodePoint.ofChar 'c') ↔ 0 < l := cs ▸ Text.getElem?_eq_iff
    rw [bs] at second
    rw [if_pos closed, Except.ok_bind]
    simp only [answerStop_sequence_singleton, answerStop_literal_single, Nat.two_mul]
    by_cases more : n < m
    · -- Another letter of the second kind stands where one of the third kind is looked for.
      have other : ¬ w[n + n]? = some (CodePoint.ofChar 'c') := by
        rw [second.mpr more]
        decide
      rw [if_neg other, if_neg (by omega)]
      rfl
    · obtain rfl : m = n := by omega
      by_cases counted : 0 < l
      · rw [if_pos (third.mpr counted), if_pos (by omega)]
        rfl
      · rw [if_neg (counted ∘ third.mp), if_neg (by omega)]
        rfl
  · rw [if_neg closed, if_neg (by omega)]
    rfl

/-- Behind a lookahead that succeeds the letters are taken if the third run is not shorter than the
other two, and the text ends where it would then be as long. -/
theorem answerStop_taken (positive : 1 ≤ n) (same : m = n) (within : n + m ≤ w.length) :
    answerStop w (some (grammar id)) (.sequence (taken (some 2))) 0 =
      .ok (if l = n ∧ w.length ≤ n + m + l then some w.length else none) := by
  subst same
  have nestedB : answerStop w (some (grammar id)) (.reference "B" (some 2)) m =
      .ok (if 1 ≤ m ∧ m ≤ l then some (m + 2 * m) else none) :=
    answerStop_nested (by decide) rfl bs cs
  have stays := Text.leading_drop_le 'c' w (m + m)
  rw [cs] at stays
  rw [taken, answerStop_sequence_cons, answerStop_oneOrMore_single _ (by simpa [as] using positive),
    Except.ok_bind]
  simp only [List.drop_zero, as, Nat.zero_add]
  rw [answerStop_sequence_cons, nestedB]
  by_cases enough : m ≤ l
  · rw [if_pos ⟨positive, enough⟩, Except.ok_bind]
    simp only [answerStop_sequence_singleton, answerStop_ending]
    by_cases more : m + 2 * m < w.length
    · rw [if_pos more, if_neg (by omega)]
    · rw [if_neg more, if_pos (by omega)]
      congr 2
      omega
  · rw [if_neg (by omega), if_neg (by omega)]
    rfl

/-- The grammar takes all of a word of three runs of equal length, and fails on all other texts. -/
theorem answerStop_grammar : answerStop w none (grammar id).startRule 0 =
    .ok (if 1 ≤ n ∧ m = n ∧ l = n ∧ w.length ≤ n + m + l then some w.length else none) := by
  have found : (grammar id).ruleAt? (0 : Nat) =
      some (.sequence (ahead (some 1) :: taken (some 2))) := rfl
  have entered : answerStop w none (.bound (grammar id) 0) 0 =
      answerStop w (some (grammar id)) (.sequence (ahead (some 1) :: taken (some 2))) 0 :=
    congrArg stopOf (answer_bound found 0)
  have start : (grammar id).startRule = .bound (grammar id) 0 := rfl
  rw [start, entered, answerStop_sequence_cons, answerStop_ahead id as bs cs]
  by_cases counted : 1 ≤ n ∧ m = n ∧ 1 ≤ l
  · have stays := Text.leading_drop_le 'c' w (n + m)
    rw [cs] at stays
    rw [if_pos counted, Except.ok_bind]
    simp only [answerStop_taken id as bs cs counted.1 counted.2.1 (by omega)]
    simp only [counted.1, counted.2.1, true_and]
  · rw [if_neg counted, if_neg (by omega)]
    rfl

end Stops

/-! ## The language -/

/-- Letters of the first kind and as many of the second kind. -/
def paired (n : Nat) : Text :=
  List.replicate n (CodePoint.ofChar 'a') ++ List.replicate n (CodePoint.ofChar 'b')

/-- A text begins with all its letters of the first kind paired if those of the second kind are
enough. -/
theorem paired_isPrefix_iff (as : Text.leading 'a' w = n)
    (bs : Text.leading 'b' (w.drop n) = m) : paired n <+: w ↔ n ≤ m := by
  have split := Text.replicate_leading_append_drop 'a' w
  rw [as] at split
  calc paired n <+: w
    _ ↔ paired n <+: List.replicate n (CodePoint.ofChar 'a') ++ w.drop n := by rw [split]
    _ ↔ List.replicate n (CodePoint.ofChar 'b') <+: w.drop n := List.prefix_append_right_inj _
    _ ↔ n ≤ m := by rw [Text.replicate_isPrefix_iff, bs]

/-- The grammar accepts the words, all of them, and nothing else. -/
theorem exists_accepts_word (id : Nat) (w : Text) :
    ∃ answer : Bool, (answer = true ↔ ∃ n ≥ 1, w = word n) ∧ ∃ limit, ∀ frames ≥ limit,
      (grammar id).accepts frames w = .ok answer ∧
      (grammar id).acceptsAll frames w = .ok answer := by
  have words := exists_eq_word_iff (w := w) rfl rfl rfl
  have stops := answerStop_grammar (w := w) id rfl rfl rfl
  obtain ⟨limit, ran⟩ := eventually_atTop.mp
    (eventually_stopOf_eval w none (grammar id).startRule 0)
  simp only [Grammar.accepts, Grammar.acceptsAll, Rule.accepts_eq_bind, Rule.acceptsAll_eq_bind]
  by_cases recognised : ∃ n ≥ 1, w = word n
  · refine ⟨true, iff_of_true rfl recognised, limit, fun frames enough ↦ ?_⟩
    rw [ran frames enough, stops, if_pos (words.mp recognised)]
    exact ⟨rfl, congrArg Except.ok (decide_eq_true rfl)⟩
  · refine ⟨false, iff_of_false Bool.false_ne_true recognised, limit, fun frames enough ↦ ?_⟩
    rw [ran frames enough, stops, if_neg (recognised ∘ words.mpr)]
    exact ⟨rfl, rfl⟩

/-- The second rule takes the letters of the first kind at the beginning of a text paired, or it
fails. -/
theorem exists_parse_paired (id : Nat) (w : Text) :
    ∃ answer : Bool, (answer = true ↔
        1 ≤ Text.leading 'a' w ∧ paired (Text.leading 'a' w) <+: w) ∧
      ∃ limit, ∀ frames ≥ limit,
        (Rule.bound (grammar id) 1).accepts frames w = .ok answer ∧
        (Rule.bound (grammar id) 1).parse frames w =
          if answer then .ok (.upTo w (2 * Text.leading 'a' w)) else .error .noMatch := by
  have begins := paired_isPrefix_iff (w := w) rfl rfl
  have stops : answerStop w none (.bound (grammar id) 1) 0 = _ :=
    (congrArg stopOf (answer_bound rfl 0)).trans <|
      (congrArg stopOf (answer_reference rfl 0)).symm.trans (answerStop_reference_a id rfl rfl)
  obtain ⟨limit, ran⟩ := eventually_atTop.mp
    (eventually_stopOf_eval w none (.bound (grammar id) 1) 0)
  simp only [Rule.accepts_eq_bind, Rule.parse_eq_bind]
  by_cases pairs : 1 ≤ Text.leading 'a' w ∧ paired (Text.leading 'a' w) <+: w
  · refine ⟨true, iff_of_true rfl pairs, limit, fun frames enough ↦ ?_⟩
    rw [ran frames enough, stops, if_pos (pairs.imp_right begins.mp)]
    exact ⟨rfl, rfl⟩
  · refine ⟨false, iff_of_false Bool.false_ne_true pairs, limit, fun frames enough ↦ ?_⟩
    rw [ran frames enough, stops, if_neg (pairs ∘ And.imp_right begins.mpr)]
    exact ⟨rfl, rfl⟩

/-- The grammar, built by the combinators or read from the notation, accepts the words of three runs
of equal length and no other texts, and all of each such word. Its second rule alone takes as many
letters of the second kind as there are of the first kind at the beginning of the text, and fails if
these are fewer or if there are none of the first kind. -/
theorem recognises (id : Nat) : ∃ g, combined id = .ok g ∧
    (∀ frames ≥ 10, Grammar.ofSource frames id source .null = .ok g) ∧
    (∀ w : Text, ∃ answer : Bool, (answer = true ↔ ∃ n ≥ 1, w = word n) ∧
      ∃ limit, ∀ frames ≥ limit,
        g.accepts frames w = .ok answer ∧ g.acceptsAll frames w = .ok answer) ∧
    ∃ a, g.rule (.text "A") = .ok a ∧ ∀ w : Text, ∃ answer : Bool,
      (answer = true ↔ 1 ≤ Text.leading 'a' w ∧ paired (Text.leading 'a' w) <+: w) ∧
      ∃ limit, ∀ frames ≥ limit, a.accepts frames w = .ok answer ∧
        a.parse frames w =
          if answer then .ok (.upTo w (2 * Text.leading 'a' w)) else .error .noMatch :=
  ⟨grammar id, combined_eq id, fun _ ↦ ofSource_source id, exists_accepts_word id,
    .bound (grammar id) 1, rfl, exists_parse_paired id⟩

/-- A word of three runs of two letters each. -/
theorem recognises_two : ∃ g, combined 0 = .ok g ∧
    ∃ limit, ∀ frames ≥ limit, g.acceptsAll frames "aabbcc" = .ok true := by
  obtain ⟨g, made, -, words, -⟩ := recognises 0
  obtain ⟨answer, recognised, limit, ran⟩ := words "aabbcc"
  obtain rfl : answer = true := recognised.mpr ⟨2, by decide, rfl⟩
  exact ⟨g, made, limit, fun frames enough ↦ (ran frames enough).2⟩

end EqualRuns

end Peg
