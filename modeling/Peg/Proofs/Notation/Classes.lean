import Peg.Proofs.Evaluation.Adequacy
import Peg.Proofs.Notation.Offsets
import Peg.Proofs.Notation.Rereading

/-!
# What classes mean

The characters of a class are grouped from left to right into members: a character alone, or two
characters with an unescaped dash between them. `Grouped` says how, without a word about ranges. A
class takes one character, namely one that a member contains; its complement takes one that the
class does not. Only the characters and the dashes that are escaped matter, not how the characters
are spelled.
-/

namespace Peg.Notation

open Except
open List (Forall₂)

/-! ## Members -/

/-- What stands for some of the characters of a class. -/
inductive Member where
  /-- A character stands for itself. -/
  | single (c : Spelled)
  /-- Two characters with a dash between them stand for what lies between them. -/
  | between (c d : Spelled)

namespace Member

/-- The characters that the member is spelled with. -/
def items : Member → List Spelled
  | single c => [c]
  | between c d => [c, ⟨'-', false⟩, d]

/-- The characters that the member is spelled with, the dash of a range aside. -/
def ends : Member → List Spelled
  | single c => [c]
  | between c d => [c, d]

/-- Whether the member stands for a character. The ends of a range come in either order. -/
def Contains : Member → CodePoint → Prop
  | single c, x => x = c.char
  | between c d, x => c.char ≤ x ∧ x ≤ d.char ∨ d.char ≤ x ∧ x ≤ c.char

/-- The member as a range. -/
def range : Member → CharRange
  | single c => .single c.char
  | between c d => .between c.char d.char

theorem contains_range_iff (m : Member) (x : CodePoint) :
    m.range.contains x = true ↔ m.Contains x := by
  cases m with
  | single c => exact CharRange.contains_single c.char x
  | between c d =>
      rw [range, CharRange.between, Contains]
      split
      next order =>
        rw [CharRange.contains_iff]
        simp only [Fin.le_def] at *
        omega
      next order =>
        rw [CharRange.contains_iff]
        simp only [Fin.le_def] at *
        omega

theorem contains_of_mem_ends {m : Member} {c : Spelled} (h : c ∈ m.ends) : m.Contains c.char := by
  cases m with
  | single d =>
      rw [List.mem_singleton.mp h]
      exact rfl
  | between d e =>
      rcases List.mem_pair.mp h with rfl | rfl
      · exact (le_total c.char e.char).imp (⟨le_rfl, ·⟩) (⟨·, le_rfl⟩)
      · exact (le_total d.char c.char).imp (⟨·, le_rfl⟩) (⟨le_rfl, ·⟩)

end Member

/-- The characters of a class are grouped from left to right. -/
inductive Grouped : List Spelled → List Member → Prop where
  /-- There are no characters. -/
  | nil : Grouped [] []
  /-- A character, an unescaped dash and a further character. -/
  | between (c d : Spelled) {rest : List Spelled} {groups : List Member}
      (others : Grouped rest groups) :
      Grouped (c :: ⟨'-', false⟩ :: d :: rest) (.between c d :: groups)
  /-- A character that is not followed by an unescaped dash and a further character. -/
  | single (c : Spelled) {rest : List Spelled}
      (alone : ∀ d more, rest ≠ ⟨'-', false⟩ :: d :: more) {groups : List Member}
      (others : Grouped rest groups) : Grouped (c :: rest) (.single c :: groups)

/-- The characters of every class are grouped. -/
theorem exists_grouped (items : List Spelled) : ∃ groups, Grouped items groups := by
  fun_induction rangesOf items with
  | case1 => exact ⟨[], .nil⟩
  | case2 c => exact ⟨_, .single c (by simp) .nil⟩
  | case3 c d => exact ⟨_, .single c (by simp) (.single d (by simp) .nil)⟩
  | case4 c d rest ih =>
      obtain ⟨groups, others⟩ := ih
      exact ⟨_, .between c d others⟩
  | case5 c dash d rest other ih =>
      obtain ⟨groups, others⟩ := ih
      refine ⟨_, .single c ?_ others⟩
      rintro _ _ ⟨⟩
      exact other rfl

namespace Grouped

variable {items : List Spelled} {groups : List Member}

/-- The characters of a class are grouped in one way. -/
theorem unique (h : Grouped items groups) {groups' : List Member} (h' : Grouped items groups') :
    groups = groups' := by
  induction h generalizing groups' with
  | nil =>
      cases h'
      rfl
  | between c d _ ih =>
      cases h' with
      | between _ _ others => rw [ih others]
      | single _ alone => exact absurd rfl (alone _ _)
  | single c alone _ ih =>
      cases h' with
      | between _ _ others => exact absurd rfl (alone _ _)
      | single _ _ others => rw [ih others]

theorem flatMap_items (h : Grouped items groups) : groups.flatMap Member.items = items := by
  induction h with
  | nil => rfl
  | between c d _ ih =>
      rw [List.flatMap_cons, ih]
      rfl
  | single c _ _ ih =>
      rw [List.flatMap_cons, ih]
      rfl

/-- The ranges of a class are those of its members. -/
theorem rangesOf_eq (h : Grouped items groups) : rangesOf items = groups.map Member.range := by
  induction h with
  | nil => rfl
  | between c d _ ih =>
      rw [rangesOf, if_pos rfl, ih]
      rfl
  | @single c rest alone groups _ ih =>
      rw [List.map_cons, ← ih]
      rcases rest with _ | ⟨dash, _ | ⟨d, rest⟩⟩
      · rfl
      · rfl
      · rw [rangesOf, if_neg]
        · rfl
        · rintro rfl
          exact alone d rest rfl

end Grouped

/-! ## Respelling -/

/-- The characters are the same, and dashes of ranges if one of them is. -/
structure Alike (c c' : Spelled) : Prop where
  /-- They are the same character. -/
  char : c.char = c'.char
  /-- A dash is escaped in both or in neither. -/
  dash : c.char = '-' → c.escaped = c'.escaped

/-- What is alike is so in both directions. -/
theorem Alike.symm {c c' : Spelled} (h : Alike c c') : Alike c' c :=
  ⟨h.char.symm, fun dash ↦ (h.dash (h.char.trans dash)).symm⟩

theorem Alike.eq_dash {c : Spelled} (h : Alike c ⟨'-', false⟩) : c = ⟨'-', false⟩ := by
  have escaped : c.escaped = false := h.dash h.char
  obtain ⟨char, same⟩ := c
  obtain rfl : char = '-' := h.char
  obtain rfl : same = false := escaped
  rfl

/-- Alike characters are grouped into the same ranges. -/
theorem Grouped.exists_alike {items items' : List Spelled} {groups : List Member}
    (h : Grouped items groups) (alike : Forall₂ Alike items items') :
    ∃ groups', Grouped items' groups' ∧ groups'.map Member.range = groups.map Member.range := by
  induction h generalizing items' with
  | nil =>
      cases alike
      exact ⟨[], .nil, rfl⟩
  | between c d _ ih =>
      rcases alike with _ | ⟨first, _ | ⟨dash, _ | ⟨last, others⟩⟩⟩
      obtain ⟨groups', grouped, ranges⟩ := ih others
      rw [dash.symm.eq_dash]
      refine ⟨_, .between _ _ grouped, ?_⟩
      rw [List.map_cons, List.map_cons, ranges, Member.range, Member.range, first.char, last.char]
  | single c alone _ ih =>
      rcases alike with _ | ⟨first, others⟩
      obtain ⟨groups', grouped, ranges⟩ := ih others
      refine ⟨_, .single _ ?_ grouped, ?_⟩
      · rintro d more rfl
        rcases others with _ | ⟨dash, _ | ⟨next, _⟩⟩
        rw [dash.eq_dash] at alone
        exact alone _ _ rfl
      · rw [List.map_cons, List.map_cons, ranges, Member.range, Member.range, first.char]

theorem rangesOf_congr {items items' : List Spelled} (h : Forall₂ Alike items items') :
    rangesOf items = rangesOf items' := by
  obtain ⟨groups, grouped⟩ := exists_grouped items
  obtain ⟨groups', grouped', same⟩ := grouped.exists_alike h
  rw [grouped.rangesOf_eq, grouped'.rangesOf_eq, same]

/-! ## Runs -/

/-- The run takes the character at the position and no more. -/
def TakesOne (pos : Nat) (result : Except Halt (Option Tree)) : Prop :=
  ∃ t, result = .ok (some t) ∧ t.start = pos ∧ t.stop = pos + 1

theorem TakesOne.ne_none {pos : Nat} {result : Except Halt (Option Tree)}
    (h : TakesOne pos result) : result ≠ .ok none := by
  obtain ⟨t, rfl, -⟩ := h
  exact nofun

section Runs

variable {items : List Spelled} {groups : List Member} {text : Text} {pos : Nat}

/-- A class looks for a character in its ranges, also if it has none. -/
theorem eval_classRule (items : List Spelled) (text : Text) (frames : Nat) (env : Option Grammar)
    (pos : Nat) : eval text.toArray (frames + 1) env (classRule items) pos =
      .ok (charAt text.toArray (fun c ↦ (rangesOf items).any (·.contains c)) pos) := by
  rw [classRule]
  split
  next empty =>
    have none : charAt text.toArray (fun c ↦ (rangesOf items).any (·.contains c)) pos = none := by
      rw [empty]
      exact charAt_eq_none_iff.mpr fun _ _ ↦ rfl
    rw [none]
    rfl
  next => rfl

/-- The ranges of a class hold what its members contain. -/
theorem Grouped.any_contains_iff (h : Grouped items groups) (c : CodePoint) :
    (rangesOf items).any (·.contains c) = true ↔ ∃ m ∈ groups, m.Contains c := by
  simp only [h.rangesOf_eq, List.any_map, List.any_eq_true, Function.comp_apply,
    Member.contains_range_iff]

/-- A class takes one character, namely one that a member contains. -/
theorem Grouped.takesOne_iff (h : Grouped items groups) (frames : Nat) (env : Option Grammar) :
    TakesOne pos (eval text.toArray (frames + 1) env (classRule items) pos) ↔
      ∃ c, text[pos]? = some c ∧ ∃ m ∈ groups, m.Contains c := by
  rw [eval_classRule]
  constructor
  · rintro ⟨t, found, -⟩
    obtain ⟨-, c, here, holds⟩ := charAt_eq_some_iff.mp (Except.ok.inj found)
    exact ⟨c, by simpa using here, (h.any_contains_iff c).mp holds⟩
  · rintro ⟨c, here, member⟩
    have found : charAt text.toArray (fun c ↦ (rangesOf items).any (·.contains c)) pos =
        some (.leaf pos (pos + 1)) :=
      charAt_of_getElem? here ((h.any_contains_iff c).mpr member)
    exact ⟨_, congrArg Except.ok found, rfl, rfl⟩

theorem classRule_fails (items : List Spelled) (frames : Nat) (env : Option Grammar)
    (h : ¬ TakesOne pos (eval text.toArray (frames + 1) env (classRule items) pos)) :
    eval text.toArray (frames + 1) env (classRule items) pos = .ok none := by
  rw [eval_classRule] at h ⊢
  cases found : charAt text.toArray (fun c ↦ (rangesOf items).any (·.contains c)) pos with
  | none => rfl
  | some t =>
      obtain ⟨rfl, -⟩ := charAt_eq_some_iff.mp found
      rw [found] at h
      exact absurd ⟨_, rfl, rfl, rfl⟩ h

/-- The complement of a class looks for any character where the class finds none. -/
theorem eval_complementRule (items : List Spelled) (text : Text) (frames : Nat)
    (env : Option Grammar) (pos : Nat) :
    eval text.toArray (frames + 3) env (complementRule items) pos =
      .ok (match charAt text.toArray (fun c ↦ (rangesOf items).any (·.contains c)) pos with
        | some _ => none
        | none => (charAt text.toArray (fun _ ↦ true) pos).map fun t ↦
            ⟨pos, t.stop, [.leaf pos pos, t]⟩) := by
  have inner : eval text.toArray (frames + 1) env (.charRange (rangesOf items)) pos =
      .ok (charAt text.toArray (fun c ↦ (rangesOf items).any (·.contains c)) pos) := rfl
  have any : eval text.toArray (frames + 2) env .anyChar pos =
      .ok (charAt text.toArray (fun _ ↦ true) pos) := rfl
  rw [complementRule, eval_sequence, inSequence, eval_notFollowedBy, inner]
  cases charAt text.toArray (fun c ↦ (rangesOf items).any (·.contains c)) pos with
  | some t => rfl
  | none =>
      show (inSequence (eval text.toArray (frames + 2) env) [.anyChar] pos >>= _) >>= _ = _
      rw [inSequence, any]
      cases charAt text.toArray (fun _ ↦ true) pos <;> rfl

/-- The complement of a class takes one character where there is one and the class fails. -/
theorem takesOne_complementRule_iff (items : List Spelled) (frames : Nat) (env : Option Grammar) :
    TakesOne pos (eval text.toArray (frames + 3) env (complementRule items) pos) ↔
      pos < text.length ∧
        eval text.toArray (frames + 3) env (classRule items) pos = .ok none := by
  rw [eval_complementRule, eval_classRule]
  cases charAt text.toArray (fun c ↦ (rangesOf items).any (·.contains c)) pos with
  | some t =>
      constructor
      · rintro ⟨_, ⟨⟩, -⟩
      · rintro ⟨-, ⟨⟩⟩
  | none =>
      constructor
      · rintro ⟨t, found, -⟩
        obtain ⟨t', here, -⟩ := Option.map_eq_some_iff.mp (Except.ok.inj found)
        obtain ⟨-, c, here, -⟩ := charAt_eq_some_iff.mp here
        rw [List.getElem?_toArray] at here
        exact ⟨(List.getElem?_eq_some_iff.mp here).1, rfl⟩
      · rintro ⟨within, -⟩
        have found : charAt text.toArray (fun _ ↦ true) pos = some (.leaf pos (pos + 1)) :=
          charAt_of_getElem? (List.getElem?_eq_getElem within) rfl
        exact ⟨_, by rw [found]; rfl, rfl, rfl⟩

/-- The complement of a class fails where it does not take a character. -/
theorem complementRule_fails (items : List Spelled) (frames : Nat) (env : Option Grammar)
    (h : ¬ TakesOne pos (eval text.toArray (frames + 3) env (complementRule items) pos)) :
    eval text.toArray (frames + 3) env (complementRule items) pos = .ok none := by
  rw [eval_complementRule] at h ⊢
  cases inside : charAt text.toArray (fun c ↦ (rangesOf items).any (·.contains c)) pos with
  | some t => rfl
  | none =>
      rw [inside] at h
      cases found : charAt text.toArray (fun _ ↦ true) pos with
      | none => rfl
      | some t =>
          obtain ⟨rfl, -⟩ := charAt_eq_some_iff.mp found
          rw [found] at h
          exact absurd ⟨_, rfl, rfl, rfl⟩ h

end Runs

/-! ## Tokens -/

def classToken (body : Text) (offset : Nat) : Token :=
  ⟨.charClass, '[' :: (body ++ ([']'] : Text)), offset⟩

theorem body_classToken (body : Text) (offset : Nat) : (classToken body offset).body = body :=
  Token.body_eq .charClass '[' ']' body offset

theorem spelledIn_eq_ok {body : Text} {items : List Spelled} (h : spelledChars 0 body = .ok items)
    (offset : Nat) : spelledIn body offset = .ok items := by
  have moved := spelledIn_of_moved body 0 offset
  rw [spelledIn, h] at moved
  generalize spelledIn body offset = result at moved
  cases moved with
  | ok same => rw [same]

section Tokens

variable {body : Text} {items : List Spelled} (spelled : spelledChars 0 body = .ok items)
  (frames offset : Nat) (rest : List Token)

include spelled

theorem primary_class (plain : body.head? ≠ some ('^' : CodePoint)) :
    primary (frames + 1) (classToken body offset :: rest) = .ok (classRule items, rest) := by
  have read : charClassRule (classToken body offset) = .ok (classRule items) := by
    rw [charClassRule, body_classToken, if_neg plain, spelledIn_eq_ok spelled]
    rfl
  show (charClassRule (classToken body offset) >>= fun r ↦ .ok (r, rest)) = _
  rw [read, ok_bind]

theorem primary_complement :
    primary (frames + 1) (classToken ('^' :: body) offset :: rest) =
      .ok (complementRule items, rest) := by
  have read : charClassRule (classToken ('^' :: body) offset) = .ok (complementRule items) := by
    have caret : ('^' :: body : Text).head? = some ('^' : CodePoint) := rfl
    rw [charClassRule, body_classToken, if_pos caret, List.drop_one, List.tail_cons,
      spelledIn_eq_ok spelled]
    rfl
  show (charClassRule (classToken ('^' :: body) offset) >>= fun r ↦ .ok (r, rest)) = _
  rw [read, ok_bind]

end Tokens

/-! ## Meaning -/

/-- At a position of a text one rule takes one of the characters that the members contain, and the
other one any other character. -/
structure Complementary (groups : List Member) (inside outside : Rule) (text : Text) (frames : Nat)
    (env : Option Grammar) (pos : Nat) : Prop where
  /-- The one takes a character that a member contains. -/
  inside_iff : TakesOne pos (eval text.toArray frames env inside pos) ↔
    ∃ c, text[pos]? = some c ∧ ∃ m ∈ groups, m.Contains c
  /-- The one fails elsewhere. -/
  inside_fails : ¬ TakesOne pos (eval text.toArray frames env inside pos) →
    eval text.toArray frames env inside pos = .ok none
  /-- The other one takes a character where the one fails. -/
  outside_iff : TakesOne pos (eval text.toArray frames env outside pos) ↔
    pos < text.length ∧ eval text.toArray frames env inside pos = .ok none
  /-- The other one fails elsewhere. -/
  outside_fails : ¬ TakesOne pos (eval text.toArray frames env outside pos) →
    eval text.toArray frames env outside pos = .ok none
  /-- Before the end exactly one of them succeeds. -/
  before_end : pos < text.length →
    (TakesOne pos (eval text.toArray frames env outside pos) ↔
      ¬ TakesOne pos (eval text.toArray frames env inside pos))
  /-- At the end and behind it both fail. -/
  at_end : text.length ≤ pos → eval text.toArray frames env inside pos = .ok none ∧
    eval text.toArray frames env outside pos = .ok none
  /-- The one takes every character that a member is spelled with, the dash of a range aside. -/
  of_mem_ends : ∀ m ∈ groups, ∀ c ∈ m.ends, text[pos]? = some c.char →
    TakesOne pos (eval text.toArray frames env inside pos)

/-- A class and its complement take what is in the class and what is not. -/
theorem Grouped.complementary {items : List Spelled} {groups : List Member}
    (h : Grouped items groups) (text : Text) (frames : Nat) (env : Option Grammar) (pos : Nat) :
    Complementary groups (classRule items) (complementRule items) text (frames + 3) env pos where
  inside_iff := h.takesOne_iff (frames + 2) env
  inside_fails := classRule_fails items (frames + 2) env
  outside_iff := takesOne_complementRule_iff items frames env
  outside_fails := complementRule_fails items frames env
  before_end within := by
    rw [takesOne_complementRule_iff]
    exact ⟨fun outside inside ↦ inside.ne_none outside.2,
      fun fails ↦ ⟨within, classRule_fails items (frames + 2) env fails⟩⟩
  at_end beyond := by
    refine ⟨classRule_fails items (frames + 2) env fun inside ↦ ?_,
      complementRule_fails items frames env fun outside ↦ ?_⟩
    · obtain ⟨c, here, -⟩ := (h.takesOne_iff (frames + 2) env).mp inside
      exact absurd (List.getElem?_eq_some_iff.mp here).1 (Nat.not_lt.mpr beyond)
    · exact absurd ((takesOne_complementRule_iff items frames env).mp outside).1
        (Nat.not_lt.mpr beyond)
  of_mem_ends m mem c isEnd here :=
    (h.takesOne_iff (frames + 2) env).mpr ⟨c.char, here, m, mem, Member.contains_of_mem_ends isEnd⟩

/-- A class takes one character that a member contains, its complement one that none contains. The
members are the groups of its characters; how the characters are spelled does not matter, except for
dashes and a caret at the beginning. -/
theorem class_union_complement {body : Text} {items : List Spelled}
    (spelled : spelledChars 0 body = .ok items) (plain : body.head? ≠ some ('^' : CodePoint)) :
    ∃ (groups : List Member) (inside outside : Rule) (ranges : List CharRange),
      (Grouped items groups ∧ ∀ groups', Grouped items groups' → groups' = groups) ∧
      groups.flatMap Member.items = items ∧
      (∀ frames offset rest,
        primary (frames + 1) (classToken body offset :: rest) = .ok (inside, rest) ∧
        primary (frames + 1) (classToken ('^' :: body) offset :: rest) = .ok (outside, rest)) ∧
      (∀ text frames env pos, Complementary groups inside outside text (frames + 3) env pos) ∧
      (inside = if ranges = [] then .choice [] else .charRange ranges) ∧
      outside = .sequence [.notFollowedBy (.charRange ranges), .anyChar] ∧
      (∀ r ∈ ranges, r.low ≤ r.high) ∧
      ∀ body' items', spelledChars 0 body' = .ok items' → Forall₂ Alike items items' →
        ∀ frames offset rest,
          (body'.head? ≠ some ('^' : CodePoint) →
            primary (frames + 1) (classToken body' offset :: rest) = .ok (inside, rest)) ∧
          primary (frames + 1) (classToken ('^' :: body') offset :: rest) =
            .ok (outside, rest) := by
  obtain ⟨groups, grouped⟩ := exists_grouped items
  refine ⟨groups, classRule items, complementRule items, rangesOf items,
    ⟨grouped, fun groups' other ↦ other.unique grouped⟩, grouped.flatMap_items,
    fun frames offset rest ↦ ⟨primary_class spelled frames offset rest plain,
      primary_complement spelled frames offset rest⟩,
    grouped.complementary, ?_, rfl, fun r mem ↦ low_le_high_of_mem_rangesOf mem, ?_⟩
  · rw [classRule]
    split
    next empty => rw [if_pos empty]
    next some => rw [if_neg some]
  · intro body' items' spelled' alike frames offset rest
    have same := rangesOf_congr alike
    rw [classRule, complementRule, same]
    exact ⟨primary_class spelled' frames offset rest,
      primary_complement spelled' frames offset rest⟩

/-- A range in descending order, a dash at the end and an escaped dash are members; spelling an end
by its number changes nothing. -/
theorem class_union_complement_dashes :
    ∃ (groups : List Member) (inside outside : Rule),
      Grouped [⟨'c', false⟩, ⟨'-', false⟩, ⟨'a', false⟩, ⟨'\\', true⟩, ⟨'-', false⟩] groups ∧
      (∀ frames offset rest,
        primary (frames + 1) (classToken "c-a\\\\-" offset :: rest) = .ok (inside, rest) ∧
        primary (frames + 1) (classToken "c-\\x61\\134-" offset :: rest) = .ok (inside, rest)) ∧
      ∀ text frames env pos, Complementary groups inside outside text (frames + 3) env pos := by
  have spelled : spelledChars 0 "c-a\\\\-" =
      .ok [⟨'c', false⟩, ⟨'-', false⟩, ⟨'a', false⟩, ⟨'\\', true⟩, ⟨'-', false⟩] := by
    decide +kernel
  have respelled : spelledChars 0 "c-\\x61\\134-" =
      .ok [⟨'c', false⟩, ⟨'-', false⟩, ⟨'a', true⟩, ⟨'\\', true⟩, ⟨'-', false⟩] := by decide +kernel
  have alike : Forall₂ Alike
      [⟨'c', false⟩, ⟨'-', false⟩, ⟨'a', false⟩, ⟨'\\', true⟩, ⟨'-', false⟩]
      [⟨'c', false⟩, ⟨'-', false⟩, ⟨'a', true⟩, ⟨'\\', true⟩, ⟨'-', false⟩] := by
    have same : ∀ c, Alike c c := fun c ↦ ⟨rfl, fun _ ↦ rfl⟩
    have letter : Alike ⟨'a', false⟩ ⟨'a', true⟩ := ⟨rfl, fun dash ↦ absurd dash (by decide)⟩
    exact .cons (same _) (.cons (same _) (.cons letter (.cons (same _) (.cons (same _) .nil))))
  obtain ⟨groups, inside, outside, -, ⟨grouped, -⟩, -, reads, complementary, -, -, -, again⟩ :=
    class_union_complement spelled (by decide)
  refine ⟨groups, inside, outside, grouped, fun frames offset rest ↦ ⟨?_, ?_⟩, complementary⟩
  · exact (reads frames offset rest).1
  · exact (again _ _ respelled alike frames offset rest).1 (by decide)

end Peg.Notation
