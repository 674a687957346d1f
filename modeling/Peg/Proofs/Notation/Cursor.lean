import Mathlib.Logic.Relation
import Peg.Proofs.Notation.Completeness

/-!
# Where the reader gets

The reader goes through the tokens with a cursor. It moves on by taking a token, by calling one of
its parts and by coming back from one. None of this goes on for ever: a part that takes no token
calls only parts that are nested deeper in the same item.

What can go wrong besides a flaw of the source goes wrong at a place where the reader gets: there is
no token left, or the next one is missing, or more frames are in use than there are.
-/

namespace Peg.Notation

open Except
open Relation (ReflTransGen)

/-! ## Cursors -/

/-- The part of the reader that is at work. -/
inductive Point where
  /-- Between two rules, after the rules of the given names. -/
  | rules (seen : List Text)
  /-- Before the name of a rule. -/
  | name
  /-- Behind the name of a rule. -/
  | arrow
  /-- Before an expression. -/
  | expression
  /-- Behind a sequence of an expression. -/
  | alternatives
  /-- Before an item or the end of a sequence. -/
  | sequence
  /-- Before an item. -/
  | item
  /-- Before a suffixed primary. -/
  | suffixed
  /-- Behind the primary of a suffixed primary. -/
  | suffix
  /-- Before a primary. -/
  | primary
  /-- Behind an expression in parentheses. -/
  | close

/-- A place where the reader gets. -/
structure Cursor where
  /-- The part that is at work. -/
  point : Point
  /-- The number of frames in use. -/
  used : Nat
  /-- The tokens that are left. -/
  left : List Token

/-- The reader gets from one place to another one by taking a token, by calling a part, or by coming
back from one. -/
inductive LeadsTo : Cursor → Cursor → Prop where
  /-- A rule begins unless the ending comes first. -/
  | name {seen : List Text} {used : Nat} {t : Token} {rest : List Token}
      (other : t.kind ≠ .ending) : LeadsTo ⟨.rules seen, used, t :: rest⟩ ⟨.name, used, t :: rest⟩
  /-- A rule of a new name is read. -/
  | nextRule {seen : List Text} {used frames : Nat} {tokens left : List Token}
      {entry : Text × Rule} (read : ruleWith (expression frames) seen tokens = .ok (entry, left)) :
      LeadsTo ⟨.rules seen, used, tokens⟩ ⟨.rules (entry.1 :: seen), used, left⟩
  /-- The name of a rule is taken. -/
  | arrow {used : Nat} {tokens left : List Token} {head : Token}
      (taken : expect .identifier .expectedRuleName tokens = .ok (head, left)) :
      LeadsTo ⟨.name, used, tokens⟩ ⟨.arrow, used, left⟩
  /-- The arrow of a rule is taken, and its expression begins. -/
  | body {used : Nat} {tokens left : List Token} {arrow : Token}
      (taken : expect .arrow .expectedArrow tokens = .ok (arrow, left)) :
      LeadsTo ⟨.arrow, used, tokens⟩ ⟨.expression, used + 1, left⟩
  /-- The first sequence of an expression begins. -/
  | firstSequence {used : Nat} {tokens : List Token} :
      LeadsTo ⟨.expression, used, tokens⟩ ⟨.sequence, used + 1, tokens⟩
  /-- The first sequence of an expression is read. -/
  | alternatives {used frames : Nat} {tokens left : List Token} {r : Rule}
      (read : sequence frames tokens = .ok (r, left)) :
      LeadsTo ⟨.expression, used, tokens⟩ ⟨.alternatives, used, left⟩
  /-- A slash is taken, and another sequence begins. -/
  | anotherSequence {used : Nat} {tokens left : List Token} {slash : Text}
      (taken : takeOneOf "/" tokens = .ok (some slash, left)) :
      LeadsTo ⟨.alternatives, used, tokens⟩ ⟨.sequence, used + 1, left⟩
  /-- A slash is taken, and the sequence behind it is read. -/
  | nextAlternative {used frames : Nat} {tokens left left' : List Token} {slash : Text} {r : Rule}
      (taken : takeOneOf "/" tokens = .ok (some slash, left))
      (read : sequence frames left = .ok (r, left')) :
      LeadsTo ⟨.alternatives, used, tokens⟩ ⟨.alternatives, used, left'⟩
  /-- An item begins. -/
  | item {used : Nat} {tokens : List Token} (goesOn : atSequenceEnd tokens = .ok false) :
      LeadsTo ⟨.sequence, used, tokens⟩ ⟨.item, used + 1, tokens⟩
  /-- An item is read. -/
  | nextItem {used frames : Nat} {tokens left : List Token} {r : Rule}
      (goesOn : atSequenceEnd tokens = .ok false) (read : item frames tokens = .ok (r, left)) :
      LeadsTo ⟨.sequence, used, tokens⟩ ⟨.sequence, used, left⟩
  /-- The operator of a lookahead is taken, if there is one, and a suffixed primary begins. -/
  | suffixed {used : Nat} {tokens left : List Token} {operator : Option Text}
      (taken : takeOneOf "&!" tokens = .ok (operator, left)) :
      LeadsTo ⟨.item, used, tokens⟩ ⟨.suffixed, used + 1, left⟩
  /-- A primary begins. -/
  | primary {used : Nat} {tokens : List Token} :
      LeadsTo ⟨.suffixed, used, tokens⟩ ⟨.primary, used + 1, tokens⟩
  /-- A primary is read. -/
  | suffix {used frames : Nat} {tokens left : List Token} {r : Rule}
      (read : primary frames tokens = .ok (r, left)) :
      LeadsTo ⟨.suffixed, used, tokens⟩ ⟨.suffix, used, left⟩
  /-- An opening parenthesis is taken, and an expression begins. -/
  | group {used : Nat} (opening : OperatorOf "(") {rest : List Token} :
      LeadsTo ⟨.primary, used, opening.val :: rest⟩ ⟨.expression, used + 1, rest⟩
  /-- An opening parenthesis is taken, and the expression behind it is read. -/
  | close {used frames : Nat} (opening : OperatorOf "(") {rest left : List Token} {r : Rule}
      (read : expression frames rest = .ok (r, left)) :
      LeadsTo ⟨.primary, used, opening.val :: rest⟩ ⟨.close, used, left⟩

/-- The reader of a grammar gets to this place. -/
def Reached (tokens : List Token) : Cursor → Prop := ReflTransGen LeadsTo ⟨.rules [], 0, tokens⟩

/-! ## Steps come to an end -/

/-- How many parts can still be called before a token has to be taken. -/
def Point.rank : Point → Nat
  | expression => 4
  | sequence => 3
  | item => 2
  | suffixed => 1
  | rules _ => 1
  | name | arrow | alternatives | suffix | primary | close => 0

/-- What the steps of the reader use up: the tokens that are left, and at each token the parts that
can be called. -/
def Cursor.size (c : Cursor) : Nat := 5 * c.left.length + c.point.rank

/-- Each step of the reader uses something up. -/
theorem LeadsTo.size_lt {c c' : Cursor} (h : LeadsTo c c') : c'.size < c.size := by
  unfold Cursor.size
  cases h with
  | name => exact Nat.lt_succ_self _
  | @nextRule seen used frames tokens left entry read =>
      obtain ⟨r, rfl, -⟩ := exists_tree_of_ruleWith (readsTrees_all frames).1 read
      simp only [RuleTree.tokens, List.length_append, List.length_cons, Point.rank]
      omega
  | arrow taken =>
      obtain ⟨-, rfl⟩ := expect_eq_ok taken
      simp only [List.length_cons, Point.rank]
      omega
  | body taken =>
      obtain ⟨-, rfl⟩ := expect_eq_ok taken
      simp only [List.length_cons, Point.rank]
      omega
  | firstSequence => exact Nat.lt_succ_self _
  | @alternatives used frames tokens left r read =>
      obtain ⟨s, rfl, -⟩ := (readsTrees_all frames).2.1 read
      simp only [List.length_append, Point.rank]
      omega
  | anotherSequence taken =>
      obtain ⟨none, -⟩ | ⟨slash, -, rfl⟩ := takeOneOf_eq_ok taken
      · cases none
      · simp only [List.length_cons, Point.rank]
        omega
  | @nextAlternative used frames tokens left left' slash r taken read =>
      obtain ⟨s, rfl, -⟩ := (readsTrees_all frames).2.1 read
      obtain ⟨none, -⟩ | ⟨slash, -, rfl⟩ := takeOneOf_eq_ok taken
      · cases none
      · simp only [List.length_cons, List.length_append, Point.rank]
        omega
  | item => exact Nat.lt_succ_self _
  | @nextItem used frames tokens left r goesOn read =>
      obtain ⟨i, rfl, -⟩ := (readsTrees_all frames).2.2.1 read
      have := i.length_tokens_pos
      simp only [List.length_append, Point.rank]
      omega
  | suffixed taken =>
      obtain ⟨-, rfl⟩ | ⟨operator, -, rfl⟩ := takeOneOf_eq_ok taken
      · exact Nat.lt_succ_self _
      · simp only [List.length_cons, Point.rank]
        omega
  | primary => exact Nat.lt_succ_self _
  | @suffix used frames tokens left r read =>
      obtain ⟨p, rfl, -⟩ := (readsTrees_all frames).2.2.2.2 read
      simp only [List.length_append, Point.rank]
      omega
  | group =>
      simp only [List.length_cons, Point.rank]
      omega
  | @close used frames opening rest left r read =>
      obtain ⟨e, rfl, -⟩ := (readsTrees_all frames).1 read
      simp only [List.length_cons, List.length_append, Point.rank]
      omega

theorem wellFounded_leadsTo : WellFounded fun c' c : Cursor ↦ LeadsTo c c' :=
  Subrelation.wf LeadsTo.size_lt (measure Cursor.size).wf

/-! ## Settled results -/

/-- The result is a success or a flaw of the source. -/
inductive Settles {α : Type} : Except ReadError α → Prop where
  /-- A success. -/
  | ok (a : α) : Settles (.ok a)
  /-- A flaw. -/
  | flawed (e : Error) : Settles (.error (.flawed e))

/-- Two steps settle if each does. -/
theorem Settles.bind {α β : Type} {x : Except ReadError α} {f : α → Except ReadError β}
    (first : Settles x) (second : ∀ a, x = .ok a → Settles (f a)) : Settles (x >>= f) := by
  cases first with
  | ok a => exact second a rfl
  | flawed e => exact .flawed e

/-- A settled result is not that the frames do not suffice. -/
theorem Settles.ne_outOfFrames {α : Type} {x : Except ReadError α} (h : Settles x) :
    x ≠ .error .outOfFrames := by
  cases h <;> exact nofun

theorem ReadsAs.eq_ok {α : Type} {x : Except ReadError α} {a : α} (h : ReadsAs x a)
    (frames : x ≠ .error .outOfFrames) : x = .ok a := h.resolve_right frames

/-! ## Single tokens -/

section SingleTokens

variable {tokens : List Token}

theorem settles_takeOneOf (operators : Text) (h : tokens ≠ []) :
    Settles (takeOneOf operators tokens) := by
  obtain ⟨t, rest, rfl⟩ := List.exists_cons_of_ne_nil h
  rw [takeOneOf]
  split
  · exact .ok _
  · exact .ok _

theorem settles_expectClose (h : tokens ≠ []) : Settles (expectClose tokens) := by
  obtain ⟨t, rest, rfl⟩ := List.exists_cons_of_ne_nil h
  rw [expectClose]
  split
  · exact .ok _
  · exact .flawed _

theorem settles_expect (kind : TokenKind) (flaw : Flaw) (h : tokens ≠ []) :
    Settles (expect kind flaw tokens) := by
  obtain ⟨t, rest, rfl⟩ := List.exists_cons_of_ne_nil h
  rw [expect]
  split
  · exact .ok _
  · exact .flawed _

theorem settles_spelledIn (body : Text) (offset : Nat) : Settles (spelledIn body offset) := by
  rw [spelledIn]
  cases spelledChars offset body with
  | error e => exact .flawed e
  | ok chars => exact .ok chars

theorem settles_literalRule (t : Token) : Settles (literalRule t) :=
  (settles_spelledIn _ _).bind fun _ _ ↦ .ok _

theorem settles_charClassRule (t : Token) : Settles (charClassRule t) := by
  rw [charClassRule]
  split
  · exact (settles_spelledIn _ _).bind fun _ _ ↦ .ok _
  · exact (settles_spelledIn _ _).bind fun _ _ ↦ .ok _

end SingleTokens

/-! ## Reliable places -/

namespace Cursor

/-- The reader finds what it needs at this place. -/
structure Placed (limit : Nat) (c : Cursor) : Prop where
  /-- There is a token. -/
  left_ne_nil : c.left ≠ []
  /-- Where an item or the end of a sequence is expected, the token behind a name is there. -/
  lookahead : c.point = .sequence → ∀ t rest, c.left = t :: rest → t.kind = .identifier → rest ≠ []
  /-- There are as many frames as are in use. -/
  used_le : c.used ≤ limit

theorem Placed.exists_atSequenceEnd {limit used : Nat} {tokens : List Token}
    (h : Placed limit ⟨.sequence, used, tokens⟩) : ∃ ends, atSequenceEnd tokens = .ok ends := by
  obtain ⟨t, rest, rfl⟩ := List.exists_cons_of_ne_nil h.left_ne_nil
  by_cases identifier : t.kind = .identifier
  · obtain ⟨next, more, rfl⟩ :=
      List.exists_cons_of_ne_nil (h.lookahead rfl t rest rfl identifier)
    exact ⟨_, atSequenceEnd_of_identifier identifier more⟩
  · exact ⟨_, atSequenceEnd_of_kind_ne identifier rest⟩

/-- The reader finds what it needs at this place and wherever it gets from there. -/
def Reliable (limit : Nat) (c : Cursor) : Prop := ∀ c', ReflTransGen LeadsTo c c' → c'.Placed limit

variable {limit : Nat} {c c' : Cursor}

/-- What is needed at a reliable place is there. -/
theorem Reliable.placed (h : c.Reliable limit) : c.Placed limit := h c .refl

/-- A reliable place leads to reliable places. -/
theorem Reliable.next (h : c.Reliable limit) (step : LeadsTo c c') : c'.Reliable limit :=
  fun c'' onward ↦ h c'' (.head step onward)

end Cursor

/-! ## Expressions -/

section Expressions

open Cursor

variable {limit frames : Nat}

/-- A reader settles at every reliable place where it has the frames that are not in use, its own
among them. -/
def SettlesAt (limit : Nat) (point : Point) (frames : Nat) (read : Reader Rule) : Prop :=
  ∀ ⦃used : Nat⦄ ⦃tokens : List Token⦄, frames + used = limit + 1 →
    Reliable limit ⟨point, used, tokens⟩ → Settles (read tokens)

theorem settlesAt_zero (point : Point) (read : Reader Rule) : SettlesAt limit point 0 read := by
  intro used tokens all reliable
  have : used ≤ limit := reliable.placed.used_le
  omega

theorem settles_itemsWith (h : SettlesAt limit .item frames (item frames)) {used count : Nat}
    {tokens : List Token} (all : frames + 1 + used = limit + 1)
    (reliable : Reliable limit ⟨.sequence, used, tokens⟩) (enough : tokens.length ≤ count) :
    Settles (itemsWith (item frames) count tokens) := by
  induction count generalizing tokens with
  | zero =>
      rw [List.length_eq_zero_iff.mp (Nat.le_zero.mp enough)] at reliable
      exact (reliable.placed.left_ne_nil rfl).elim
  | succ count ih =>
      obtain ⟨ends, known⟩ := reliable.placed.exists_atSequenceEnd
      rw [itemsWith, known, ok_bind]
      cases ends with
      | true => exact .ok _
      | false =>
          refine (h (by omega) (reliable.next (.item known))).bind fun ⟨r, left⟩ first ↦ ?_
          have behind := reliable.next (.nextItem known first)
          obtain ⟨i, rfl, -⟩ := (readsTrees_all frames).2.2.1 first
          have shorter : left.length ≤ count := by
            have := i.length_tokens_pos
            rw [List.length_append] at enough
            omega
          exact (ih behind shorter).bind fun _ _ ↦ .ok _

theorem settles_alternativesWith (h : SettlesAt limit .sequence frames (sequence frames))
    {used count : Nat} {tokens : List Token} (all : frames + 1 + used = limit + 1)
    (reliable : Reliable limit ⟨.alternatives, used, tokens⟩) (enough : tokens.length ≤ count) :
    Settles (alternativesWith (sequence frames) count tokens) := by
  induction count generalizing tokens with
  | zero =>
      rw [List.length_eq_zero_iff.mp (Nat.le_zero.mp enough)] at reliable
      exact (reliable.placed.left_ne_nil rfl).elim
  | succ count ih =>
      rw [alternativesWith]
      refine (settles_takeOneOf "/" reliable.placed.left_ne_nil).bind fun ⟨found, left⟩ taken ↦ ?_
      cases found with
      | none => exact .ok _
      | some slash =>
          apply (h (by omega) (reliable.next (.anotherSequence taken))).bind
          rintro ⟨r, left'⟩ second
          have behind := reliable.next (.nextAlternative taken second)
          obtain ⟨none, -⟩ | ⟨slash, -, rfl⟩ := takeOneOf_eq_ok taken
          · cases none
          · obtain ⟨s, rfl, -⟩ := (readsTrees_all frames).2.1 second
            have shorter : left'.length ≤ count := by
              rw [List.length_cons, List.length_append] at enough
              omega
            exact (ih behind shorter).bind fun _ _ ↦ .ok _

theorem settlesAt_expression (h : SettlesAt limit .sequence frames (sequence frames)) :
    SettlesAt limit .expression (frames + 1) (expression (frames + 1)) := by
  intro used tokens all reliable
  rw [expression]
  apply (h (by omega) (reliable.next .firstSequence)).bind
  rintro ⟨r, left⟩ first
  have behind := reliable.next (.alternatives first)
  exact (settles_alternativesWith h all behind (Nat.le_refl _)).bind fun _ _ ↦ .ok _

theorem settlesAt_sequence (h : SettlesAt limit .item frames (item frames)) :
    SettlesAt limit .sequence (frames + 1) (sequence (frames + 1)) := by
  intro used tokens all reliable
  rw [sequence]
  exact (settles_itemsWith h all reliable (Nat.le_refl _)).bind fun _ _ ↦ .ok _

theorem settlesAt_item (h : SettlesAt limit .suffixed frames (suffixed frames)) :
    SettlesAt limit .item (frames + 1) (item (frames + 1)) := by
  intro used tokens all reliable
  rw [item]
  refine (settles_takeOneOf "&!" reliable.placed.left_ne_nil).bind fun ⟨found, left⟩ taken ↦ ?_
  have primary : Settles (suffixed frames left) :=
    h (by omega) (reliable.next (.suffixed taken))
  cases found with
  | none => exact primary
  | some operator => exact primary.bind fun _ _ ↦ .ok _

theorem settlesAt_suffixed (h : SettlesAt limit .primary frames (primary frames)) :
    SettlesAt limit .suffixed (frames + 1) (suffixed (frames + 1)) := by
  intro used tokens all reliable
  rw [suffixed]
  refine (h (by omega) (reliable.next .primary)).bind fun ⟨r, left⟩ first ↦ ?_
  have behind : Reliable limit ⟨.suffix, used, left⟩ := reliable.next (.suffix first)
  refine (settles_takeOneOf "?*+" behind.placed.left_ne_nil).bind fun ⟨found, left'⟩ taken ↦ ?_
  cases found with
  | none => exact .ok _
  | some operator => exact .ok _

theorem settlesAt_primary (h : SettlesAt limit .expression frames (expression frames)) :
    SettlesAt limit .primary (frames + 1) (primary (frames + 1)) := by
  intro used tokens all reliable
  obtain ⟨t, rest, rfl⟩ := List.exists_cons_of_ne_nil reliable.placed.left_ne_nil
  rw [primary]
  split
  next => exact .ok _
  next => exact (settles_literalRule t).bind fun _ _ ↦ .ok _
  next => exact (settles_charClassRule t).bind fun _ _ ↦ .ok _
  next kind =>
    split
    next => exact .ok _
    next =>
      split
      next text =>
        have isOpening : t.isOneOf "(" = true :=
          Token.isOneOf_iff.mpr ⟨kind, '(', by simp [Text.ofString], text⟩
        have inner : Reliable limit ⟨.expression, used + 1, rest⟩ :=
          reliable.next (.group ⟨t, isOpening⟩)
        refine (h (by omega) inner).bind ?_
        rintro ⟨r, left⟩ read
        have behind : Reliable limit ⟨.close, used, left⟩ :=
          reliable.next (.close ⟨t, isOpening⟩ read)
        exact (settles_expectClose behind.placed.left_ne_nil).bind fun _ _ ↦ .ok _
      next => exact .flawed _
  next => exact .flawed _
  next => exact .flawed _

/-- All readers of parts of rules settle at reliable places. -/
theorem settlesAt_all (limit frames : Nat) :
    SettlesAt limit .expression frames (expression frames) ∧
    SettlesAt limit .sequence frames (sequence frames) ∧
    SettlesAt limit .item frames (item frames) ∧
    SettlesAt limit .suffixed frames (suffixed frames) ∧
    SettlesAt limit .primary frames (primary frames) := by
  induction frames with
  | zero =>
      refine ⟨?_, ?_, ?_, ?_, ?_⟩
      all_goals exact settlesAt_zero _ _
  | succ frames ih =>
      obtain ⟨expression, sequence, item, suffixed, primary⟩ := ih
      exact ⟨settlesAt_expression sequence, settlesAt_sequence item, settlesAt_item suffixed,
        settlesAt_suffixed primary, settlesAt_primary expression⟩

end Expressions

/-! ## Grammars -/

open Cursor

theorem settles_ruleWith {frames : Nat} {seen : List Text} {tokens : List Token}
    (reliable : Reliable frames ⟨.name, 0, tokens⟩) :
    Settles (ruleWith (expression frames) seen tokens) := by
  refine (settles_expect _ _ reliable.placed.left_ne_nil).bind fun ⟨head, left⟩ name ↦ ?_
  have behind : Reliable frames ⟨.arrow, 0, left⟩ := reliable.next (.arrow name)
  refine (settles_expect _ _ behind.placed.left_ne_nil).bind fun ⟨arrow, left'⟩ taken ↦ ?_
  refine ((settlesAt_all frames frames).1 rfl (behind.next (.body taken))).bind fun _ _ ↦ ?_
  dsimp only
  split
  · exact .flawed _
  · exact .ok _

theorem settles_rulesWith {frames count : Nat} {seen : List Text} {tokens : List Token}
    (reliable : Reliable frames ⟨.rules seen, 0, tokens⟩) (enough : tokens.length ≤ count) :
    Settles (rulesWith (expression frames) count seen tokens) := by
  induction count generalizing seen tokens with
  | zero =>
      rw [List.length_eq_zero_iff.mp (Nat.le_zero.mp enough)] at reliable
      exact (reliable.placed.left_ne_nil rfl).elim
  | succ count ih =>
      obtain ⟨t, rest, rfl⟩ := List.exists_cons_of_ne_nil reliable.placed.left_ne_nil
      rw [rulesWith]
      split
      next => exact .ok _
      next other =>
        refine (settles_ruleWith (reliable.next (.name other))).bind ?_
        rintro ⟨entry, left⟩ first
        have behind := reliable.next (.nextRule first)
        obtain ⟨r, whole, -⟩ := exists_tree_of_ruleWith (readsTrees_all frames).1 first
        rw [whole] at enough
        have shorter : left.length ≤ count := by
          rw [List.length_append, RuleTree.tokens, List.length_cons] at enough
          omega
        exact (ih behind shorter).bind fun _ _ ↦ .ok _

/-- Reading a grammar comes to an end if the reader finds what it needs wherever it gets. -/
theorem settles_grammar_of_placed {frames : Nat} {tokens : List Token}
    (placed : ∀ c, Reached tokens c → c.Placed frames) : Settles (grammar frames tokens) := by
  have reliable : Reliable frames ⟨.rules [], 0, tokens⟩ := placed
  refine (settles_rulesWith reliable (Nat.le_refl _)).bind fun ⟨entries, left⟩ all ↦ ?_
  obtain ⟨rules, ending, more, rfl, -⟩ := exists_trees_of_rulesWith (readsTrees_all frames).1 all
  cases entries with
  | nil => exact .flawed _
  | cons entry entries => exact .ok _

end Peg.Notation
