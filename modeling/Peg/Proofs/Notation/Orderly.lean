import Peg.Proofs.Notation.Frames

/-!
# The reader keeps to the tokens

Every token in front of the ending is taken once, the ending never, and nothing behind it is looked
at. The frames in use grow with the parentheses that are open at a time and with nothing else.
-/

namespace Peg.Notation

open Except

theorem length_lt_of_item {frames : Nat} {tokens left : List Token} {r : Rule}
    (read : item frames tokens = .ok (r, left)) : left.length < tokens.length := by
  obtain ⟨i, rfl, -⟩ := (readsTrees_all frames).2.2.1 read
  have := i.length_tokens_pos
  rw [List.length_append]
  omega

theorem eq_ending_of_grammar {frames : Nat} {tokens left : List Token} {table : List (Text × Rule)}
    (terminated : Terminated tokens) (read : grammar frames tokens = .ok (table, left)) :
    ∃ row, ∃ ending : TokenOf .ending, tokens = row ++ [ending.val] ∧ left = [ending.val] := by
  obtain ⟨g, ending, more, rfl, rfl, -⟩ := exists_tree_of_grammar read
  have others : ∀ t ∈ g.tokens, t.kind ≠ .ending := by
    intro t mem
    obtain ⟨r, -, mem⟩ := List.mem_flatMap.mp mem
    exact r.balanced.ne_ending t mem
  obtain rfl := (terminated.of_append others).eq_nil ending.property
  exact ⟨g.tokens, ending, rfl, rfl⟩

theorem exists_not_placed {frames : Nat} {tokens : List Token}
    (h : ¬ Settles (readRules frames tokens)) : ∃ c, Reached tokens c ∧ ¬ c.Placed frames := by
  by_contra none
  have placed : ∀ c, Reached tokens c → c.Placed frames := by
    intro c reached
    by_contra lacking
    exact none ⟨c, reached, lacking⟩
  exact h ((settles_grammar_of_placed placed).bind fun _ _ ↦ .ok _)

/-- How the reader goes through tokens, and what comes of it. -/
structure OrderlyReading (tokens : List Token) : Prop where
  /-- Wherever the reader gets there is a token, and another one behind a name that it looks beyond;
  the frames in use are no more than five for each pair of parentheses around the same token, and
  five. -/
  placed : ∀ c, Reached tokens c → c.Placed (5 * nesting 0 tokens + 5)
  /-- What it has taken to get there are the first tokens, and none of them is an ending. -/
  taken : ∀ c, Reached tokens c →
    ∃ row, tokens = row ++ c.left ∧ ∀ t ∈ row, t.kind ≠ .ending
  /-- It does not go on for ever from there. -/
  finite : ∀ c, Reached tokens c → Acc (fun c' c ↦ LeadsTo c c') c
  /-- An item that it comes back from has taken a token. -/
  item : ∀ frames left r left', item frames left = .ok (r, left') → left'.length < left.length
  /-- The reader comes back from all rules with the ending left and everything before it taken. -/
  whole : ∀ frames table left, grammar frames tokens = .ok (table, left) →
    ∃ row, ∃ ending : TokenOf .ending, tokens = row ++ [ending.val] ∧ left = [ending.val]
  /-- With as many frames, and as well with any more of them, it finds the same table or the same
  flaw. -/
  settles : ∀ frames, 5 * nesting 0 tokens + 5 ≤ frames → Settles (readRules frames tokens) ∧
    readRules frames tokens = readRules (5 * nesting 0 tokens + 5) tokens
  /-- With fewer frames nothing else can happen but that they run out. -/
  outOfFrames : ∀ frames, ¬ Settles (readRules frames tokens) →
    readRules frames tokens = .error .outOfFrames ∧ ∃ c, Reached tokens c ∧ frames < c.used

/-- The tokens of a source end with the only ending, and all tokens that do are read in order. -/
theorem orderlyReading : (∀ src tokens, tokenize src = .ok tokens → Terminated tokens) ∧
    ∀ tokens, Terminated tokens → OrderlyReading tokens := by
  refine ⟨fun src tokens tokenized ↦ terminated_of_tokenize tokenized, fun tokens terminated ↦ ?_⟩
  have placed : ∀ c, Reached tokens c → c.Placed (5 * nesting 0 tokens + 5) :=
    fun c reached ↦ (Cursor.OnTheWay.of_reached reached).placed terminated
  have settled := settles_readRules terminated (Nat.le_refl _)
  refine
    { placed := placed
      taken := fun c reached ↦ (Cursor.OnTheWay.of_reached reached).exists_row
      finite := fun c _ ↦ wellFounded_leadsTo.apply c
      item := fun _ _ _ _ ↦ length_lt_of_item
      whole := fun _ _ _ ↦ eq_ending_of_grammar terminated
      settles := fun frames enough ↦ ⟨settles_readRules terminated enough,
        readRules_eq_of_le enough settled.ne_outOfFrames⟩
      outOfFrames := fun frames unsettled ↦ ⟨?_, ?_⟩ }
  · by_contra enough
    exact unsettled (settles_readRules_of_ne terminated enough)
  · obtain ⟨c, reached, lacking⟩ := exists_not_placed unsettled
    obtain ⟨left_ne_nil, lookahead, -⟩ := placed c reached
    refine ⟨c, reached, ?_⟩
    by_contra enough
    exact lacking ⟨left_ne_nil, lookahead, Nat.le_of_not_lt enough⟩

/-- Before the name in parentheses the reader uses all of the ten frames that it may use. -/
theorem orderlyReading_group : ∃ tokens c, tokenize "a<-(b)" = .ok tokens ∧ OrderlyReading tokens ∧
    Reached tokens c ∧ c.used = 10 ∧ 5 * nesting 0 tokens + 5 = 10 := by
  let tokens : List Token := [⟨.identifier, "a", 0⟩, ⟨.arrow, "<-", 1⟩, ⟨.operator, "(", 3⟩,
    ⟨.identifier, "b", 4⟩, ⟨.operator, ")", 5⟩, ⟨.ending, [], 6⟩]
  have tokenized : tokenize "a<-(b)" = .ok tokens := by decide +kernel
  have opening : Token.isOneOf ⟨.operator, "(", 3⟩ "(" = true := by decide
  have behindArrow : Reached tokens ⟨.expression, 1, tokens.drop 2⟩ :=
    .tail (.tail (.single (.name nofun)) (.arrow rfl)) (.body rfl)
  have behindOpening : Reached tokens ⟨.expression, 6, tokens.drop 3⟩ :=
    .tail (.tail (.tail (.tail (.tail behindArrow .firstSequence) (.item rfl)) (.suffixed rfl))
      .primary) (.group ⟨_, opening⟩)
  have inside : Reached tokens ⟨.primary, 10, tokens.drop 3⟩ :=
    .tail (.tail (.tail (.tail behindOpening .firstSequence) (.item rfl)) (.suffixed rfl)) .primary
  obtain ⟨terminated, orderly⟩ := orderlyReading
  exact ⟨tokens, _, tokenized, orderly tokens (terminated _ _ tokenized), inside, rfl, rfl⟩

end Peg.Notation
