import Peg.Proofs.Notation.Cursor

/-!
# Reading comes to an end

On tokens whose last one is the only ending, reading either succeeds or finds a flaw of the source.
It never looks beyond the ending. The frames it takes are five for each pair of parentheses around
the same token, and five more; how many tokens there are does not matter.
-/

namespace Peg.Notation

open Except

/-! ## Terminated tokens -/

/-- The last token is the only ending. -/
inductive Terminated : List Token → Prop where
  /-- The ending alone. -/
  | ending {t : Token} (h : t.kind = .ending) : Terminated [t]
  /-- Another token before them. -/
  | cons {t : Token} (h : t.kind ≠ .ending) {rest : List Token} (tail : Terminated rest) :
      Terminated (t :: rest)

namespace Terminated

/-- What comes after other tokens than the ending is terminated. -/
theorem of_append {row rest : List Token} (others : ∀ t ∈ row, t.kind ≠ .ending)
    (h : Terminated (row ++ rest)) : Terminated rest := by
  induction row with
  | nil => exact h
  | cons t row ih =>
      have other : t.kind ≠ .ending := others t List.mem_cons_self
      refine ih (fun t' mem ↦ others t' (List.mem_cons_of_mem t mem)) ?_
      rw [List.cons_append] at h
      generalize row ++ rest = tail at h
      cases h with
      | ending same => exact (other same).elim
      | cons _ tail => exact tail

/-- Nothing comes after the ending. -/
theorem eq_nil {ending : Token} {rest : List Token} (h : Terminated (ending :: rest))
    (kind : ending.kind = .ending) : rest = [] := by
  cases h with
  | ending => rfl
  | cons other => exact (other kind).elim

/-- There is a token. -/
theorem ne_nil {tokens : List Token} (h : Terminated tokens) : tokens ≠ [] := by
  cases h with
  | ending => exact nofun
  | cons => exact nofun

end Terminated

/-! ## Nesting -/

/-- The largest number of parentheses that are open at a time, if so many are open before. -/
def nesting (depth : Nat) : List Token → Nat
  | [] => depth
  | t :: rest =>
      if t.isOneOf "(" then nesting (depth + 1) rest
      else if t.isOneOf ")" then max depth (nesting (depth - 1) rest)
      else nesting depth rest

theorem le_nesting (depth : Nat) (tokens : List Token) : depth ≤ nesting depth tokens := by
  induction tokens generalizing depth with
  | nil => exact Nat.le_refl depth
  | cons t rest ih =>
      rw [nesting]
      split
      · exact Nat.le_of_succ_le (ih (depth + 1))
      · split
        · exact Nat.le_max_left _ _
        · exact ih depth

/-- A row of tokens without the ending that closes the parentheses it opens, and no others. -/
structure Balanced (row : List Token) : Prop where
  /-- No token is the ending. -/
  ne_ending : ∀ t ∈ row, t.kind ≠ .ending
  /-- As many parentheses are open after the row as before. -/
  nesting_le : ∀ depth rest, nesting depth rest ≤ nesting depth (row ++ rest)

namespace Balanced

/-- No token at all is balanced. -/
theorem nil : Balanced [] := ⟨nofun, fun _ _ ↦ Nat.le_refl _⟩

/-- Two balanced rows after each other are balanced. -/
theorem append {row row' : List Token} (h : Balanced row) (h' : Balanced row') :
    Balanced (row ++ row') := by
  constructor
  · intro t mem
    exact (List.mem_append.mp mem).elim (h.ne_ending t) (h'.ne_ending t)
  · intro depth rest
    rw [List.append_assoc]
    exact Nat.le_trans (h'.nesting_le depth rest) (h.nesting_le depth (row' ++ rest))

/-- A token that is neither the ending nor a parenthesis may come before a balanced row. -/
theorem cons {t : Token} (ending : t.kind ≠ .ending) (opening : t.isOneOf "(" = false)
    (closing : t.isOneOf ")" = false) {row : List Token} (h : Balanced row) :
    Balanced (t :: row) := by
  constructor
  · rintro t' (_ | ⟨_, mem⟩)
    · exact ending
    · exact h.ne_ending t' mem
  · intro depth rest
    rw [List.cons_append, nesting, opening, closing]
    exact h.nesting_le depth rest

theorem cons_token {kind : TokenKind} (t : TokenOf kind) (ending : kind ≠ .ending)
    (operator : kind ≠ .operator) {row : List Token} (h : Balanced row) :
    Balanced (t.val :: row) :=
  cons (t.kind_ne ending) (Token.isOneOf_of_kind_ne (t.kind_ne operator))
    (Token.isOneOf_of_kind_ne (t.kind_ne operator)) h

theorem cons_operator {operators : Text} (o : OperatorOf operators)
    (disjoint : ∀ c ∈ operators, c ∉ ("()" : Text)) {row : List Token} (h : Balanced row) :
    Balanced (o.val :: row) := by
  refine cons (o.kind_ne nofun) ?_ ?_ h
  · exact Token.isOneOf_of_disjoint o.property fun c mem opening ↦
      disjoint c mem (by simp_all [Text.ofString])
  · exact Token.isOneOf_of_disjoint o.property fun c mem closing ↦
      disjoint c mem (by simp_all [Text.ofString])

/-- A balanced row in parentheses is balanced. -/
theorem group (opening : OperatorOf "(") {row : List Token} (h : Balanced row)
    (closing : OperatorOf ")") : Balanced (opening.val :: (row ++ [closing.val])) := by
  constructor
  · intro t mem
    rw [List.mem_cons, List.mem_append, List.mem_singleton] at mem
    rcases mem with rfl | mem | rfl
    · exact opening.kind_ne (by simp)
    · exact h.ne_ending t mem
    · exact closing.kind_ne (by simp)
  · intro depth rest
    have other : closing.val.isOneOf "(" = false :=
      Token.isOneOf_of_disjoint closing.property (by simp [Text.ofString])
    rw [List.cons_append, List.append_assoc, List.singleton_append, nesting,
      if_pos opening.property]
    refine Nat.le_trans ?_ (h.nesting_le (depth + 1) (closing.val :: rest))
    rw [nesting, other, if_neg Bool.false_ne_true, if_pos closing.property, Nat.add_sub_cancel]
    exact Nat.le_max_right _ _

end Balanced

mutual

theorem ExpressionTree.balanced : ∀ e : ExpressionTree, Balanced e.tokens
  | .last s => s.balanced
  | .more s slash e => s.balanced.append (.cons_operator slash (by simp [Text.ofString]) e.balanced)

theorem SequenceTree.balanced : ∀ s : SequenceTree, Balanced s.tokens
  | .empty => .nil
  | .more i s => i.balanced.append s.balanced

theorem ItemTree.balanced : ∀ i : ItemTree, Balanced i.tokens
  | .plain s => s.balanced
  | .lookahead operator s => .cons_operator operator (by simp [Text.ofString]) s.balanced

theorem SuffixedTree.balanced : ∀ s : SuffixedTree, Balanced s.tokens
  | .plain p => p.balanced
  | .repeated p operator =>
      p.balanced.append (.cons_operator operator (by simp [Text.ofString]) .nil)

/-- The tokens of a primary are balanced. -/
theorem PrimaryTree.balanced : ∀ p : PrimaryTree, Balanced p.tokens
  | .reference name => .cons_token name nofun nofun .nil
  | .literal t => .cons_token t nofun nofun .nil
  | .charClass t => .cons_token t nofun nofun .nil
  | .anyChar dot => .cons_operator dot (by simp [Text.ofString]) .nil
  | .group opening e closing => .group opening e.balanced closing

end

theorem RuleTree.balanced (r : RuleTree) : Balanced r.tokens :=
  .cons_token r.name nofun nofun (.cons_token r.arrow nofun nofun r.body.balanced)

/-! ## Places where the reader gets -/

/-- The frames in use besides the five for each parenthesis that is open. -/
def Point.level : Point → Nat
  | rules _ | name | arrow | close => 0
  | expression | alternatives => 1
  | sequence => 2
  | item => 3
  | suffixed | suffix => 4
  | primary => 5

theorem Point.level_le (point : Point) : point.level ≤ 5 := by
  unfold level
  split <;> omega

namespace Cursor

/-- The reader has taken other tokens than the ending, and it uses five frames for each parenthesis
that it has open, and those of the part at work. -/
structure OnTheWay (tokens : List Token) (c : Cursor) : Prop where
  /-- The tokens that are left come after other tokens than the ending. -/
  exists_row : ∃ row, tokens = row ++ c.left ∧ ∀ t ∈ row, t.kind ≠ .ending
  /-- The open parentheses count among those of all tokens. -/
  exists_depth : ∃ depth, c.used = 5 * depth + c.point.level ∧
    nesting depth c.left ≤ nesting 0 tokens

namespace OnTheWay

variable {tokens left : List Token} {point point' : Point} {used used' : Nat}

theorem of_balanced {row : List Token} (balanced : Balanced row)
    (h : OnTheWay tokens ⟨point, used, row ++ left⟩)
    (same : used' + point.level = used + point'.level) :
    OnTheWay tokens ⟨point', used', left⟩ := by
  obtain ⟨⟨taken, rfl, others⟩, depth, frames, below⟩ := h
  refine ⟨⟨taken ++ row, by rw [List.append_assoc], ?_⟩, depth, ?_, ?_⟩
  · intro t mem
    exact (List.mem_append.mp mem).elim (others t) (balanced.ne_ending t)
  · simp only at frames ⊢
    omega
  · exact Nat.le_trans (balanced.nesting_le depth left) below

theorem of_call (h : OnTheWay tokens ⟨point, used, left⟩)
    (same : used' + point.level = used + point'.level) :
    OnTheWay tokens ⟨point', used', left⟩ := of_balanced .nil h same

/-- The reader may take an opening parenthesis before an expression. -/
theorem of_opening (opening : OperatorOf "(")
    (h : OnTheWay tokens ⟨.primary, used, opening.val :: left⟩) :
    OnTheWay tokens ⟨.expression, used + 1, left⟩ := by
  obtain ⟨⟨taken, rfl, others⟩, depth, frames, below⟩ := h
  refine ⟨⟨taken ++ [opening.val], by rw [List.append_assoc]; rfl, ?_⟩, depth + 1, ?_, ?_⟩
  · intro t mem
    rcases List.mem_append.mp mem with mem | mem
    · exact others t mem
    · rw [List.mem_singleton.mp mem]
      exact opening.kind_ne nofun
  · simp only [Point.level] at frames ⊢
    omega
  · rw [nesting, if_pos opening.property] at below
    exact below

/-- The reader stays on the way with each step. -/
theorem step {c c' : Cursor} (h : OnTheWay tokens c) (step : LeadsTo c c') :
    OnTheWay tokens c' := by
  cases step with
  | name | firstSequence | item | primary => exact h.of_call rfl
  | @nextRule seen used frames input left entry read =>
      obtain ⟨r, rfl, -⟩ := exists_tree_of_ruleWith (readsTrees_all frames).1 read
      exact of_balanced r.balanced h rfl
  | arrow taken =>
      obtain ⟨identifier, rfl⟩ := expect_eq_ok taken
      exact of_balanced (.cons_token ⟨_, identifier⟩ nofun nofun .nil) h rfl
  | body taken =>
      obtain ⟨arrow, rfl⟩ := expect_eq_ok taken
      exact of_balanced (.cons_token ⟨_, arrow⟩ nofun nofun .nil) h rfl
  | @alternatives used frames input left r read =>
      obtain ⟨s, rfl, -⟩ := (readsTrees_all frames).2.1 read
      exact of_balanced s.balanced h rfl
  | anotherSequence taken =>
      obtain ⟨none, -⟩ | ⟨slash, -, rfl⟩ := takeOneOf_eq_ok taken
      · cases none
      · exact of_balanced (.cons_operator slash (by simp [Text.ofString]) .nil) h rfl
  | @nextAlternative used frames input left left' _ r taken read =>
      obtain ⟨s, rfl, -⟩ := (readsTrees_all frames).2.1 read
      obtain ⟨none, -⟩ | ⟨slash, -, rfl⟩ := takeOneOf_eq_ok taken
      · cases none
      · exact of_balanced (.cons_operator slash (by simp [Text.ofString]) s.balanced) h rfl
  | @nextItem used frames input left r _ read =>
      obtain ⟨i, rfl, -⟩ := (readsTrees_all frames).2.2.1 read
      exact of_balanced i.balanced h rfl
  | suffixed taken =>
      obtain ⟨-, rfl⟩ | ⟨operator, -, rfl⟩ := takeOneOf_eq_ok taken
      · exact h.of_call rfl
      · exact of_balanced (.cons_operator operator (by simp [Text.ofString]) .nil) h rfl
  | @suffix used frames input left r read =>
      obtain ⟨p, rfl, -⟩ := (readsTrees_all frames).2.2.2.2 read
      exact of_balanced p.balanced h rfl
  | group opening => exact h.of_opening opening
  | @close used frames opening rest left r read =>
      obtain ⟨e, rfl, -⟩ := (readsTrees_all frames).1 read
      exact of_balanced e.balanced (h.of_opening opening) rfl

theorem of_reached {c : Cursor} (reached : Reached tokens c) : OnTheWay tokens c := by
  induction reached with
  | refl => exact ⟨⟨[], rfl, nofun⟩, 0, rfl, Nat.le_refl _⟩
  | tail _ step ih => exact ih.step step

/-- On the way through terminated tokens the reader finds what it needs if there are five frames for
each pair of parentheses around the same token, and five more. -/
theorem placed {c : Cursor} (h : OnTheWay tokens c) (terminated : Terminated tokens) :
    c.Placed (5 * nesting 0 tokens + 5) := by
  obtain ⟨⟨row, rfl, others⟩, depth, frames, below⟩ := h
  have rest := terminated.of_append others
  refine ⟨rest.ne_nil, ?_, ?_⟩
  · rintro - t more whole identifier
    rw [whole] at rest
    cases rest with
    | ending kind =>
        rw [identifier] at kind
        cases kind
    | cons _ tail => exact tail.ne_nil
  · have := le_nesting depth c.left
    have := c.point.level_le
    omega

end OnTheWay

end Cursor

/-- Reading a grammar comes to an end. -/
theorem settles_grammar {frames : Nat} {tokens : List Token} (terminated : Terminated tokens)
    (enough : 5 * nesting 0 tokens + 5 ≤ frames) : Settles (grammar frames tokens) := by
  refine settles_grammar_of_placed fun c reached ↦ ?_
  obtain ⟨left_ne_nil, lookahead, used_le⟩ := (Cursor.OnTheWay.of_reached reached).placed terminated
  exact ⟨left_ne_nil, lookahead, Nat.le_trans used_le enough⟩

end Peg.Notation
