import Peg.Proofs.Notation.Soundness

/-!
# What is derived is read

The tokens of a complete derivation are read as its image, however few or many tokens come after
them, unless the frames do not suffice.
-/

namespace Peg.Notation

open Except

/-- The result is the given one unless the frames do not suffice. -/
def ReadsAs {α : Type} (result : Except ReadError α) (a : α) : Prop :=
  result = .ok a ∨ result = .error .outOfFrames

namespace ReadsAs

variable {α β : Type}

/-- A success is read as what it gives. -/
theorem ok (a : α) : ReadsAs (.ok a) a := .inl rfl

/-- Running out of frames is read as anything. -/
theorem outOfFrames (a : α) : ReadsAs (.error .outOfFrames) a := .inr rfl

/-- Two steps are read one after the other. -/
theorem bind {x : Except ReadError α} {f : α → Except ReadError β} {a : α} {b : β}
    (first : ReadsAs x a) (second : ReadsAs (f a) b) : ReadsAs (x >>= f) b := by
  rcases first with rfl | rfl
  · exact second
  · exact outOfFrames b

end ReadsAs

/-! ## Single tokens -/

theorem takeOneOf_operator {operators : Text} (o : OperatorOf operators) (rest : List Token) :
    takeOneOf operators (o.val :: rest) = .ok (some o.val.text, rest) := by
  rw [takeOneOf, if_pos o.property]

theorem takeOneOf_of_ne {operators : Text} {t : Token} (h : t.isOneOf operators = false)
    (rest : List Token) : takeOneOf operators (t :: rest) = .ok (none, t :: rest) := by
  rw [takeOneOf, if_neg (by rw [h]; exact Bool.false_ne_true)]

theorem takeOneOf_of_itemComplete {tokens : List Token} (h : ItemComplete tokens) :
    takeOneOf "?*+" tokens = .ok (none, tokens) := by
  cases tokens with
  | nil => exact h.elim
  | cons t rest => exact takeOneOf_of_ne h.2 rest

theorem takeOneOf_of_expressionComplete {tokens : List Token} (h : ExpressionComplete tokens) :
    takeOneOf "/" tokens = .ok (none, tokens) := by
  cases tokens with
  | nil => exact h.elim
  | cons t rest => exact takeOneOf_of_ne h.2 rest

theorem expectClose_closing (closing : OperatorOf ")") (rest : List Token) :
    expectClose (closing.val :: rest) = .ok ((), rest) := by
  rw [expectClose, if_pos closing.property]

/-- A token of the kind that comes next is taken. -/
theorem expect_token {kind : TokenKind} (t : TokenOf kind) (flaw : Flaw) (rest : List Token) :
    expect kind flaw (t.val :: rest) = .ok (t.val, rest) := by
  rw [expect, if_pos t.property]

/-- An operator that is the only one of its group. -/
theorem OperatorOf.text_eq {operators : Text} (o : OperatorOf operators) (c : CodePoint)
    (only : operators = [c]) : o.val.text = operators := by
  obtain ⟨-, d, mem, text⟩ := Token.isOneOf_iff.mp o.property
  rw [only] at mem
  rw [text, only, List.mem_singleton.mp mem]

/-! ## Expressions -/

def ExpressionTree.first : ExpressionTree → SequenceTree
  | .last s => s
  | .more s _ _ => s

def ExpressionTree.afterFirst : ExpressionTree → List Token
  | .last _ => []
  | .more _ slash e => slash.val :: e.tokens

def ExpressionTree.otherAlternatives : ExpressionTree → Except ReadError (List Rule)
  | .last _ => .ok []
  | .more _ _ e => e.alternatives

theorem ExpressionTree.tokens_eq (e : ExpressionTree) :
    e.tokens = e.first.tokens ++ e.afterFirst := by
  cases e with
  | last s => exact (List.append_nil _).symm
  | more s slash e => rfl

/-- The rules of the sequences are that of the first one and those of the others. -/
theorem ExpressionTree.alternatives_eq_ok {e : ExpressionTree} {rs : List Rule}
    (h : e.alternatives = .ok rs) :
    ∃ r others, e.first.rule = .ok r ∧ e.otherAlternatives = .ok others ∧ rs = r :: others := by
  cases e with
  | last s =>
      obtain ⟨items, images, same⟩ := bind_eq_ok_iff.mp h
      cases same
      exact ⟨_, _, by rw [ExpressionTree.first, SequenceTree.rule, images]; rfl, rfl, rfl⟩
  | more s slash e =>
      obtain ⟨items, images, tail⟩ := bind_eq_ok_iff.mp h
      obtain ⟨others, images', same⟩ := bind_eq_ok_iff.mp tail
      cases same
      exact ⟨_, _, by rw [ExpressionTree.first, SequenceTree.rule, images]; rfl, images', rfl⟩

theorem ExpressionTree.sequenceComplete_afterFirst (e : ExpressionTree) {rest : List Token}
    (h : ExpressionComplete rest) : SequenceComplete (e.afterFirst ++ rest) := by
  cases e with
  | last s => exact h.sequenceComplete
  | more s slash e => exact sequenceComplete_slash slash _

/-- An item has a token. -/
theorem ItemTree.length_tokens_pos (i : ItemTree) : 0 < i.tokens.length := by
  cases i with
  | plain s =>
      obtain ⟨t, more, head, -⟩ := s.exists_head
      rw [ItemTree.tokens, head]
      exact Nat.succ_pos _
  | lookahead operator s => exact Nat.succ_pos _

mutual

/-- The tokens of an expression are read as its image. -/
theorem ExpressionTree.readsAs (e : ExpressionTree) {r : Rule} (image : e.rule = .ok r)
    {rest : List Token} (complete : ExpressionComplete rest) :
    ∀ frames, ReadsAs (expression frames (e.tokens ++ rest)) (r, rest)
  | 0 => .outOfFrames _
  | frames + 1 => by
      obtain ⟨rs, images, same⟩ := bind_eq_ok_iff.mp image
      obtain ⟨r', others, image', images', rfl⟩ := e.alternatives_eq_ok images
      rw [expression, e.tokens_eq, List.append_assoc]
      refine .bind (e.readsAs_first image' (e.sequenceComplete_afterFirst complete) frames) ?_
      refine .bind (e.readsAs_others images' complete frames ?_) ?_
      · cases rest with
        | nil => exact complete.elim
        | cons t rest => simp
      · rw [← Except.ok.inj same]
        exact .ok _

theorem ExpressionTree.readsAs_first : ∀ (e : ExpressionTree) {r : Rule}, e.first.rule = .ok r →
    ∀ {rest : List Token}, SequenceComplete rest →
      ∀ frames, ReadsAs (sequence frames (e.first.tokens ++ rest)) (r, rest)
  | .last s, _, image, _, complete, frames => s.readsAs image complete frames
  | .more s _ _, _, image, _, complete, frames => s.readsAs image complete frames

/-- The tokens of the other sequences of an expression are read as their images. -/
theorem ExpressionTree.readsAs_others : ∀ (e : ExpressionTree) {rs : List Rule},
    e.otherAlternatives = .ok rs → ∀ {rest : List Token}, ExpressionComplete rest →
      ∀ frames {count : Nat}, e.afterFirst.length < count →
        ReadsAs (alternativesWith (sequence frames) count (e.afterFirst ++ rest)) (rs, rest)
  | .last s, rs, images, rest, complete, frames, count + 1, enough => by
      cases images
      rw [ExpressionTree.afterFirst, List.nil_append, alternativesWith,
        takeOneOf_of_expressionComplete complete]
      exact .ok _
  | .more s slash e, rs, images, rest, complete, frames, count + 1, enough => by
      obtain ⟨r, others, image, images', rfl⟩ := e.alternatives_eq_ok images
      rw [ExpressionTree.afterFirst, List.cons_append, alternativesWith, takeOneOf_operator,
        e.tokens_eq, List.append_assoc, ok_bind]
      refine .bind (e.readsAs_first image (e.sequenceComplete_afterFirst complete) frames) ?_
      refine .bind (e.readsAs_others images' complete frames ?_) (.ok _)
      rw [ExpressionTree.afterFirst, e.tokens_eq, List.length_cons, List.length_append] at enough
      omega

/-- The tokens of a sequence are read as its image. -/
theorem SequenceTree.readsAs (s : SequenceTree) {r : Rule} (image : s.rule = .ok r)
    {rest : List Token} (complete : SequenceComplete rest) :
    ∀ frames, ReadsAs (sequence frames (s.tokens ++ rest)) (r, rest)
  | 0 => .outOfFrames _
  | frames + 1 => by
      obtain ⟨rs, images, same⟩ := bind_eq_ok_iff.mp image
      rw [sequence]
      refine .bind (s.readsAs_items images complete frames ?_) ?_
      · cases rest with
        | nil => cases complete
        | cons t rest => simp
      · rw [← Except.ok.inj same]
        exact .ok _

/-- The tokens of a sequence are read as the images of its items. -/
theorem SequenceTree.readsAs_items : ∀ (s : SequenceTree) {rs : List Rule}, s.items = .ok rs →
    ∀ {rest : List Token}, SequenceComplete rest → ∀ frames {count : Nat}, s.tokens.length < count →
      ReadsAs (itemsWith (item frames) count (s.tokens ++ rest)) (rs, rest)
  | .empty, rs, images, rest, complete, frames, count + 1, enough => by
      cases images
      rw [SequenceTree.tokens, List.nil_append, itemsWith, complete]
      exact .ok _
  | .more i s, rs, images, rest, complete, frames, count + 1, enough => by
      obtain ⟨r, image, tail⟩ := bind_eq_ok_iff.mp images
      obtain ⟨rs', images', same⟩ := bind_eq_ok_iff.mp tail
      cases same
      have next : ItemComplete (s.tokens ++ rest) := s.itemComplete complete
      rw [SequenceTree.tokens, List.append_assoc, itemsWith, (i.itemBegins next).goesOn,
        ok_bind, if_neg nofun]
      refine .bind (i.readsAs image next frames) ?_
      refine .bind (s.readsAs_items images' complete frames ?_) (.ok _)
      have := i.length_tokens_pos
      rw [SequenceTree.tokens, List.length_append] at enough
      omega

/-- The tokens of an item are read as its image. -/
theorem ItemTree.readsAs : ∀ (i : ItemTree) {r : Rule}, i.rule = .ok r →
    ∀ {rest : List Token}, ItemComplete rest →
      ∀ frames, ReadsAs (item frames (i.tokens ++ rest)) (r, rest)
  | _, _, _, _, _, 0 => .outOfFrames _
  | .plain s, r, image, rest, complete, frames + 1 => by
      obtain ⟨t, more, head, other⟩ := s.exists_head
      have taken : takeOneOf "&!" (s.tokens ++ rest) = .ok (none, s.tokens ++ rest) := by
        rw [head]
        exact takeOneOf_of_ne other _
      rw [ItemTree.tokens, item, taken]
      exact s.readsAs image complete frames
  | .lookahead operator s, r, image, rest, complete, frames + 1 => by
      obtain ⟨r', image', same⟩ := bind_eq_ok_iff.mp image
      cases same
      rw [ItemTree.tokens, List.cons_append, item, takeOneOf_operator, ok_bind]
      exact .bind (s.readsAs image' complete frames) (.ok _)

/-- The tokens of a suffixed primary are read as its image. -/
theorem SuffixedTree.readsAs : ∀ (s : SuffixedTree) {r : Rule}, s.rule = .ok r →
    ∀ {rest : List Token}, ItemComplete rest →
      ∀ frames, ReadsAs (suffixed frames (s.tokens ++ rest)) (r, rest)
  | _, _, _, _, _, 0 => .outOfFrames _
  | .plain p, r, image, rest, complete, frames + 1 => by
      rw [SuffixedTree.tokens, suffixed]
      refine .bind (p.readsAs image rest frames) ?_
      exact .bind (.inl (takeOneOf_of_itemComplete complete)) (.ok _)
  | .repeated p operator, r, image, rest, complete, frames + 1 => by
      obtain ⟨r', image', same⟩ := bind_eq_ok_iff.mp image
      cases same
      rw [SuffixedTree.tokens, List.append_assoc, suffixed]
      refine .bind (p.readsAs image' _ frames) ?_
      exact .bind (.inl (takeOneOf_operator operator rest)) (.ok _)

/-- The tokens of a primary are read as its image. -/
theorem PrimaryTree.readsAs : ∀ (p : PrimaryTree) {r : Rule}, p.rule = .ok r →
    ∀ (rest : List Token) frames, ReadsAs (primary frames (p.tokens ++ rest)) (r, rest)
  | _, _, _, _, 0 => .outOfFrames _
  | .reference name, r, image, rest, frames + 1 => by
      cases image
      rw [PrimaryTree.tokens, List.singleton_append, primary, name.property]
      exact .ok _
  | .literal t, r, image, rest, frames + 1 => by
      rw [PrimaryTree.tokens, List.singleton_append, primary, t.property]
      rw [PrimaryTree.rule] at image
      simp only [image]
      exact .ok _
  | .charClass t, r, image, rest, frames + 1 => by
      rw [PrimaryTree.tokens, List.singleton_append, primary, t.property]
      rw [PrimaryTree.rule] at image
      simp only [image]
      exact .ok _
  | .anyChar dot, r, image, rest, frames + 1 => by
      cases image
      rw [PrimaryTree.tokens, List.singleton_append, primary, Token.kind_of_isOneOf dot.property]
      simp only
      rw [if_pos (dot.text_eq '.' rfl)]
      exact .ok _
  | .group opening e closing, r, image, rest, frames + 1 => by
      have text : opening.val.text = "(" := opening.text_eq '(' rfl
      have other : opening.val.text ≠ "." := by
        rw [text]
        simp [Text.ofString]
      rw [PrimaryTree.tokens_group_append, primary, Token.kind_of_isOneOf opening.property]
      simp only
      rw [if_neg other, if_pos text]
      refine .bind (e.readsAs image (expressionComplete_closing closing rest) frames) ?_
      rw [expectClose_closing]
      exact .ok _

end

/-! ## Grammars -/

/-- The tokens of a rule are read as its name and the image of its body if the name is new. -/
theorem RuleTree.readsAs (r : RuleTree) {entry : Text × Rule} (image : r.entry = .ok entry)
    {rest : List Token} (complete : ExpressionComplete rest) {seen : List Text}
    (new : r.name.val.text ∉ seen) (frames : Nat) :
    ReadsAs (ruleWith (expression frames) seen (r.tokens ++ rest)) (entry, rest) := by
  obtain ⟨body, image', rfl⟩ := r.exists_body image
  refine .bind (.inl (expect_token r.name _ _)) ?_
  refine .bind (.inl (expect_token r.arrow _ _)) ?_
  refine .bind (r.body.readsAs image' complete frames) ?_
  dsimp only
  rw [if_neg new]
  exact .ok _

theorem readsAs_rulesWith (ending : TokenOf .ending) (rest : List Token) (frames : Nat) :
    ∀ {rules : List RuleTree} {entries : List (Text × Rule)},
      rules.mapM RuleTree.entry = .ok entries → ∀ {seen : List Text}, New seen rules →
        ∀ {count : Nat}, rules.length < count →
          ReadsAs (rulesWith (expression frames) count seen
            (rules.flatMap RuleTree.tokens ++ ending.val :: rest)) (entries, ending.val :: rest)
  | [], entries, images, seen, new, count + 1, enough => by
      cases images
      rw [List.flatMap_nil, List.nil_append, rulesWith, if_pos ending.property]
      exact .ok _
  | r :: rules, entries, images, seen, new, count + 1, enough => by
      rw [List.mapM_cons] at images
      obtain ⟨entry, image, tail⟩ := bind_eq_ok_iff.mp images
      obtain ⟨entries', images', same⟩ := bind_eq_ok_iff.mp tail
      cases same
      obtain ⟨unseen, others⟩ := new_cons_iff.mp new
      obtain ⟨body, -, rfl⟩ := r.exists_body image
      have goesOn : ¬ r.name.val.kind = .ending := r.name.kind_ne (by simp)
      rw [List.flatMap_cons, List.append_assoc]
      show ReadsAs (rulesWith _ _ _ (r.name.val :: _)) _
      rw [rulesWith, if_neg goesOn]
      have complete := expressionComplete_rules rules ending rest
      refine .bind (r.readsAs image complete unseen frames) ?_
      exact .bind (readsAs_rulesWith ending rest frames images' others
        (Nat.lt_of_succ_lt_succ enough)) (.ok _)

/-- A row of rules has as many tokens as rules, or more. -/
theorem RuleTree.length_le_length_tokens (rules : List RuleTree) :
    rules.length ≤ (rules.flatMap RuleTree.tokens).length := by
  induction rules with
  | nil => exact Nat.le_refl _
  | cons r rules ih =>
      rw [List.flatMap_cons, List.length_append, List.length_cons, RuleTree.tokens,
        List.length_cons]
      omega

/-- The tokens of a grammar of different rules are read as its table. -/
theorem GrammarTree.readsAs (g : GrammarTree) {table : List (Text × Rule)}
    (image : g.table = .ok table) (different : g.names.Nodup) (ending : TokenOf .ending)
    (rest : List Token) (frames : Nat) :
    ReadsAs (grammar frames (g.tokens ++ ending.val :: rest)) (table, ending.val :: rest) := by
  have enough : g.rules.length < (g.tokens ++ ending.val :: rest).length := by
    have := RuleTree.length_le_length_tokens g.rules
    rw [List.length_append, List.length_cons]
    exact Nat.lt_of_le_of_lt this (by rw [GrammarTree.tokens]; omega)
  refine .bind (readsAs_rulesWith ending rest frames image (.of_nodup different) enough) ?_
  obtain ⟨rules, rules_ne_nil⟩ := g
  cases rules with
  | nil => exact (rules_ne_nil rfl).elim
  | cons r rules =>
      rw [GrammarTree.table, List.mapM_cons] at image
      obtain ⟨entry, -, tail⟩ := bind_eq_ok_iff.mp image
      obtain ⟨entries, -, same⟩ := bind_eq_ok_iff.mp tail
      cases same
      exact .ok _

end Peg.Notation
