import Peg.Proofs.Notation.Progress
import Peg.Proofs.Notation.Unambiguous

/-!
# The reader and the grammar of the notation

The tokens of a source are read as a table of rules exactly if they have a derivation whose rules
have different names. That derivation is the only one, and the table is its image.
-/

namespace Peg.Notation

open Except

/-! ## Tokens of a source -/

/-- What holds of the ending alone, and of a lexeme and other tokens whenever it holds of these,
holds of the tokens of every source. -/
theorem tokensFrom_induction {motive : List Token → Prop}
    (ending : ∀ offset, motive [⟨.ending, [], offset⟩])
    (token : ∀ {c rest l kind} offset {tokens}, Lexeme.first c rest = .ok l → l.kind = some kind →
      motive tokens → motive (⟨kind, l.text, offset⟩ :: tokens))
    {skip offset : Nat} {src : Text} {tokens : List Token}
    (h : tokensFrom skip offset src = .ok tokens) : motive tokens := by
  induction src generalizing skip offset tokens with
  | nil =>
      rw [tokensFrom_nil] at h
      cases h
      exact ending offset
  | cons c rest ih =>
      cases skip with
      | succ skip =>
          rw [tokensFrom] at h
          exact ih h
      | zero =>
          rw [tokensFrom] at h
          cases first : Lexeme.first c rest with
          | error flaw =>
              rw [first] at h
              cases h
          | ok l =>
              rw [first] at h
              obtain ⟨others, tail, whole⟩ := bind_eq_ok_iff.mp h
              cases kind : l.kind with
              | none =>
                  rw [kind] at whole
                  cases whole
                  exact ih tail
              | some kind' =>
                  rw [kind] at whole
                  cases whole
                  exact token offset first kind (ih tail)

theorem Lexeme.kind_ne_ending {c : CodePoint} {rest : Text} {l : Lexeme}
    (h : Lexeme.first c rest = .ok l) : l.kind ≠ some .ending := by
  unfold Lexeme.first Lexeme.blockComment Lexeme.delimited at h
  repeat' split at h
  all_goals
    cases h
    try exact nofun

/-- The last token of a source is the only ending. -/
theorem terminated_of_tokenize {src : Text} {tokens : List Token}
    (h : tokenize src = .ok tokens) : Terminated tokens := by
  refine tokensFrom_induction (fun offset ↦ .ending rfl) ?_ h
  intro c rest l kind offset tokens first same tail
  refine .cons ?_ tail
  rintro rfl
  exact Lexeme.kind_ne_ending first same

/-! ## Escapes -/

/-- Every escape between the delimiters of the token means something. -/
def Token.ValidEscapes (t : Token) : Prop :=
  ∃ chars, spelledChars (t.offset + 1) t.body = .ok chars

theorem Token.ValidEscapes.exists_literalRule {t : Token} (h : t.ValidEscapes) :
    ∃ r, literalRule t = .ok r := by
  obtain ⟨chars, spelled⟩ := h
  exact ⟨_, by rw [literalRule, spelledIn, spelled]; rfl⟩

/-- A class with valid escapes has a rule. -/
theorem Token.ValidEscapes.exists_charClassRule {t : Token} (h : t.ValidEscapes) :
    ∃ r, charClassRule t = .ok r := by
  obtain ⟨chars, spelled⟩ := h
  rw [charClassRule]
  split
  next excludes =>
    -- the `^` is spelled by itself, and so what comes after it has valid escapes, too
    obtain ⟨more, whole⟩ : ∃ more, t.body = ('^' : CodePoint) :: more :=
      List.head?_eq_some_iff.mp excludes
    rw [whole, spelledChars_cons_of_ne (by simp)] at spelled
    obtain ⟨chars', spelled', -⟩ := bind_eq_ok_iff.mp spelled
    exact ⟨_, by rw [whole, List.drop_one, List.tail_cons, spelledIn, spelled']; rfl⟩
  next => exact ⟨_, by rw [spelledIn, spelled]; rfl⟩

/-- Every literal and every class among the tokens has valid escapes. -/
def ValidEscapes (tokens : List Token) : Prop :=
  ∀ t ∈ tokens, t.kind = .literal ∨ t.kind = .charClass → t.ValidEscapes

namespace ValidEscapes

/-- Of tokens after each other the first ones have valid escapes. -/
theorem left {row rest : List Token} (h : ValidEscapes (row ++ rest)) : ValidEscapes row :=
  fun t mem ↦ h t (List.mem_append_left rest mem)

/-- Of tokens after each other the last ones have valid escapes. -/
theorem right {row rest : List Token} (h : ValidEscapes (row ++ rest)) : ValidEscapes rest :=
  fun t mem ↦ h t (List.mem_append_right row mem)

/-- The tokens after the first one have valid escapes. -/
theorem tail {t : Token} {rest : List Token} (h : ValidEscapes (t :: rest)) : ValidEscapes rest :=
  fun t' mem ↦ h t' (List.mem_cons_of_mem t mem)

end ValidEscapes

mutual

theorem ExpressionTree.exists_alternatives :
    ∀ e : ExpressionTree, ValidEscapes e.tokens → ∃ rs, e.alternatives = .ok rs
  | .last s, valid => by
      obtain ⟨items, images⟩ := s.exists_items valid
      exact ⟨_, by rw [ExpressionTree.alternatives, images]; rfl⟩
  | .more s slash e, valid => by
      obtain ⟨items, images⟩ := s.exists_items valid.left
      obtain ⟨others, images'⟩ := e.exists_alternatives valid.right.tail
      exact ⟨_, by rw [ExpressionTree.alternatives, images, images']; rfl⟩

theorem SequenceTree.exists_items :
    ∀ s : SequenceTree, ValidEscapes s.tokens → ∃ rs, s.items = .ok rs
  | .empty, valid => ⟨[], rfl⟩
  | .more i s, valid => by
      obtain ⟨r, image⟩ := i.exists_rule valid.left
      obtain ⟨rs, images⟩ := s.exists_items valid.right
      exact ⟨_, by rw [SequenceTree.items, image, images]; rfl⟩

/-- A derivation of an item with valid escapes has an image. -/
theorem ItemTree.exists_rule : ∀ i : ItemTree, ValidEscapes i.tokens → ∃ r, i.rule = .ok r
  | .plain s, valid => s.exists_rule valid
  | .lookahead operator s, valid => by
      obtain ⟨r, image⟩ := s.exists_rule valid.tail
      exact ⟨_, by rw [ItemTree.rule, image]; rfl⟩

/-- A derivation of a suffixed primary with valid escapes has an image. -/
theorem SuffixedTree.exists_rule :
    ∀ s : SuffixedTree, ValidEscapes s.tokens → ∃ r, s.rule = .ok r
  | .plain p, valid => p.exists_rule valid
  | .repeated p operator, valid => by
      obtain ⟨r, image⟩ := p.exists_rule valid.left
      exact ⟨_, by rw [SuffixedTree.rule, image]; rfl⟩

/-- A derivation of a primary with valid escapes has an image. -/
theorem PrimaryTree.exists_rule :
    ∀ p : PrimaryTree, ValidEscapes p.tokens → ∃ r, p.rule = .ok r
  | .reference name, valid => ⟨_, rfl⟩
  | .literal t, valid =>
      (valid t.val List.mem_cons_self (.inl t.property)).exists_literalRule
  | .charClass t, valid =>
      (valid t.val List.mem_cons_self (.inr t.property)).exists_charClassRule
  | .anyChar dot, valid => ⟨_, rfl⟩
  | .group opening e closing, valid => by
      obtain ⟨rs, images⟩ := e.exists_alternatives valid.tail.left
      exact ⟨_, by rw [PrimaryTree.rule, images]; rfl⟩

end

/-- A derivation of rules with valid escapes has an image. -/
theorem RuleTree.exists_entries (rules : List RuleTree)
    (valid : ValidEscapes (rules.flatMap RuleTree.tokens)) :
    ∃ entries, rules.mapM RuleTree.entry = .ok entries := by
  induction rules with
  | nil => exact ⟨[], rfl⟩
  | cons r rules ih =>
      rw [List.flatMap_cons] at valid
      obtain ⟨rs, images⟩ := r.body.exists_alternatives valid.left.tail.tail
      obtain ⟨entries, images'⟩ := ih valid.right
      refine ⟨(r.name.val.text, combined .choice rs) :: entries, ?_⟩
      rw [List.mapM_cons, RuleTree.entry, ExpressionTree.rule, images, images']
      rfl

/-! ## Grammars -/

/-- The tokens are those of the derivation and the ending. -/
def GrammarTree.Derives (g : GrammarTree) (tokens : List Token) : Prop :=
  ∃ ending : TokenOf .ending, tokens = g.tokens ++ [ending.val]

/-- No tokens have two derivations. -/
theorem GrammarTree.Derives.unique {g g' : GrammarTree} {tokens : List Token}
    (h : g.Derives tokens) (h' : g'.Derives tokens) : g = g' := by
  obtain ⟨ending, rfl⟩ := h
  obtain ⟨ending', same⟩ := h'
  exact GrammarTree.eq_of_tokens_eq (List.append_inj_left' same rfl)

/-- A derivation of tokens with valid escapes has a table. -/
theorem GrammarTree.Derives.exists_table {g : GrammarTree} {tokens : List Token}
    (h : g.Derives tokens) (valid : ValidEscapes tokens) : ∃ table, g.table = .ok table := by
  obtain ⟨ending, rfl⟩ := h
  exact RuleTree.exists_entries g.rules valid.left

/-- What is read off terminated tokens is derived from them. -/
theorem exists_derivation_of_readRules {frames : Nat} {tokens : List Token}
    {table : List (Text × Rule)} (terminated : Terminated tokens)
    (read : readRules frames tokens = .ok table) :
    ∃ g : GrammarTree, g.Derives tokens ∧ g.names.Nodup ∧ g.table = .ok table := by
  obtain ⟨⟨table', rest⟩, all, same⟩ := bind_eq_ok_iff.mp read
  cases same
  obtain ⟨g, ending, more, rfl, rfl, image, different⟩ := exists_tree_of_grammar all
  have others : ∀ t ∈ g.tokens, t.kind ≠ .ending := by
    intro t mem
    obtain ⟨r, -, mem⟩ := List.mem_flatMap.mp mem
    exact r.balanced.ne_ending t mem
  rw [(terminated.of_append others).eq_nil ending.property]
  exact ⟨g, ⟨ending, rfl⟩, different, image⟩

/-- Derived tokens are read as the table of their derivation. -/
theorem GrammarTree.Derives.readRules_eq {g : GrammarTree} {tokens : List Token}
    (h : g.Derives tokens) (different : g.names.Nodup) {table : List (Text × Rule)}
    (image : g.table = .ok table) (frames : Nat) : ReadsAs (readRules frames tokens) table := by
  obtain ⟨ending, rfl⟩ := h
  exact .bind (g.readsAs image different ending [] frames) (.ok _)

/-- Reading terminated tokens comes to an end. -/
theorem settles_readRules {frames : Nat} {tokens : List Token} (terminated : Terminated tokens)
    (enough : 5 * nesting 0 tokens + 5 ≤ frames) : Settles (readRules frames tokens) :=
  (settles_grammar terminated enough).bind fun _ _ ↦ .ok _

/-- The tokens of a source whose literals and classes have valid escapes are read as a table of
rules if and only if they have a derivation whose rules have different names; that derivation is
the only one, and the table is its image. Otherwise the source has a flaw. Frames are enough if
there are five for each pair of parentheses around the same token, and five more; with fewer of them
only derived tables are read, too. -/
theorem readRules_iff_derivation {src : Text} {tokens : List Token}
    (tokenized : tokenize src = .ok tokens) (valid : ValidEscapes tokens) :
    (∀ g g' : GrammarTree, g.Derives tokens → g'.Derives tokens → g = g') ∧
    ∀ frames,
      (∀ table, readRules frames tokens = .ok table →
        ∃ g : GrammarTree, g.Derives tokens ∧ g.names.Nodup ∧ g.table = .ok table) ∧
      (5 * nesting 0 tokens + 5 ≤ frames →
        (∀ g : GrammarTree, g.Derives tokens → g.names.Nodup →
          ∃ table, g.table = .ok table ∧ readRules frames tokens = .ok table) ∧
        ((¬ ∃ g : GrammarTree, g.Derives tokens ∧ g.names.Nodup) →
          ∃ e, readRules frames tokens = .error (.flawed e))) := by
  have terminated : Terminated tokens := terminated_of_tokenize tokenized
  refine ⟨fun g g' h h' ↦ h.unique h', fun frames ↦ ⟨?_, fun enough ↦ ⟨?_, ?_⟩⟩⟩
  · intro table read
    exact exists_derivation_of_readRules terminated read
  · intro g derives different
    obtain ⟨table, image⟩ := derives.exists_table valid
    have settled := settles_readRules terminated enough
    refine ⟨table, image, ?_⟩
    exact (derives.readRules_eq different image frames).eq_ok settled.ne_outOfFrames
  · intro underivable
    cases result : readRules frames tokens with
    | ok table =>
        obtain ⟨g, derives, different, -⟩ := exists_derivation_of_readRules terminated result
        exact (underivable ⟨g, derives, different⟩).elim
    | error e =>
        have settled := settles_readRules terminated enough
        rw [result] at settled
        cases settled with
        | flawed e => exact ⟨e, rfl⟩

/-- A literal and a repeated group are read as the rule that their derivation stands for. -/
theorem readRules_literal_or_group :
    ∃ tokens, tokenize "a<-'\\n'/(a)*" = .ok tokens ∧ ValidEscapes tokens ∧
      ∃ (g : GrammarTree) (table : List (Text × Rule)), g.Derives tokens ∧ g.names.Nodup ∧
        g.table = .ok table ∧ readRules 10 tokens = .ok table := by
  have tokenizes : (tokenize "a<-'\\n'/(a)*").isOk = true := by decide +kernel
  have escapes : (tokenize "a<-'\\n'/(a)*").toOption.all
      (·.all fun t ↦ (spelledChars (t.offset + 1) t.body).isOk) = true := by decide +kernel
  have reads : (tokenize "a<-'\\n'/(a)*").toOption.all (readRules 10 · |>.isOk) = true := by
    decide +kernel
  obtain ⟨tokens, tokenized⟩ := exists_eq_ok tokenizes
  rw [tokenized] at escapes reads
  have valid : ValidEscapes tokens :=
    fun t mem _ ↦ exists_eq_ok (List.all_eq_true.mp escapes t mem)
  obtain ⟨table, read⟩ := exists_eq_ok reads
  obtain ⟨-, derivation⟩ := readRules_iff_derivation tokenized valid
  obtain ⟨g, derives, different, image⟩ := (derivation 10).1 table read
  exact ⟨tokens, tokenized, valid, g, table, derives, different, image, read⟩

end Peg.Notation
