import Peg.Proofs.Notation.Derivation
import Peg.Proofs.Result

/-!
# What is read is derived

Whatever a reader takes off the tokens is the row of tokens of a derivation, and what it gives is
the image of that derivation.
-/

namespace Peg.Notation

open Except

/-- The reader takes the tokens of a tree off its input and gives the image of that tree. -/
def ReadsTrees {T α : Type} (tokens : T → List Token) (image : T → Except ReadError α)
    (read : Reader α) : Prop :=
  ∀ ⦃input : List Token⦄ ⦃a : α⦄ ⦃rest : List Token⦄, read input = .ok (a, rest) →
    ∃ tree, input = tokens tree ++ rest ∧ image tree = .ok a

/-! ## Single tokens -/

/-- An operator is taken if it comes next, and nothing otherwise. -/
theorem takeOneOf_eq_ok {operators : Text} {input rest : List Token} {found : Option Text}
    (h : takeOneOf operators input = .ok (found, rest)) :
    (found = none ∧ input = rest) ∨
      ∃ o : OperatorOf operators, found = some o.val.text ∧ input = o.val :: rest := by
  cases input with
  | nil => cases h
  | cons t more =>
      rw [takeOneOf] at h
      split at h
      next operator =>
        cases h
        exact .inr ⟨⟨t, operator⟩, rfl, rfl⟩
      next =>
        cases h
        exact .inl ⟨rfl, rfl⟩

theorem expectClose_eq_ok {input rest : List Token} (h : expectClose input = .ok ((), rest)) :
    ∃ closing : OperatorOf ")", input = closing.val :: rest := by
  cases input with
  | nil => cases h
  | cons t more =>
      rw [expectClose] at h
      split at h
      next closing =>
        cases h
        exact ⟨⟨t, closing⟩, rfl⟩
      next => cases h

/-- A token of a kind is taken if it comes next. -/
theorem expect_eq_ok {kind : TokenKind} {flaw : Flaw} {input rest : List Token} {t : Token}
    (h : expect kind flaw input = .ok (t, rest)) : t.kind = kind ∧ input = t :: rest := by
  cases input with
  | nil => cases h
  | cons t' more =>
      rw [expect] at h
      split at h
      next same =>
        cases h
        exact ⟨same, rfl⟩
      next => cases h

/-! ## Expressions -/

theorem readsTrees_itemsWith {item : Reader Rule}
    (h : ReadsTrees ItemTree.tokens ItemTree.rule item) (count : Nat) :
    ReadsTrees SequenceTree.tokens SequenceTree.items (itemsWith item count) := by
  induction count with
  | zero =>
      intro input rs rest read
      cases read
  | succ count ih =>
      intro input rs rest read
      rw [itemsWith] at read
      obtain ⟨ends, -, read⟩ := bind_eq_ok_iff.mp read
      split at read
      next =>
        cases read
        exact ⟨.empty, rfl, rfl⟩
      next =>
        obtain ⟨⟨r, left⟩, first, read⟩ := bind_eq_ok_iff.mp read
        obtain ⟨⟨rs', left'⟩, others, read⟩ := bind_eq_ok_iff.mp read
        cases read
        obtain ⟨i, rfl, image⟩ := h first
        obtain ⟨s, rfl, images⟩ := ih others
        refine ⟨.more i s, ?_, ?_⟩
        · rw [SequenceTree.tokens, List.append_assoc]
        · rw [SequenceTree.items, image, images]
          rfl

/-- Sequences behind slashes are read if sequences are: they complete any expression that begins
with a sequence. -/
theorem exists_tree_of_alternativesWith {sequence : Reader Rule}
    (h : ReadsTrees SequenceTree.tokens SequenceTree.rule sequence) {count : Nat}
    {input rest : List Token} {rs : List Rule}
    (read : alternativesWith sequence count input = .ok (rs, rest))
    {s : SequenceTree} {r : Rule} (image : s.rule = .ok r) :
    ∃ e : ExpressionTree,
      s.tokens ++ input = e.tokens ++ rest ∧ e.alternatives = .ok (r :: rs) := by
  induction count generalizing input rs s r with
  | zero => cases read
  | succ count ih =>
      rw [alternativesWith] at read
      obtain ⟨⟨found, left⟩, taken, tail⟩ := bind_eq_ok_iff.mp read
      obtain ⟨items, images, rfl⟩ :
          ∃ items, s.items = .ok items ∧ combined .sequence items = r := by
        obtain ⟨items, images, same⟩ := bind_eq_ok_iff.mp image
        exact ⟨items, images, Except.ok.inj same⟩
      obtain ⟨rfl, rfl⟩ | ⟨slash, rfl, rfl⟩ := takeOneOf_eq_ok taken
      · cases tail
        exact ⟨.last s, rfl, by rw [ExpressionTree.alternatives, images]; rfl⟩
      · obtain ⟨⟨r', left'⟩, second, tail'⟩ := bind_eq_ok_iff.mp tail
        obtain ⟨⟨rs', left''⟩, others, last⟩ := bind_eq_ok_iff.mp tail'
        cases last
        obtain ⟨s', rfl, image'⟩ := h second
        obtain ⟨e, whole, images'⟩ := ih others image'
        refine ⟨.more s slash e, ?_, ?_⟩
        · rw [ExpressionTree.tokens, List.append_assoc, List.cons_append, whole]
        · rw [ExpressionTree.alternatives, images, images']
          rfl

theorem readsTrees_expression {frames : Nat}
    (h : ReadsTrees SequenceTree.tokens SequenceTree.rule (sequence frames)) :
    ReadsTrees ExpressionTree.tokens ExpressionTree.rule (expression (frames + 1)) := by
  intro input r rest read
  rw [expression] at read
  obtain ⟨⟨first, left⟩, begins, read⟩ := bind_eq_ok_iff.mp read
  obtain ⟨⟨others, left'⟩, more, read⟩ := bind_eq_ok_iff.mp read
  cases read
  obtain ⟨s, rfl, image⟩ := h begins
  obtain ⟨e, whole, images⟩ := exists_tree_of_alternativesWith h more image
  exact ⟨e, whole, by rw [ExpressionTree.rule, images]; rfl⟩

theorem readsTrees_sequence {frames : Nat}
    (h : ReadsTrees ItemTree.tokens ItemTree.rule (item frames)) :
    ReadsTrees SequenceTree.tokens SequenceTree.rule (sequence (frames + 1)) := by
  intro input r rest read
  rw [sequence] at read
  obtain ⟨⟨items, left⟩, all, read⟩ := bind_eq_ok_iff.mp read
  cases read
  obtain ⟨s, rfl, images⟩ := readsTrees_itemsWith h _ all
  exact ⟨s, rfl, by rw [SequenceTree.rule, images]; rfl⟩

theorem readsTrees_item {frames : Nat}
    (h : ReadsTrees SuffixedTree.tokens SuffixedTree.rule (suffixed frames)) :
    ReadsTrees ItemTree.tokens ItemTree.rule (item (frames + 1)) := by
  intro input r rest read
  rw [item] at read
  obtain ⟨⟨found, left⟩, taken, tail⟩ := bind_eq_ok_iff.mp read
  obtain ⟨rfl, rfl⟩ | ⟨operator, rfl, rfl⟩ := takeOneOf_eq_ok taken
  · obtain ⟨s, rfl, image⟩ := h tail
    exact ⟨.plain s, rfl, image⟩
  · obtain ⟨⟨r', left'⟩, inner, last⟩ := bind_eq_ok_iff.mp tail
    cases last
    obtain ⟨s, rfl, image⟩ := h inner
    exact ⟨.lookahead operator s, rfl, by rw [ItemTree.rule, image]; rfl⟩

theorem readsTrees_suffixed {frames : Nat}
    (h : ReadsTrees PrimaryTree.tokens PrimaryTree.rule (primary frames)) :
    ReadsTrees SuffixedTree.tokens SuffixedTree.rule (suffixed (frames + 1)) := by
  intro input r rest read
  rw [suffixed] at read
  obtain ⟨⟨r', left⟩, inner, tail⟩ := bind_eq_ok_iff.mp read
  obtain ⟨⟨found, left'⟩, taken, last⟩ := bind_eq_ok_iff.mp tail
  obtain ⟨p, rfl, image⟩ := h inner
  obtain ⟨rfl, rfl⟩ | ⟨operator, rfl, rfl⟩ := takeOneOf_eq_ok taken
  · cases last
    exact ⟨.plain p, rfl, image⟩
  · cases last
    refine ⟨.repeated p operator, ?_, ?_⟩
    · rw [SuffixedTree.tokens, List.append_assoc]
      rfl
    · rw [SuffixedTree.rule, image]
      rfl

theorem readsTrees_primary {frames : Nat}
    (h : ReadsTrees ExpressionTree.tokens ExpressionTree.rule (expression frames)) :
    ReadsTrees PrimaryTree.tokens PrimaryTree.rule (primary (frames + 1)) := by
  intro input r rest read
  cases input with
  | nil => cases read
  | cons t more =>
      rw [primary] at read
      split at read
      next kind =>
        cases read
        exact ⟨.reference ⟨t, kind⟩, rfl, rfl⟩
      next kind =>
        obtain ⟨r', image, read⟩ := bind_eq_ok_iff.mp read
        cases read
        exact ⟨.literal ⟨t, kind⟩, rfl, image⟩
      next kind =>
        obtain ⟨r', image, read⟩ := bind_eq_ok_iff.mp read
        cases read
        exact ⟨.charClass ⟨t, kind⟩, rfl, image⟩
      next kind =>
        split at read
        next dot =>
          cases read
          exact ⟨.anyChar ⟨t, Token.isOneOf_iff.mpr ⟨kind, '.', by simp [Text.ofString], dot⟩⟩,
            rfl, rfl⟩
        next =>
          split at read
          next opening =>
            obtain ⟨⟨r', left⟩, inner, read⟩ := bind_eq_ok_iff.mp read
            obtain ⟨⟨⟨⟩, left'⟩, close, read⟩ := bind_eq_ok_iff.mp read
            cases read
            obtain ⟨e, rfl, image⟩ := h inner
            obtain ⟨closing, rfl⟩ := expectClose_eq_ok close
            refine ⟨.group ⟨t, Token.isOneOf_iff.mpr ⟨kind, '(', by simp [Text.ofString], opening⟩⟩
              e closing, ?_, image⟩
            rw [PrimaryTree.tokens_group_append]
          next => cases read
      next => cases read
      next => cases read

/-- All readers of parts of rules read trees, whatever the number of frames. -/
theorem readsTrees_all (frames : Nat) :
    ReadsTrees ExpressionTree.tokens ExpressionTree.rule (expression frames) ∧
    ReadsTrees SequenceTree.tokens SequenceTree.rule (sequence frames) ∧
    ReadsTrees ItemTree.tokens ItemTree.rule (item frames) ∧
    ReadsTrees SuffixedTree.tokens SuffixedTree.rule (suffixed frames) ∧
    ReadsTrees PrimaryTree.tokens PrimaryTree.rule (primary frames) := by
  induction frames with
  | zero =>
      refine ⟨?_, ?_, ?_, ?_, ?_⟩
      all_goals
        intro input r rest read
        cases read
  | succ frames ih =>
      obtain ⟨expression, sequence, item, suffixed, primary⟩ := ih
      exact ⟨readsTrees_expression sequence, readsTrees_sequence item, readsTrees_item suffixed,
        readsTrees_suffixed primary, readsTrees_primary expression⟩

/-! ## Grammars -/

/-- What a rule gives is its name and the image of its body. -/
theorem RuleTree.exists_body {r : RuleTree} {entry : Text × Rule} (h : r.entry = .ok entry) :
    ∃ body, r.body.rule = .ok body ∧ entry = (r.name.val.text, body) := by
  obtain ⟨body, image, same⟩ := bind_eq_ok_iff.mp h
  exact ⟨body, image, (Except.ok.inj same).symm⟩

/-- The names in a table are those of the rules that it is the image of. -/
theorem RuleTree.names_eq {rules : List RuleTree} {table : List (Text × Rule)}
    (images : rules.mapM RuleTree.entry = .ok table) :
    rules.map (·.name.val.text) = table.map Prod.fst := by
  have entries := mapM_eq_ok_iff.mp images
  clear images
  induction entries with
  | nil => rfl
  | cons image _ ih =>
      obtain ⟨body, -, rfl⟩ := RuleTree.exists_body image
      rw [List.map_cons, List.map_cons, ih]

/-- One rule is read if expressions are, and its name is new. -/
theorem exists_tree_of_ruleWith {body : Reader Rule}
    (h : ReadsTrees ExpressionTree.tokens ExpressionTree.rule body) {seen : List Text}
    {input rest : List Token} {entry : Text × Rule}
    (read : ruleWith body seen input = .ok (entry, rest)) :
    ∃ r : RuleTree, input = r.tokens ++ rest ∧ r.entry = .ok entry ∧ r.name.val.text ∉ seen := by
  rw [ruleWith] at read
  obtain ⟨⟨head, left⟩, name, read⟩ := bind_eq_ok_iff.mp read
  obtain ⟨⟨arrow, left'⟩, arrowTaken, read⟩ := bind_eq_ok_iff.mp read
  obtain ⟨⟨r, left''⟩, inner, read⟩ := bind_eq_ok_iff.mp read
  dsimp only at read
  by_cases old : head.text ∈ seen
  · rw [if_pos old] at read
    cases read
  · rw [if_neg old] at read
    cases read
    obtain ⟨identifier, rfl⟩ := expect_eq_ok name
    obtain ⟨kind, rfl⟩ := expect_eq_ok arrowTaken
    obtain ⟨e, rfl, image⟩ := h inner
    refine ⟨⟨⟨head, identifier⟩, ⟨arrow, kind⟩, e⟩, rfl, ?_, old⟩
    rw [RuleTree.entry, image]
    rfl

/-- Rules up to the ending are read if expressions are, and their names are new and different. -/
theorem exists_trees_of_rulesWith {body : Reader Rule}
    (h : ReadsTrees ExpressionTree.tokens ExpressionTree.rule body) {count : Nat}
    {seen : List Text} {input rest : List Token} {entries : List (Text × Rule)}
    (read : rulesWith body count seen input = .ok (entries, rest)) :
    ∃ rules : List RuleTree, ∃ ending : TokenOf .ending, ∃ more, rest = ending.val :: more ∧
      input = rules.flatMap RuleTree.tokens ++ rest ∧ rules.mapM RuleTree.entry = .ok entries ∧
      New seen rules := by
  induction count generalizing seen input entries with
  | zero => cases read
  | succ count ih =>
      cases input with
      | nil => cases read
      | cons t more =>
          rw [rulesWith] at read
          split at read
          next ending =>
            cases read
            exact ⟨[], ⟨t, ending⟩, more, rfl, rfl, rfl, .nil seen⟩
          next =>
            obtain ⟨⟨entry, left⟩, first, read⟩ := bind_eq_ok_iff.mp read
            obtain ⟨⟨entries', left'⟩, others, read⟩ := bind_eq_ok_iff.mp read
            cases read
            obtain ⟨r, whole, image, unseen⟩ := exists_tree_of_ruleWith h first
            obtain ⟨body, -, rfl⟩ := r.exists_body image
            obtain ⟨rules, ending, more, rfl, rfl, images, new⟩ := ih others
            refine ⟨r :: rules, ending, more, rfl, ?_, ?_, new_cons_iff.mpr ⟨unseen, new⟩⟩
            · rw [whole, List.flatMap_cons, List.append_assoc]
            · rw [List.mapM_cons, image, images]
              rfl

/-- What is read as a grammar is derived from it, and the names of its rules are different. -/
theorem exists_tree_of_grammar {frames : Nat} {input rest : List Token}
    {table : List (Text × Rule)} (read : grammar frames input = .ok (table, rest)) :
    ∃ g : GrammarTree, ∃ ending : TokenOf .ending, ∃ more, rest = ending.val :: more ∧
      input = g.tokens ++ rest ∧ g.table = .ok table ∧ g.names.Nodup := by
  obtain ⟨⟨entries, left⟩, all, read⟩ := bind_eq_ok_iff.mp read
  obtain ⟨rules, ending, more, rfl, rfl, images, new⟩ :=
    exists_trees_of_rulesWith (readsTrees_all frames).1 all
  cases entries with
  | nil => cases read
  | cons entry entries =>
      cases read
      have rules_ne_nil : rules ≠ [] := by
        rintro rfl
        cases images
      exact ⟨⟨rules, rules_ne_nil⟩, ending, more, rfl, rfl, images, new.nodup⟩

end Peg.Notation
