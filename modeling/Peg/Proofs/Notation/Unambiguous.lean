import Peg.Proofs.Notation.Derivation

/-!
# The notation is unambiguous

Two derivations of the same tokens are the same derivation. More than that: among all tokens that
begin with those of a derivation, what comes after it is determined, as long as the derivation is
complete there.
-/

namespace Peg.Notation

mutual

/-- Tokens that begin with those of a complete expression begin with no other. -/
theorem ExpressionTree.tokens_append_inj : ∀ (e e' : ExpressionTree) {rest rest' : List Token},
    ExpressionComplete rest → ExpressionComplete rest' →
      e.tokens ++ rest = e'.tokens ++ rest' → e = e' ∧ rest = rest'
  | .last s, .last s', rest, rest', complete, complete', same => by
      obtain ⟨rfl, eq⟩ := s.tokens_append_inj s' complete.sequenceComplete
        complete'.sequenceComplete same
      exact ⟨rfl, eq⟩
  | .last s, .more s' slash e', rest, rest', complete, complete', same => by
      rw [ExpressionTree.tokens, ExpressionTree.tokens, List.append_assoc] at same
      obtain ⟨rfl, rfl⟩ := s.tokens_append_inj s' complete.sequenceComplete
        (sequenceComplete_slash slash _) same
      cases slash.property.symm.trans complete.2
  | .more s slash e, .last s', rest, rest', complete, complete', same => by
      rw [ExpressionTree.tokens, ExpressionTree.tokens, List.append_assoc] at same
      obtain ⟨rfl, rfl⟩ := s.tokens_append_inj s' (sequenceComplete_slash slash _)
        complete'.sequenceComplete same
      cases slash.property.symm.trans complete'.2
  | .more s slash e, .more s' slash' e', rest, rest', complete, complete', same => by
      rw [ExpressionTree.tokens, ExpressionTree.tokens, List.append_assoc,
        List.append_assoc] at same
      obtain ⟨rfl, eq⟩ := s.tokens_append_inj s' (sequenceComplete_slash slash _)
        (sequenceComplete_slash slash' _) same
      obtain ⟨sameSlash, eq⟩ := List.cons.inj eq
      obtain ⟨rfl, left⟩ := e.tokens_append_inj e' complete complete' eq
      exact ⟨by rw [Subtype.ext sameSlash], left⟩

/-- Tokens that begin with those of a complete sequence begin with no other. -/
theorem SequenceTree.tokens_append_inj : ∀ (s s' : SequenceTree) {rest rest' : List Token},
    SequenceComplete rest → SequenceComplete rest' →
      s.tokens ++ rest = s'.tokens ++ rest' → s = s' ∧ rest = rest'
  | .empty, .empty, rest, rest', complete, complete', same => ⟨rfl, same⟩
  | .empty, .more i s, rest, rest', complete, complete', same => by
      -- where the one sequence ends, the other one goes on
      have begins : ItemBegins (i.tokens ++ (s.tokens ++ rest')) :=
        i.itemBegins (s.itemComplete complete')
      rw [← List.append_assoc] at begins
      rw [show rest = (i.tokens ++ s.tokens) ++ rest' from same] at complete
      cases complete.symm.trans begins.goesOn
  | .more i s, .empty, rest, rest', complete, complete', same => by
      have begins : ItemBegins (i.tokens ++ (s.tokens ++ rest)) :=
        i.itemBegins (s.itemComplete complete)
      rw [← List.append_assoc] at begins
      rw [← show (i.tokens ++ s.tokens) ++ rest = rest' from same] at complete'
      cases complete'.symm.trans begins.goesOn
  | .more i s, .more i' s', rest, rest', complete, complete', same => by
      rw [SequenceTree.tokens, SequenceTree.tokens, List.append_assoc, List.append_assoc] at same
      obtain ⟨rfl, eq⟩ := i.tokens_append_inj i' (s.itemComplete complete)
        (s'.itemComplete complete') same
      obtain ⟨rfl, left⟩ := s.tokens_append_inj s' complete complete' eq
      exact ⟨rfl, left⟩

/-- Tokens that begin with those of a complete item begin with no other. -/
theorem ItemTree.tokens_append_inj : ∀ (i i' : ItemTree) {rest rest' : List Token},
    ItemComplete rest → ItemComplete rest' →
      i.tokens ++ rest = i'.tokens ++ rest' → i = i' ∧ rest = rest'
  | .plain s, .plain s', rest, rest', complete, complete', same => by
      obtain ⟨rfl, eq⟩ := s.tokens_append_inj s' complete complete' same
      exact ⟨rfl, eq⟩
  | .plain s, .lookahead operator s', rest, rest', complete, complete', same => by
      obtain ⟨t, more, head, other⟩ := s.exists_head
      rw [ItemTree.tokens, head] at same
      rw [(List.cons.inj same).1, operator.property] at other
      cases other
  | .lookahead operator s, .plain s', rest, rest', complete, complete', same => by
      obtain ⟨t, more, head, other⟩ := s'.exists_head
      rw [ItemTree.tokens, ItemTree.tokens, head] at same
      rw [← (List.cons.inj same).1, operator.property] at other
      cases other
  | .lookahead operator s, .lookahead operator' s', rest, rest', complete, complete', same => by
      obtain ⟨sameOperator, eq⟩ := List.cons.inj same
      obtain ⟨rfl, left⟩ := s.tokens_append_inj s' complete complete' eq
      exact ⟨by rw [Subtype.ext sameOperator], left⟩

/-- Tokens that begin with those of a complete suffixed primary begin with no other. -/
theorem SuffixedTree.tokens_append_inj : ∀ (s s' : SuffixedTree) {rest rest' : List Token},
    ItemComplete rest → ItemComplete rest' →
      s.tokens ++ rest = s'.tokens ++ rest' → s = s' ∧ rest = rest'
  | .plain p, .plain p', rest, rest', complete, complete', same => by
      obtain ⟨rfl, eq⟩ := p.tokens_append_inj p' same
      exact ⟨rfl, eq⟩
  | .plain p, .repeated p' operator, rest, rest', complete, complete', same => by
      rw [SuffixedTree.tokens, SuffixedTree.tokens, List.append_assoc] at same
      obtain ⟨rfl, rfl⟩ := p.tokens_append_inj p' same
      cases operator.property.symm.trans complete.2
  | .repeated p operator, .plain p', rest, rest', complete, complete', same => by
      rw [SuffixedTree.tokens, SuffixedTree.tokens, List.append_assoc] at same
      obtain ⟨rfl, rfl⟩ := p.tokens_append_inj p' same
      cases operator.property.symm.trans complete'.2
  | .repeated p operator, .repeated p' operator', rest, rest', complete, complete', same => by
      rw [SuffixedTree.tokens, SuffixedTree.tokens, List.append_assoc, List.append_assoc] at same
      obtain ⟨rfl, eq⟩ := p.tokens_append_inj p' same
      obtain ⟨sameOperator, eq⟩ := List.cons.inj eq
      exact ⟨by rw [Subtype.ext sameOperator], eq⟩

/-- Tokens that begin with those of a primary begin with no other. -/
theorem PrimaryTree.tokens_append_inj : ∀ (p p' : PrimaryTree) {rest rest' : List Token},
    p.tokens ++ rest = p'.tokens ++ rest' → p = p' ∧ rest = rest'
  | .reference name, p', rest, rest', same => by
      cases p' with
      | reference name' =>
          obtain ⟨sameName, eq⟩ := List.cons.inj same
          exact ⟨by rw [Subtype.ext sameName], eq⟩
      | literal t => cases name.val_ne t nofun (List.cons.inj same).1
      | charClass t => cases name.val_ne t nofun (List.cons.inj same).1
      | anyChar dot => cases name.val_ne_operator dot nofun (List.cons.inj same).1
      | group opening e closing => cases name.val_ne_operator opening nofun (List.cons.inj same).1
  | .literal t, p', rest, rest', same => by
      cases p' with
      | reference name => cases t.val_ne name nofun (List.cons.inj same).1
      | literal t' =>
          obtain ⟨sameText, eq⟩ := List.cons.inj same
          exact ⟨by rw [Subtype.ext sameText], eq⟩
      | charClass t' => cases t.val_ne t' nofun (List.cons.inj same).1
      | anyChar dot => cases t.val_ne_operator dot nofun (List.cons.inj same).1
      | group opening e closing => cases t.val_ne_operator opening nofun (List.cons.inj same).1
  | .charClass t, p', rest, rest', same => by
      cases p' with
      | reference name => cases t.val_ne name nofun (List.cons.inj same).1
      | literal t' => cases t.val_ne t' nofun (List.cons.inj same).1
      | charClass t' =>
          obtain ⟨sameClass, eq⟩ := List.cons.inj same
          exact ⟨by rw [Subtype.ext sameClass], eq⟩
      | anyChar dot => cases t.val_ne_operator dot nofun (List.cons.inj same).1
      | group opening e closing => cases t.val_ne_operator opening nofun (List.cons.inj same).1
  | .anyChar dot, p', rest, rest', same => by
      cases p' with
      | reference name => cases name.val_ne_operator dot nofun (List.cons.inj same).1.symm
      | literal t => cases t.val_ne_operator dot nofun (List.cons.inj same).1.symm
      | charClass t => cases t.val_ne_operator dot nofun (List.cons.inj same).1.symm
      | anyChar dot' =>
          obtain ⟨sameDot, eq⟩ := List.cons.inj same
          exact ⟨by rw [Subtype.ext sameDot], eq⟩
      | group opening e closing =>
          cases dot.val_ne opening (by simp [Text.ofString]) (List.cons.inj same).1
  | .group opening e closing, p', rest, rest', same => by
      cases p' with
      | reference name => cases name.val_ne_operator opening nofun (List.cons.inj same).1.symm
      | literal t => cases t.val_ne_operator opening nofun (List.cons.inj same).1.symm
      | charClass t => cases t.val_ne_operator opening nofun (List.cons.inj same).1.symm
      | anyChar dot =>
          cases opening.val_ne dot (by simp [Text.ofString]) (List.cons.inj same).1
      | group opening' e' closing' =>
          rw [PrimaryTree.tokens_group_append, PrimaryTree.tokens_group_append] at same
          obtain ⟨sameOpening, eq⟩ := List.cons.inj same
          obtain ⟨rfl, left⟩ := e.tokens_append_inj e' (expressionComplete_closing closing rest)
            (expressionComplete_closing closing' rest') eq
          obtain ⟨sameClosing, eq⟩ := List.cons.inj left
          exact ⟨by rw [Subtype.ext sameOpening, Subtype.ext sameClosing], eq⟩

end

/-- No tokens are those of two complete expressions. -/
theorem ExpressionTree.eq_of_tokens_eq {e e' : ExpressionTree} (h : e.tokens = e'.tokens) :
    e = e' := by
  have ending : TokenOf .ending := ⟨⟨.ending, [], 0⟩, rfl⟩
  have complete := expressionComplete_ending ending []
  exact (e.tokens_append_inj e' complete complete (by rw [h])).1

/-- No tokens are those of two rows of rules. -/
theorem RuleTree.eq_of_tokens_eq : ∀ {rules rules' : List RuleTree},
    rules.flatMap RuleTree.tokens = rules'.flatMap RuleTree.tokens → rules = rules'
  | [], [], _ => rfl
  | [], r' :: rules', h => by cases h
  | r :: rules, [], h => by cases h
  | r :: rules, r' :: rules', h => by
      have ending : TokenOf .ending := ⟨⟨.ending, [], 0⟩, rfl⟩
      obtain ⟨sameName, eq⟩ := List.cons.inj h
      obtain ⟨sameArrow, eq⟩ := List.cons.inj eq
      have bodies : r.body.tokens ++ rules.flatMap RuleTree.tokens =
          r'.body.tokens ++ rules'.flatMap RuleTree.tokens := eq
      obtain ⟨sameBody, left⟩ := r.body.tokens_append_inj r'.body
        (expressionComplete_rules rules ending []) (expressionComplete_rules rules' ending [])
        (by rw [← List.append_assoc, bodies, List.append_assoc])
      have sameRules := RuleTree.eq_of_tokens_eq (List.append_cancel_right left)
      have same : r = r' := by
        cases r
        cases r'
        simp only at sameName sameArrow sameBody
        rw [Subtype.ext sameName, Subtype.ext sameArrow, sameBody]
      rw [same, sameRules]

/-- No tokens are those of two grammars. -/
theorem GrammarTree.eq_of_tokens_eq {g g' : GrammarTree} (h : g.tokens = g'.tokens) : g = g' := by
  have rules := RuleTree.eq_of_tokens_eq h
  cases g
  cases g'
  cases rules
  rfl

end Peg.Notation
