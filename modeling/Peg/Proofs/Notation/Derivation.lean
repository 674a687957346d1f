import Peg.Notation.Reader

/-!
# The notation as a grammar

Derivations of the grammar that the notation of grammars follows:

* `grammar := rule+`
* `rule := IDENTIFIER arrow expression`
* `expression := sequence ('/' sequence)*`
* `sequence := item*`
* `item := ('&' | '!')? suffixed`
* `suffixed := primary ('?' | '*' | '+')?`
* `primary := IDENTIFIER | LITERAL | CLASS | '.' | '(' expression ')'`

A derivation is a tree whose leaves are tokens of the right kind. It has a row of tokens, those it
derives, and an image: the rule or the rules that it stands for. The image exists unless a literal
or a class has an escape that means nothing.

No row of tokens has two derivations. A sequence could stop anywhere, but what may come after it
cannot begin an item: an identifier before an arrow heads a rule, and no arrow stands inside an
expression.
-/

namespace Peg.Notation

/-- A token of a given kind. -/
abbrev TokenOf (kind : TokenKind) := { t : Token // t.kind = kind }

/-- A token that is one of the given operators. -/
abbrev OperatorOf (operators : Text) := { t : Token // t.isOneOf operators = true }

mutual

/-- Sequences with slashes between them. -/
inductive ExpressionTree where
  /-- The last sequence. -/
  | last (s : SequenceTree)
  /-- A sequence before a slash. -/
  | more (s : SequenceTree) (slash : OperatorOf "/") (rest : ExpressionTree)

/-- Any number of items. -/
inductive SequenceTree where
  /-- No item. -/
  | empty
  /-- An item before others. -/
  | more (i : ItemTree) (rest : SequenceTree)

/-- A suffixed primary with or without a lookahead operator before it. -/
inductive ItemTree where
  /-- Without an operator. -/
  | plain (s : SuffixedTree)
  /-- With an operator. -/
  | lookahead (operator : OperatorOf "&!") (s : SuffixedTree)

/-- A primary with or without a quantifier after it. -/
inductive SuffixedTree where
  /-- Without a quantifier. -/
  | plain (p : PrimaryTree)
  /-- With a quantifier. -/
  | repeated (p : PrimaryTree) (operator : OperatorOf "?*+")

/-- The smallest parts of an expression. -/
inductive PrimaryTree where
  /-- The name of a rule. -/
  | reference (name : TokenOf .identifier)
  /-- A text between quotes. -/
  | literal (t : TokenOf .literal)
  /-- A class between brackets. -/
  | charClass (t : TokenOf .charClass)
  /-- A dot. -/
  | anyChar (dot : OperatorOf ".")
  /-- An expression between parentheses. -/
  | group (opening : OperatorOf "(") (e : ExpressionTree) (closing : OperatorOf ")")

end

/-- A named rule. -/
structure RuleTree where
  /-- The name. -/
  name : TokenOf .identifier
  /-- The arrow. -/
  arrow : TokenOf .arrow
  /-- The body. -/
  body : ExpressionTree

/-- A row of named rules. -/
structure GrammarTree where
  /-- The rules. -/
  rules : List RuleTree
  /-- There is a rule at least. -/
  rules_ne_nil : rules ≠ []

/-! ## Tokens -/

mutual

/-- The tokens of an expression. -/
def ExpressionTree.tokens : ExpressionTree → List Token
  | .last s => s.tokens
  | .more s slash rest => s.tokens ++ slash.val :: rest.tokens

def SequenceTree.tokens : SequenceTree → List Token
  | .empty => []
  | .more i rest => i.tokens ++ rest.tokens

def ItemTree.tokens : ItemTree → List Token
  | .plain s => s.tokens
  | .lookahead operator s => operator.val :: s.tokens

def SuffixedTree.tokens : SuffixedTree → List Token
  | .plain p => p.tokens
  | .repeated p operator => p.tokens ++ [operator.val]

def PrimaryTree.tokens : PrimaryTree → List Token
  | .reference name => [name.val]
  | .literal t => [t.val]
  | .charClass t => [t.val]
  | .anyChar dot => [dot.val]
  | .group opening e closing => opening.val :: (e.tokens ++ [closing.val])

end

/-- The tokens of a group are those of its expression between parentheses. -/
theorem PrimaryTree.tokens_group_append (opening : OperatorOf "(") (e : ExpressionTree)
    (closing : OperatorOf ")") (rest : List Token) :
    (PrimaryTree.group opening e closing).tokens ++ rest =
      opening.val :: (e.tokens ++ closing.val :: rest) := by
  rw [PrimaryTree.tokens, List.cons_append, List.append_assoc, List.singleton_append]

def RuleTree.tokens (r : RuleTree) : List Token := r.name.val :: r.arrow.val :: r.body.tokens

def GrammarTree.tokens (g : GrammarTree) : List Token := g.rules.flatMap RuleTree.tokens

/-! ## Images -/

mutual

/-- The rules of the sequences of an expression. -/
def ExpressionTree.alternatives : ExpressionTree → Except ReadError (List Rule)
  | .last s => return [combined .sequence (← s.items)]
  | .more s _ rest => return combined .sequence (← s.items) :: (← rest.alternatives)

def SequenceTree.items : SequenceTree → Except ReadError (List Rule)
  | .empty => return []
  | .more i rest => return (← i.rule) :: (← rest.items)

def ItemTree.rule : ItemTree → Except ReadError Rule
  | .plain s => s.rule
  | .lookahead operator s => do
      let r ← s.rule
      return if operator.val.text = "&" then .followedBy r else .notFollowedBy r

def SuffixedTree.rule : SuffixedTree → Except ReadError Rule
  | .plain p => p.rule
  | .repeated p operator => return .repeated (← p.rule) (.ofSymbol operator.val.text)

def PrimaryTree.rule : PrimaryTree → Except ReadError Rule
  | .reference name => return .reference name.val.text none
  | .literal t => literalRule t.val
  | .charClass t => charClassRule t.val
  | .anyChar _ => return .anyChar
  | .group _ e _ => return combined .choice (← e.alternatives)

end

def SequenceTree.rule (s : SequenceTree) : Except ReadError Rule :=
  return combined .sequence (← s.items)

def ExpressionTree.rule (e : ExpressionTree) : Except ReadError Rule :=
  return combined .choice (← e.alternatives)

/-- The name of a rule and its body. -/
def RuleTree.entry (r : RuleTree) : Except ReadError (Text × Rule) :=
  return (r.name.val.text, ← r.body.rule)

def GrammarTree.names (g : GrammarTree) : List Text := g.rules.map (·.name.val.text)

/-- The table of a grammar: its rules in order. -/
def GrammarTree.table (g : GrammarTree) : Except ReadError (List (Text × Rule)) :=
  g.rules.mapM RuleTree.entry

/-! ## Names -/

/-- The rules have different names, none of which has been seen before. -/
structure New (seen : List Text) (rules : List RuleTree) : Prop where
  /-- No name is taken twice. -/
  nodup : (rules.map (·.name.val.text)).Nodup
  /-- No name has been seen before. -/
  unseen : ∀ r ∈ rules, r.name.val.text ∉ seen

/-- No rules are new. -/
theorem New.nil (seen : List Text) : New seen [] := ⟨List.nodup_nil, nofun⟩

theorem New.of_nodup {rules : List RuleTree} (h : (rules.map (·.name.val.text)).Nodup) :
    New [] rules := ⟨h, fun _ _ ↦ List.not_mem_nil⟩

/-- A rule and others are new if its name is, and theirs are behind that name. -/
theorem new_cons_iff {seen : List Text} {r : RuleTree} {rules : List RuleTree} :
    New seen (r :: rules) ↔
      r.name.val.text ∉ seen ∧ New (r.name.val.text :: seen) rules := by
  constructor
  · rintro ⟨nodup, unseen⟩
    obtain ⟨first, different⟩ := List.nodup_cons.mp nodup
    obtain ⟨here, others⟩ := List.forall_mem_cons.mp unseen
    refine ⟨here, different, fun r' mem old ↦ ?_⟩
    rcases List.mem_cons.mp old with same | old
    · exact first (List.mem_map.mpr ⟨r', mem, same⟩)
    · exact others r' mem old
  · rintro ⟨here, different, unseen⟩
    obtain ⟨first, others⟩ : r.name.val.text ∉ rules.map (·.name.val.text) ∧
        ∀ r' ∈ rules, r'.name.val.text ∉ seen := by
      refine ⟨fun mem ↦ ?_, fun r' mem old ↦ unseen r' mem (List.mem_cons_of_mem _ old)⟩
      obtain ⟨r', among, same⟩ := List.mem_map.mp mem
      exact unseen r' among (same ▸ List.mem_cons_self)
    exact ⟨List.nodup_cons.mpr ⟨first, different⟩, List.forall_mem_cons.mpr ⟨here, others⟩⟩

/-! ## Single tokens -/

section Tokens

variable {t : Token}

/-- An operator among several is an operator of one of these characters. -/
theorem Token.isOneOf_iff {operators : Text} :
    t.isOneOf operators = true ↔ t.kind = .operator ∧ ∃ c ∈ operators, t.text = [c] := by
  simp [Token.isOneOf]

theorem Token.kind_of_isOneOf {operators : Text} (h : t.isOneOf operators = true) :
    t.kind = .operator := (Token.isOneOf_iff.mp h).1

theorem Token.isOneOf_of_kind_ne {operators : Text} (h : t.kind ≠ .operator) :
    t.isOneOf operators = false :=
  Bool.eq_false_iff.mpr fun one ↦ h (Token.kind_of_isOneOf one)

/-- An operator among several is none of several others. -/
theorem Token.isOneOf_of_disjoint {operators others : Text} (h : t.isOneOf operators = true)
    (disjoint : ∀ c ∈ operators, c ∉ others) : t.isOneOf others = false := by
  apply Bool.eq_false_iff.mpr
  intro other
  obtain ⟨-, c, mem, text⟩ := Token.isOneOf_iff.mp h
  obtain ⟨-, d, mem', text'⟩ := Token.isOneOf_iff.mp other
  obtain rfl : c = d := List.cons.inj (text.symm.trans text') |>.1
  exact disjoint c mem mem'

theorem Token.isOneOf_mono {operators others : Text} (h : t.isOneOf operators = true)
    (subset : ∀ c ∈ operators, c ∈ others) : t.isOneOf others = true := by
  obtain ⟨kind, c, mem, text⟩ := Token.isOneOf_iff.mp h
  exact Token.isOneOf_iff.mpr ⟨kind, c, subset c mem, text⟩

/-- A token of one kind is of no other kind. -/
theorem TokenOf.kind_ne {kind other : TokenKind} (t : TokenOf kind) (h : kind ≠ other) :
    t.val.kind ≠ other := by
  rw [t.property]
  exact h

/-- An operator is of no other kind. -/
theorem OperatorOf.kind_ne {operators : Text} {other : TokenKind} (o : OperatorOf operators)
    (h : .operator ≠ other) : o.val.kind ≠ other := by
  rw [Token.kind_of_isOneOf o.property]
  exact h

/-- Tokens of different kinds are different. -/
theorem TokenOf.val_ne {kind kind' : TokenKind} (t : TokenOf kind) (t' : TokenOf kind')
    (h : kind ≠ kind') : t.val ≠ t'.val :=
  fun same ↦ t.kind_ne h (by rw [same, t'.property])

/-- A token that is no operator is different from one. -/
theorem TokenOf.val_ne_operator {kind : TokenKind} {operators : Text} (t : TokenOf kind)
    (o : OperatorOf operators) (h : kind ≠ .operator) : t.val ≠ o.val :=
  fun same ↦ t.kind_ne h (by rw [same, Token.kind_of_isOneOf o.property])

/-- Operators of disjoint groups are different. -/
theorem OperatorOf.val_ne {operators others : Text} (o : OperatorOf operators)
    (o' : OperatorOf others) (disjoint : ∀ c ∈ operators, c ∉ others) : o.val ≠ o'.val := by
  intro same
  have := Token.isOneOf_of_disjoint o.property disjoint
  rw [same, o'.property] at this
  cases this

end Tokens

/-! ## What comes next -/

/-- Before a name a sequence ends if the name heads a rule. -/
theorem atSequenceEnd_of_identifier {t next : Token} (h : t.kind = .identifier)
    (rest : List Token) : atSequenceEnd (t :: next :: rest) = .ok (next.kind = .arrow) := by
  have goesOn : ¬ (t.kind = .ending ∨ t.isOneOf ")/" = true) := by
    rw [h, Token.isOneOf_of_kind_ne (by rw [h]; exact nofun)]
    exact nofun
  rw [atSequenceEnd, if_neg goesOn, atRuleHead, if_pos h]

/-- Before any other token a sequence ends if it is the ending, a parenthesis or a slash. -/
theorem atSequenceEnd_of_kind_ne {t : Token} (h : t.kind ≠ .identifier) (rest : List Token) :
    atSequenceEnd (t :: rest) = .ok (t.kind = .ending ∨ t.isOneOf ")/" = true) := by
  have head : atRuleHead (t :: rest) = .ok false := by simp [atRuleHead, h]
  rw [atSequenceEnd, head]
  split <;> simp_all

/-- There is a next token and it is no arrow. So a name before it is no head of a rule. -/
def NoArrowNext : List Token → Prop
  | [] => False
  | t :: _ => t.kind ≠ .arrow

/-- There is a next token, which is neither an arrow nor a quantifier. So an item before it is
complete. -/
def ItemComplete : List Token → Prop
  | [] => False
  | t :: _ => t.kind ≠ .arrow ∧ t.isOneOf "?*+" = false

/-- A sequence ends before the next token. -/
def SequenceComplete (tokens : List Token) : Prop := atSequenceEnd tokens = .ok true

/-- A sequence and the expression it stands in end before the next token. -/
def ExpressionComplete : List Token → Prop
  | [] => False
  | t :: rest => SequenceComplete (t :: rest) ∧ t.isOneOf "/" = false

/-- An item begins with the next token. -/
structure ItemBegins (tokens : List Token) : Prop where
  /-- The sequence goes on. -/
  goesOn : atSequenceEnd tokens = .ok false
  /-- What comes before is complete. -/
  itemComplete : ItemComplete tokens

theorem ItemComplete.noArrowNext {tokens : List Token} (h : ItemComplete tokens) :
    NoArrowNext tokens := by
  cases tokens with
  | nil => exact h
  | cons t rest => exact h.1

theorem noArrowNext_operator {operators : Text} (o : OperatorOf operators) (rest : List Token) :
    NoArrowNext (o.val :: rest) := o.kind_ne nofun

theorem itemComplete_token {t : Token} (arrow : t.kind ≠ .arrow) (operator : t.kind ≠ .operator)
    (rest : List Token) : ItemComplete (t :: rest) := ⟨arrow, Token.isOneOf_of_kind_ne operator⟩

theorem itemComplete_operator {operators : Text} (o : OperatorOf operators)
    (disjoint : ∀ c ∈ operators, c ∉ ("?*+" : Text)) (rest : List Token) :
    ItemComplete (o.val :: rest) :=
  ⟨noArrowNext_operator o rest, Token.isOneOf_of_disjoint o.property disjoint⟩

/-- What ends a sequence leaves the item before it complete. -/
theorem SequenceComplete.itemComplete {tokens : List Token} (h : SequenceComplete tokens) :
    ItemComplete tokens := by
  cases tokens with
  | nil => cases h
  | cons t rest =>
      by_cases identifier : t.kind = .identifier
      · exact itemComplete_token (TokenOf.kind_ne ⟨t, identifier⟩ nofun)
          (TokenOf.kind_ne ⟨t, identifier⟩ nofun) rest
      · rw [SequenceComplete, atSequenceEnd_of_kind_ne identifier] at h
        rcases of_decide_eq_true (Except.ok.inj h) with ending | closes
        · exact itemComplete_token (TokenOf.kind_ne ⟨t, ending⟩ nofun)
            (TokenOf.kind_ne ⟨t, ending⟩ nofun) rest
        · exact itemComplete_operator ⟨t, closes⟩ (by simp [Text.ofString]) rest

/-- What ends an expression ends the sequence in it. -/
theorem ExpressionComplete.sequenceComplete {tokens : List Token} (h : ExpressionComplete tokens) :
    SequenceComplete tokens := by
  cases tokens with
  | nil => exact h.elim
  | cons t rest => exact h.1

theorem sequenceComplete_operator {operators : Text} (o : OperatorOf operators)
    (subset : ∀ c ∈ operators, c ∈ (")/" : Text)) (rest : List Token) :
    SequenceComplete (o.val :: rest) := by
  have closes : o.val.isOneOf ")/" = true := Token.isOneOf_mono o.property subset
  rw [SequenceComplete, atSequenceEnd, if_pos (.inr closes)]

/-- A slash ends a sequence. -/
theorem sequenceComplete_slash (slash : OperatorOf "/") (rest : List Token) :
    SequenceComplete (slash.val :: rest) :=
  sequenceComplete_operator slash (by simp [Text.ofString]) rest

theorem expressionComplete_closing (closing : OperatorOf ")") (rest : List Token) :
    ExpressionComplete (closing.val :: rest) :=
  ⟨sequenceComplete_operator closing (by simp [Text.ofString]) rest,
    Token.isOneOf_of_disjoint closing.property (by simp [Text.ofString])⟩

theorem expressionComplete_ending (ending : TokenOf .ending) (rest : List Token) :
    ExpressionComplete (ending.val :: rest) := by
  refine ⟨?_, Token.isOneOf_of_kind_ne (ending.kind_ne nofun)⟩
  rw [SequenceComplete, atSequenceEnd, if_pos (.inl ending.property)]

theorem expressionComplete_head (r : RuleTree) (rest : List Token) :
    ExpressionComplete (r.tokens ++ rest) := by
  refine ⟨?_, Token.isOneOf_of_kind_ne (r.name.kind_ne nofun)⟩
  show SequenceComplete (r.name.val :: r.arrow.val :: (r.body.tokens ++ rest))
  rw [SequenceComplete, atSequenceEnd_of_identifier r.name.property]
  simp [r.arrow.property]

/-- Rules and the ending after them end an expression. -/
theorem expressionComplete_rules (rules : List RuleTree) (ending : TokenOf .ending)
    (rest : List Token) :
    ExpressionComplete (rules.flatMap RuleTree.tokens ++ ending.val :: rest) := by
  cases rules with
  | nil => exact expressionComplete_ending ending rest
  | cons r rules =>
      rw [List.flatMap_cons, List.append_assoc]
      exact expressionComplete_head r _

/-! ### What trees begin with -/

theorem itemBegins_token {kind : TokenKind} (t : TokenOf kind) (identifier : kind ≠ .identifier)
    (operator : kind ≠ .operator) (arrow : kind ≠ .arrow) (ending : kind ≠ .ending)
    (rest : List Token) : ItemBegins (t.val :: rest) := by
  refine ⟨?_, itemComplete_token (t.kind_ne arrow) (t.kind_ne operator) rest⟩
  rw [atSequenceEnd_of_kind_ne (t.kind_ne identifier),
    Token.isOneOf_of_kind_ne (t.kind_ne operator)]
  simp [t.kind_ne ending]

/-- An operator that is neither a quantifier nor the end of a sequence begins an item. -/
theorem itemBegins_operator {operators : Text} (o : OperatorOf operators)
    (closes : ∀ c ∈ operators, c ∉ (")/" : Text))
    (quantifier : ∀ c ∈ operators, c ∉ ("?*+" : Text)) (rest : List Token) :
    ItemBegins (o.val :: rest) := by
  refine ⟨?_, itemComplete_operator o quantifier rest⟩
  have ending : o.val.kind ≠ .ending := o.kind_ne nofun
  rw [atSequenceEnd_of_kind_ne (o.kind_ne nofun), Token.isOneOf_of_disjoint o.property closes]
  simp [ending]

/-- A name begins an item unless an arrow comes after it. -/
theorem itemBegins_identifier (name : TokenOf .identifier) {rest : List Token}
    (h : NoArrowNext rest) : ItemBegins (name.val :: rest) := by
  refine ⟨?_, itemComplete_token (name.kind_ne nofun) (name.kind_ne nofun) rest⟩
  cases rest with
  | nil => exact h.elim
  | cons next rest => rw [atSequenceEnd_of_identifier name.property, decide_eq_false h]

/-- A primary begins an item. -/
theorem PrimaryTree.itemBegins (p : PrimaryTree) {rest : List Token} (h : NoArrowNext rest) :
    ItemBegins (p.tokens ++ rest) := by
  cases p with
  | reference name => exact itemBegins_identifier name h
  | literal t => exact itemBegins_token t nofun nofun nofun nofun rest
  | charClass t => exact itemBegins_token t nofun nofun nofun nofun rest
  | anyChar dot =>
      exact itemBegins_operator dot (by simp [Text.ofString]) (by simp [Text.ofString]) rest
  | group opening e closing =>
      exact itemBegins_operator opening (by simp [Text.ofString]) (by simp [Text.ofString]) _

/-- A suffixed primary begins an item. -/
theorem SuffixedTree.itemBegins (s : SuffixedTree) {rest : List Token} (h : ItemComplete rest) :
    ItemBegins (s.tokens ++ rest) := by
  cases s with
  | plain p => exact p.itemBegins h.noArrowNext
  | repeated p operator =>
      rw [SuffixedTree.tokens, List.append_assoc]
      exact p.itemBegins (noArrowNext_operator operator rest)

/-- An item begins an item. -/
theorem ItemTree.itemBegins (i : ItemTree) {rest : List Token} (h : ItemComplete rest) :
    ItemBegins (i.tokens ++ rest) := by
  cases i with
  | plain s => exact s.itemBegins h
  | lookahead operator s =>
      exact itemBegins_operator operator (by simp [Text.ofString]) (by simp [Text.ofString]) _

/-- What is left of a sequence leaves the item before it complete. -/
theorem SequenceTree.itemComplete (s : SequenceTree) {rest : List Token}
    (h : SequenceComplete rest) : ItemComplete (s.tokens ++ rest) := by
  cases s with
  | empty => exact h.itemComplete
  | more i s =>
      rw [SequenceTree.tokens, List.append_assoc]
      exact (i.itemBegins (s.itemComplete h)).itemComplete

/-- A suffixed primary does not begin with a lookahead operator. -/
theorem SuffixedTree.exists_head (s : SuffixedTree) :
    ∃ t more, s.tokens = t :: more ∧ t.isOneOf "&!" = false := by
  have primary : ∀ p : PrimaryTree, ∃ t more, p.tokens = t :: more ∧ t.isOneOf "&!" = false := by
    rintro (name | t | t | dot | ⟨opening, e, closing⟩)
    · exact ⟨name, _, rfl, Token.isOneOf_of_kind_ne (name.kind_ne nofun)⟩
    · exact ⟨t, _, rfl, Token.isOneOf_of_kind_ne (t.kind_ne nofun)⟩
    · exact ⟨t, _, rfl, Token.isOneOf_of_kind_ne (t.kind_ne nofun)⟩
    · exact ⟨dot, _, rfl, Token.isOneOf_of_disjoint dot.property (by simp [Text.ofString])⟩
    · exact ⟨opening, _, rfl, Token.isOneOf_of_disjoint opening.property (by simp [Text.ofString])⟩
  cases s with
  | plain p => exact primary p
  | repeated p operator =>
      obtain ⟨t, more, head, other⟩ := primary p
      exact ⟨t, more ++ [operator.val], by rw [SuffixedTree.tokens, head, List.cons_append], other⟩

end Peg.Notation
