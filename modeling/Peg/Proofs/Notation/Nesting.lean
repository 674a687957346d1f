import Peg.Proofs.Grammar.Building
import Peg.Proofs.Grammar.Frames
import Peg.Proofs.Notation.Frames
import Peg.Proofs.Notation.RoundTrip

/-!
# Sources that nest too deeply

No number of frames is enough for every source. To be read, a rule needs five frames for each pair
of parentheses around it, though it means the same without them. To be linked, it needs none for
the parentheses but as many as six for the rules that nest inside each pair of them; so a source can
be read with frames that are too few to link its rules.
-/

namespace Peg.Notation

open Except

/-! ## Tokens that nest -/

/-- An expression that begins with an item runs out of frames where its first primary does. -/
theorem expression_outOfFrames {frames : Nat} {t : Token} {rest : List Token}
    (begins : ItemBegins (t :: rest)) (plain : t.isOneOf "&!" = false)
    (out : primary frames (t :: rest) = .error .outOfFrames) :
    expression (frames + 4) (t :: rest) = .error .outOfFrames := by
  have suffixed_out : suffixed (frames + 1) (t :: rest) = .error .outOfFrames := by
    rw [suffixed, out, error_bind]
  have item_out : item (frames + 2) (t :: rest) = .error .outOfFrames := by
    rw [item, takeOneOf_of_ne plain, ok_bind]
    exact suffixed_out
  have items_out : itemsWith (item (frames + 2)) (t :: rest).length (t :: rest) =
      .error .outOfFrames := by
    rw [List.length_cons, itemsWith, begins.goesOn, ok_bind, if_neg Bool.false_ne_true, item_out,
      error_bind]
  have sequence_out : sequence (frames + 3) (t :: rest) = .error .outOfFrames := by
    rw [sequence, items_out, error_bind]
  rw [expression, sequence_out, error_bind]

theorem primary_outOfFrames {frames : Nat} (opening : OperatorOf "(") {rest : List Token}
    (out : expression frames rest = .error .outOfFrames) :
    primary (frames + 1) (opening.val :: rest) = .error .outOfFrames := by
  have text : opening.val.text = "(" := opening.text_eq '(' rfl
  have other : opening.val.text ≠ "." := by
    rw [text]
    simp [Text.ofString]
  rw [primary, Token.kind_of_isOneOf opening.property]
  simp only
  rw [if_neg other, if_pos text, out, error_bind]

theorem expression_opened (opened : List (OperatorOf "(")) {t : Token} {rest : List Token}
    (begins : ItemBegins (t :: rest)) (plain : t.isOneOf "&!" = false) :
    expression (5 * opened.length + 4) (opened.map (·.val) ++ t :: rest) =
      .error .outOfFrames := by
  induction opened with
  | nil => exact expression_outOfFrames begins plain rfl
  | cons opening opened ih =>
      refine expression_outOfFrames ?_ ?_ (primary_outOfFrames opening ih)
      · exact itemBegins_operator opening (by simp [Text.ofString]) (by simp [Text.ofString]) _
      · exact Token.isOneOf_of_disjoint opening.property (by simp [Text.ofString])

/-! ## Sources that nest -/

/-- A rule that matches any character, in some pairs of parentheses. -/
def nestedSource (pairs : Nat) : Text :=
  ("s" : Text) ++ (("<-" : Text) ++ (List.replicate pairs ('(' : CodePoint) ++
    (("." : Text) ++ List.replicate pairs (')' : CodePoint))))

/-- It is written in ASCII on one line. -/
theorem ascii_of_mem_nestedSource {pairs : Nat} {c : CodePoint} (mem : c ∈ nestedSource pairs) :
    c.val < 0x80 ∧ c ≠ '\r' := by
  simp only [nestedSource, List.mem_append, List.mem_replicate] at mem
  obtain mem | mem | ⟨-, rfl⟩ | mem | ⟨-, rfl⟩ := mem
  · obtain rfl : c = 's' := by simpa [Text.ofString] using mem
    decide
  · obtain rfl | rfl : c = '<' ∨ c = '-' := by simpa [Text.ofString] using mem
    · decide
    · decide
  · decide
  · obtain rfl : c = '.' := by simpa [Text.ofString] using mem
    decide
  · decide

theorem exists_row_of_replicate {operators : Text} {c : CodePoint}
    (one : ∀ offset rest, ∃ o : OperatorOf operators, CutInto [c] offset [o.val] rest)
    (count offset : Nat) (rest : Text) : ∃ row : List (OperatorOf operators), row.length = count ∧
      CutInto (List.replicate count c) offset (row.map (·.val)) rest := by
  induction count generalizing offset with
  | zero => exact ⟨[], rfl, .nil offset rest⟩
  | succ count ih =>
      obtain ⟨o, first⟩ := one offset (List.replicate count c ++ rest)
      obtain ⟨row, length, others⟩ := ih (offset + 1)
      exact ⟨o :: row, congrArg (· + 1) length, first.append others⟩

/-- What a source with nested parentheses is cut into. -/
theorem exists_tokens_of_nestedSource (pairs : Nat) :
    ∃ (name : TokenOf .identifier) (arrow : TokenOf .arrow) (opened : List (OperatorOf "("))
      (dot : OperatorOf ".") (rest : List Token), opened.length = pairs ∧
      tokenize (nestedSource pairs) =
        .ok (name.val :: arrow.val :: (opened.map (·.val) ++ dot.val :: rest)) := by
  obtain ⟨closed, -, cutClosed⟩ := exists_row_of_replicate (c := ')') exists_closing pairs
    (3 + pairs + 1) []
  obtain ⟨opened, rfl, cutOpened⟩ := exists_row_of_replicate (c := '(') exists_opening pairs 3
    (("." : Text) ++ List.replicate pairs (')' : CodePoint) ++ [])
  have mem : CodePoint.ofChar '.' ∈ ("." : Text) := by simp [Text.ofString]
  have identifier : Text.IsIdentifier "s" := ⟨by decide, by simp⟩
  have cut : CutInto (nestedSource opened.length) 0
      ([⟨.identifier, "s", 0⟩] ++ ([⟨.arrow, "<-", 1⟩] ++ (opened.map (·.val) ++
        ([(operatorAt mem (3 + opened.length)).val] ++ closed.map (·.val))))) [] := by
    refine .append (cutInto_identifier identifier 0 ?_) (.append (cutInto_arrow 1 _)
      (.append cutOpened ?_))
    · intro c first
      obtain rfl : ('<' : CodePoint) = c := Option.some.inj first
      decide
    · rw [List.length_replicate]
      exact .append (cutInto_operatorAt mem (by simp [Text.ofString]) (by simp) _ _) cutClosed
  have tokenized := cut.tokensFrom_eq
  simp only [List.cons_append, List.append_assoc] at tokenized
  exact ⟨⟨⟨.identifier, "s", 0⟩, rfl⟩, ⟨⟨.arrow, "<-", 1⟩, rfl⟩, opened, operatorAt mem _, _, rfl,
    tokenized⟩

/-- Fewer than five frames for each pair of parentheses, and five more, are not enough. -/
theorem rulesOf_nestedSource {frames pairs : Nat} (few : frames < 5 * pairs + 5) :
    Source.rulesOf frames (nestedSource pairs) = .error .outOfFrames := by
  obtain ⟨name, arrow, opened, dot, rest, rfl, tokenized⟩ := exists_tokens_of_nestedSource pairs
  have body : expression (5 * opened.length + 4) (opened.map (·.val) ++ dot.val :: rest) =
      .error .outOfFrames := by
    refine expression_opened opened ?_ ?_
    · exact itemBegins_operator dot (by simp [Text.ofString]) (by simp [Text.ofString]) _
    · exact Token.isOneOf_of_disjoint dot.property (by simp [Text.ofString])
  have most : readRules (5 * opened.length + 4)
      (name.val :: arrow.val :: (opened.map (·.val) ++ dot.val :: rest)) =
        .error .outOfFrames := by
    have rule : ruleWith (expression (5 * opened.length + 4)) []
        (name.val :: arrow.val :: (opened.map (·.val) ++ dot.val :: rest)) =
          .error .outOfFrames := by
      rw [ruleWith, expect_token name, ok_bind]
      dsimp only
      rw [expect_token arrow, ok_bind]
      dsimp only
      rw [body, error_bind]
    rw [readRules, grammar, List.length_cons, rulesWith, if_neg (name.kind_ne (by decide)), rule,
      error_bind, error_bind, error_bind]
  rw [Source.rulesOf, tokenized]
  by_contra enough
  exact enough ((readRules_eq_of_le (by omega) enough).symm.trans most)

/-! ## Sources that are read but not linked -/

/-- There are no more parentheses open at a time than are opened at all. -/
theorem nesting_le (depth : Nat) (tokens : List Token) :
    nesting depth tokens ≤ depth + tokens.countP (·.isOneOf "(") := by
  induction tokens generalizing depth with
  | nil => exact Nat.le_refl depth
  | cons t rest ih =>
      rw [nesting, List.countP_cons]
      split
      · have := ih (depth + 1)
        omega
      · split
        · have := ih (depth - 1)
          omega
        · exact ih depth

/-- A rule that nests in itself so many times, through each kind of rule that has parts. -/
def layeredRule : Nat → Rule
  | 0 => .anyChar
  | layers + 1 =>
      .choice [.sequence [.anyChar, .notFollowedBy (.repeated (layeredRule layers) .optional)],
        .anyChar]

/-- The rule in the notation, where each layer takes one pair of parentheses. -/
def layeredText : Nat → Text
  | 0 => "."
  | layers + 1 =>
      "." ++ ("!" ++ ("(" ++ (layeredText layers ++ (")" ++ ("?" ++ (" / " ++ "."))))))

theorem linkDepth_layeredRule (layers : Nat) : (layeredRule layers).linkDepth = 6 * layers + 1 := by
  induction layers with
  | zero => rfl
  | succ layers ih =>
      simp only [layeredRule, Rule.linkDepth, Rule.greatestLinkDepth, ih]
      omega

theorem link_layeredRule (slotOf : Text → Option Nat) (layers : Nat) :
    (layeredRule layers).link slotOf = .ok (layeredRule layers) := by
  induction layers with
  | zero => rfl
  | succ layers ih =>
      simp only [layeredRule, Rule.link_choice, Rule.linkAll_cons, Rule.link_sequence,
        Rule.link_notFollowedBy, Rule.link_repeated, ih]
      rfl

section Layer

variable (dot : OperatorOf ".") (bang : OperatorOf "&!") (opening : OperatorOf "(")
  (e : ExpressionTree) (closing : OperatorOf ")") (question : OperatorOf "?*+")
  (slash : OperatorOf "/") (dot' : OperatorOf ".")

/-- A layer around an expression. -/
def ExpressionTree.layer : ExpressionTree :=
  .more (.more (.plain (.plain (.anyChar dot)))
    (.more (.lookahead bang (.repeated (.group opening e closing) question)) .empty)) slash
    (.last (.more (.plain (.plain (.anyChar dot'))) .empty))

theorem ExpressionTree.tokens_layer :
    (e.layer dot bang opening closing question slash dot').tokens =
      [dot.val] ++ ([bang.val] ++ ([opening.val] ++ (e.tokens ++ ([closing.val] ++
        ([question.val] ++ ([slash.val] ++ [dot'.val])))))) := by
  simp [layer, tokens, SequenceTree.tokens, ItemTree.tokens, SuffixedTree.tokens,
    PrimaryTree.tokens]

theorem ExpressionTree.countP_layer :
    (e.layer dot bang opening closing question slash dot').tokens.countP (·.isOneOf "(") =
      e.tokens.countP (·.isOneOf "(") + 1 := by
  have other {operators : Text} (o : OperatorOf operators) (h : ∀ c ∈ operators, c ∉ ("(" : Text)) :
      o.val.isOneOf "(" = false := Token.isOneOf_of_disjoint o.property h
  simp [tokens_layer, opening.property, other dot (by simp [Text.ofString]),
    other bang (by simp [Text.ofString]), other closing (by simp [Text.ofString]),
    other question (by simp [Text.ofString]), other slash (by simp [Text.ofString]),
    other dot' (by simp [Text.ofString])]

theorem ExpressionTree.rule_layer {r : Rule} (image : e.rule = .ok r)
    (other : bang.val.text ≠ "&") (symbol : .ofSymbol question.val.text = Quantifier.optional) :
    (e.layer dot bang opening closing question slash dot').rule =
      .ok (.choice [.sequence [.anyChar, .notFollowedBy (.repeated r .optional)], .anyChar]) := by
  have group : (PrimaryTree.group opening e closing).rule = .ok r := image
  have item : ItemTree.rule (.lookahead bang (.repeated (.group opening e closing) question)) =
      .ok (.notFollowedBy (.repeated r .optional)) := by
    rw [ItemTree.rule, SuffixedTree.rule, group, symbol]
    show Except.ok (if _ then _ else _) = _
    rw [if_neg other]
  rw [rule, layer, alternatives, SequenceTree.items, SequenceTree.items, item]
  rfl

end Layer

/-- What the text of a layered rule is cut into, and how many parentheses are opened there. -/
theorem exists_tree_of_layeredText (layers offset : Nat) (rest : Text) :
    ∃ e : ExpressionTree, e.rule = .ok (layeredRule layers) ∧
      e.tokens.countP (·.isOneOf "(") = layers ∧
      CutInto (layeredText layers) offset e.tokens rest := by
  induction layers generalizing offset rest with
  | zero =>
      obtain ⟨dot, cut⟩ := exists_dot offset rest
      refine ⟨.last (.more (.plain (.plain (.anyChar dot))) .empty), rfl, ?_, cut⟩
      have other : dot.val.isOneOf "(" = false :=
        Token.isOneOf_of_disjoint dot.property (by simp [Text.ofString])
      exact List.countP_eq_zero.mpr (by simpa [ExpressionTree.tokens, SequenceTree.tokens,
        ItemTree.tokens, SuffixedTree.tokens, PrimaryTree.tokens] using other)
  | succ layers ih =>
      -- The pieces of the layer one by one, each with all that comes behind it.
      obtain ⟨dot, cutDot⟩ := exists_dot offset
        (("!" : Text) ++ ("(" ++ (layeredText layers ++ (")" ++ ("?" ++ (" / " ++ "."))))) ++ rest)
      obtain ⟨bang, other, cutBang⟩ := exists_bang (offset + 1)
        (("(" : Text) ++ (layeredText layers ++ (")" ++ ("?" ++ (" / " ++ ".")))) ++ rest)
      obtain ⟨opening, cutOpening⟩ := exists_opening (offset + 2)
        (layeredText layers ++ (")" ++ ("?" ++ (" / " ++ "."))) ++ rest)
      obtain ⟨e, image, opened, cut⟩ :=
        ih (offset + 3) ((")" : Text) ++ ("?" ++ (" / " ++ ".")) ++ rest)
      obtain ⟨closing, cutClosing⟩ := exists_closing (offset + 3 + (layeredText layers).length)
        (("?" : Text) ++ (" / " ++ ".") ++ rest)
      obtain ⟨question, symbol, cutQuestion⟩ := @exists_quantifier .optional nofun
        (offset + 3 + (layeredText layers).length + 1) ((" / " : Text) ++ "." ++ rest)
      obtain ⟨slash, cutSlash⟩ :=
        exists_slash (offset + 3 + (layeredText layers).length + 2) (("." : Text) ++ rest)
      obtain ⟨dot', cutDot'⟩ := exists_dot (offset + 3 + (layeredText layers).length + 5) rest
      refine ⟨e.layer dot bang opening closing question slash dot',
        e.rule_layer _ _ _ _ _ _ _ image other symbol, ?_, ?_⟩
      · rw [e.countP_layer, opened]
      · rw [e.tokens_layer]
        exact cutDot.append (cutBang.append (cutOpening.append (cut.append (cutClosing.append
          (cutQuestion.append (cutSlash.append cutDot'))))))

/-- The source of a layered rule. -/
def layeredSource (layers : Nat) : Text := ("s" : Text) ++ (("<-" : Text) ++ layeredText layers)

/-- It is written in ASCII on one line. -/
theorem forall_layeredSource (layers : Nat) :
    (layeredSource layers).Forall fun c : CodePoint ↦ c.val < 0x80 ∧ c ≠ '\r' := by
  have text : (layeredText layers).Forall fun c : CodePoint ↦ c.val < 0x80 ∧ c ≠ '\r' := by
    induction layers with
    | zero => decide
    | succ layers ih =>
        simp only [layeredText, List.forall_append]
        exact ⟨by decide, by decide, by decide, ih, by decide, by decide, by decide, by decide⟩
  simp only [layeredSource, List.forall_append]
  exact ⟨by decide, by decide, text⟩

/-- Five frames for each layer, and five more, are enough to read the source. -/
theorem rulesOf_layeredSource {frames layers : Nat} (enough : 5 * layers + 5 ≤ frames) :
    Source.rulesOf frames (layeredSource layers) = .ok [("s", layeredRule layers)] := by
  obtain ⟨e, image, opened, cut⟩ := exists_tree_of_layeredText layers 3 []
  have identifier : Text.IsIdentifier "s" := ⟨by decide, by simp⟩
  have arrow : EndsIdentifier (("<-" : Text) ++ layeredText layers ++ []) :=
    endsIdentifier_cons (c := '<') (by decide) _
  have cut := (cutInto_identifier identifier 0 arrow).append ((cutInto_arrow 1 _).append cut)
  let g : GrammarTree :=
    ⟨[⟨⟨⟨.identifier, "s", 0⟩, rfl⟩, ⟨⟨.arrow, "<-", 1⟩, rfl⟩, e⟩], List.cons_ne_nil _ _⟩
  have tokens : g.tokens = [⟨.identifier, "s", 0⟩] ++ ([⟨.arrow, "<-", 1⟩] ++ e.tokens) :=
    List.append_nil _
  obtain ⟨ending, tokenized⟩ : ∃ ending : TokenOf .ending,
      tokenize (layeredSource layers) = .ok (g.tokens ++ [ending.val]) := by
    rw [tokens]
    exact ⟨⟨_, rfl⟩, cut.tokensFrom_eq⟩
  have table : g.table = .ok [("s", layeredRule layers)] := by
    rw [GrammarTree.table, List.mapM_cons, List.mapM_nil, RuleTree.entry, image]
    rfl
  have shallow : nesting 0 (g.tokens ++ [ending.val]) ≤ layers := by
    have name : Token.isOneOf ⟨.identifier, "s", 0⟩ "(" = false := rfl
    have arrow : Token.isOneOf ⟨.arrow, "<-", 1⟩ "(" = false := rfl
    have last : ending.val.isOneOf "(" = false :=
      Token.isOneOf_of_kind_ne (ending.kind_ne (by decide))
    refine Nat.le_trans (nesting_le 0 _) (Nat.le_of_eq ?_)
    simp [tokens, opened, name, arrow, last]
  have derives : g.Derives (g.tokens ++ [ending.val]) := ⟨ending, rfl⟩
  exact Source.rulesOf_of_readsAs tokenized (by omega)
    (derives.readRules_eq (List.nodup_singleton _) table frames)

/-- Six frames for each layer are not enough to link what is read. -/
theorem buildWithin_layeredRule {frames layers : Nat} (few : frames < 6 * layers + 1) (id : Nat) :
    Grammar.buildWithin frames id (Grammar.tableOf [("s", layeredRule layers)]) .null =
      .error .outOfFrames := by
  have built : Grammar.build id (Grammar.tableOf [("s", layeredRule layers)]) .null =
      .ok ⟨id, ["s"], [layeredRule layers], "s"⟩ :=
    Grammar.build_eq_ok_iff.mpr ⟨List.cons_ne_nil _ _, rfl, .cons rfl .nil, rfl,
      .cons ⟨_, rfl, link_layeredRule _ layers⟩ .nil⟩
  refine Grammar.buildWithin_eq_outOfFrames built List.mem_cons_self ?_
  rw [Operand.linkDepth, linkDepth_layeredRule]
  exact few

end Peg.Notation
