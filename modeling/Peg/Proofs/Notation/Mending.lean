import Peg.Proofs.Notation.Concatenation
import Peg.Proofs.Notation.Spellings

/-!
# Mending flawed tokens

When reading stops at a flaw, nothing is wrong in front of it: the tokens there are the first ones
of a derivation, and a few more complete it. A dot takes the place of an expression that is missing,
a closing parenthesis is added for each one that is open, and a literal or a class with a malformed
escape is closed where the escape begins.

Each reader of a part of a rule completes the part that it has begun and leaves it to its caller to
go on from there, so what has to be added grows from the inside to the outside. What is added may
stand anywhere, for derivations do not depend on the places of their tokens.
-/

namespace Peg.Notation

open Except

/-! ## What is added -/

/-- The kind of a token and its text. -/
def Token.piece (t : Token) : TokenKind × Text := (t.kind, t.text)

theorem Token.isOneOf_of_piece {t : Token} {c : CodePoint} {operators : Text}
    (h : t.piece = (.operator, [c])) (mem : c ∈ operators) : t.isOneOf operators = true := by
  obtain ⟨kind, text⟩ := Prod.mk.inj h
  exact Token.isOneOf_iff.mpr ⟨kind, c, mem, text⟩

/-- What is left of a token in front of a flaw. -/
inductive LeftOf (t : Token) (e : Error) : List Token → Prop where
  /-- Nothing, if the flaw is where the token begins. -/
  | none (here : e.offset = t.offset) : LeftOf t e []
  /-- If the flaw is inside of a literal or a class, what is spelled in front of it, closed. -/
  | closed {opening closing : CodePoint} {row : List (Spelling closing)} {behind : Text}
      (quoting : Quoting t.kind opening closing)
      (text : t.text = opening :: (written row ++ behind))
      (inside : e.offset = t.offset + 1 + (written row).length) :
      LeftOf t e [⟨t.kind, opening :: (written row ++ [closing]), t.offset⟩]

/-- The flaw is not too late: it is at some token or inside of one, and what is in front of it is
good as soon as certain tokens are added. A name that is taken is not such a flaw. -/
inductive Mendable (input : List Token) (e : Error) (good : List Token → List Token → Prop) :
    Prop where
  /-- The tokens before the one with the flaw, what is left of that one, and what is added. -/
  | intro (before : List Token) (pieces : List (TokenKind × Text)) {t : Token}
      {after left : List Token} (whole : input = before ++ t :: after) (leftOf : LeftOf t e left)
      (lexemes : ∀ p ∈ pieces, IsLexeme (some p.1) p.2)
      (other : ∀ name, e.flaw ≠ .duplicateRule name)
      (mended : ∀ row : List Token, row.map Token.piece = pieces →
        good before (before ++ left ++ row))

namespace Mendable

variable {input : List Token} {e : Error} {good good' : List Token → List Token → Prop}

theorem ne_duplicateRule (h : Mendable input e good) (name : Text) :
    e.flaw ≠ .duplicateRule name := by
  obtain ⟨-, -, -, -, -, other, -⟩ := h
  exact other name

/-- What is good in one way may be good in another one. -/
theorem mono (h : Mendable input e good)
    (weaker : ∀ before row, good before row → good' before row) : Mendable input e good' := by
  obtain ⟨before, pieces, whole, leftOf, lexemes, other, mended⟩ := h
  exact ⟨before, pieces, whole, leftOf, lexemes, other, fun row same ↦ weaker _ _ (mended row same)⟩

/-- What is read before the flaw stays in front of it. -/
theorem prepend (first : List Token) (h : Mendable input e good)
    (onward : ∀ before row, good before row → good' (first ++ before) (first ++ row)) :
    Mendable (first ++ input) e good' := by
  obtain ⟨before, pieces, whole, leftOf, lexemes, other, mended⟩ := h
  refine ⟨first ++ before, pieces, by rw [whole, List.append_assoc], leftOf, lexemes, other,
    fun row same ↦ ?_⟩
  rw [List.append_assoc, List.append_assoc, ← List.append_assoc before]
  exact onward _ _ (mended row same)

theorem extend {kind : TokenKind} {text : Text} (h : Mendable input e good)
    (lexeme : IsLexeme (some kind) text)
    (closes : ∀ before row, ∀ t : Token, t.piece = (kind, text) → good before row →
      good' before (row ++ [t])) : Mendable input e good' := by
  obtain ⟨before, pieces, whole, leftOf, lexemes, other, mended⟩ := h
  refine ⟨before, pieces ++ [(kind, text)], whole, leftOf,
    List.forall_mem_append.mpr ⟨lexemes, List.forall_mem_singleton.mpr lexeme⟩, other,
    fun row same ↦ ?_⟩
  obtain ⟨row, last, rfl, first, atEnd⟩ := List.map_eq_append_iff.mp same
  obtain ⟨t, rfl, piece⟩ := List.map_eq_singleton_iff.mp atEnd
  rw [← List.append_assoc]
  exact closes _ _ t piece (mended row first)

end Mendable

/-- The tokens have the shapes of lexemes, the ending aside. -/
def Shaped (tokens : List Token) : Prop :=
  ∀ t ∈ tokens, t.kind = .ending ∨ IsLexeme (some t.kind) t.text

/-- The tokens behind others have the shapes of lexemes if all have. -/
theorem Shaped.right {row rest : List Token} (h : Shaped (row ++ rest)) : Shaped rest :=
  fun t mem ↦ h t (List.mem_append_right row mem)

/-- The tokens behind the first one have the shapes of lexemes if all have. -/
theorem Shaped.tail {t : Token} {rest : List Token} (h : Shaped (t :: rest)) : Shaped rest :=
  (List.forall_mem_cons.mp h).2

/-- The tokens are those of a tree that has an image. -/
def Derived {T α : Type} (tokens : T → List Token) (image : T → Except ReadError α)
    (_ row : List Token) : Prop := ∃ tree a, row = tokens tree ∧ image tree = .ok a

/-- Where the reader stops at a flaw it has begun the tokens of a tree. -/
def Mends {T α : Type} (tokens : T → List Token) (image : T → Except ReadError α)
    (read : Reader α) : Prop :=
  ∀ ⦃input : List Token⦄ ⦃e : Error⦄, Shaped input → read input = .error (.flawed e) →
    Mendable input e (Derived tokens image)

/-! ## Single tokens -/

theorem takeOneOf_ne_flawed {operators : Text} {input : List Token} {e : Error} :
    takeOneOf operators input ≠ .error (.flawed e) := by
  cases input with
  | nil => rintro ⟨⟩
  | cons t rest =>
      rw [takeOneOf]
      split <;> rintro ⟨⟩

theorem atSequenceEnd_ne_flawed {input : List Token} {e : Error} :
    atSequenceEnd input ≠ .error (.flawed e) := by
  cases input with
  | nil => rintro ⟨⟩
  | cons t rest =>
      by_cases identifier : t.kind = .identifier
      · cases rest with
        | nil => simp [atSequenceEnd, atRuleHead, identifier, Token.isOneOf]
        | cons next rest =>
            rw [atSequenceEnd_of_identifier identifier]
            rintro ⟨⟩
      · rw [atSequenceEnd_of_kind_ne identifier]
        rintro ⟨⟩

theorem expectClose_eq_error {input : List Token} {e : Error}
    (h : expectClose input = .error (.flawed e)) :
    ∃ t rest, input = t :: rest ∧ e = ⟨t.offset, .expectedClose⟩ := by
  cases input with
  | nil => cases h
  | cons t rest =>
      rw [expectClose] at h
      split at h
      next => cases h
      next =>
        cases h
        exact ⟨t, rest, rfl, rfl⟩

/-- Where a token of a kind is missing there is one of another kind. -/
theorem expect_eq_error {kind : TokenKind} {flaw : Flaw} {input : List Token} {e : Error}
    (h : expect kind flaw input = .error (.flawed e)) :
    ∃ t rest, input = t :: rest ∧ t.kind ≠ kind ∧ e = ⟨t.offset, flaw⟩ := by
  cases input with
  | nil => cases h
  | cons t rest =>
      rw [expect] at h
      split at h
      next => cases h
      next other =>
        cases h
        exact ⟨t, rest, rfl, other, rfl⟩

/-- A row of spellings between its delimiters is a primary. -/
theorem Quoting.derived {kind : TokenKind} {opening closing : CodePoint}
    (h : Quoting kind opening closing) {row : List (Spelling closing)} (separated : Separated row)
    (offset : Nat) (before : List Token) :
    Derived PrimaryTree.tokens PrimaryTree.rule before
      [⟨kind, opening :: (written row ++ [closing]), offset⟩] := by
  have valid : Token.ValidEscapes ⟨kind, opening :: (written row ++ [closing]), offset⟩ :=
    ⟨_, by rw [Token.body_eq]; exact separated.spelledChars_eq _⟩
  cases h with
  | literal =>
      obtain ⟨r, image⟩ := valid.exists_literalRule
      exact ⟨.literal ⟨_, rfl⟩, r, rfl, image⟩
  | charClass =>
      obtain ⟨r, image⟩ := valid.exists_charClassRule
      exact ⟨.charClass ⟨_, rfl⟩, r, rfl, image⟩

/-- A literal or a class is closed in front of its malformed escape. -/
theorem mendable_quoted {frames : Nat} {t : Token} {rest : List Token} {e : Error}
    (shape : IsLexeme (some t.kind) t.text) (quoted : t.kind = .literal ∨ t.kind = .charClass)
    (flawed : primary (frames + 1) (t :: rest) = .error (.flawed e)) :
    Mendable (t :: rest) e (Derived PrimaryTree.tokens PrimaryTree.rule) := by
  obtain ⟨opening, closing, body, quoting, guarded, text⟩ := shape.exists_guarded quoted
  obtain ⟨kind, text', offset⟩ := t
  cases text
  obtain ⟨row, left, separated, rfl, rfl | ⟨letter, after, rfl, malformed⟩⟩ := guarded.exists_row
  · -- without a malformed escape the token is read
    rw [List.append_nil] at flawed
    obtain ⟨p, r, same, image⟩ := quoting.derived separated offset []
    have read := p.readsAs image rest (frames + 1)
    rw [← same, List.singleton_append, ReadsAs, flawed] at read
    rcases read with read | read <;> cases read
  · have stops := separated.primary_malformed malformed quoted (Token.body_eq ..) frames rest
    cases flawed.symm.trans stops
    refine ⟨[], [], rfl, .closed quoting (congrArg _ (List.append_assoc ..)) rfl, by simp,
      by simp, fun row' same ↦ ?_⟩
    obtain rfl := List.map_eq_nil_iff.mp same
    exact quoting.derived separated offset []

theorem mendable_missing {t : Token} {rest : List Token} {e : Error} (here : e.offset = t.offset)
    (other : ∀ name, e.flaw ≠ .duplicateRule name) :
    Mendable (t :: rest) e (Derived PrimaryTree.tokens PrimaryTree.rule) := by
  have lexeme : IsLexeme (some .operator) ['.'] := .operator (by simp [Text.ofString])
  refine ⟨[], [(.operator, ['.'])], rfl, .none here, List.forall_mem_singleton.mpr lexeme, other,
    fun row same ↦ ?_⟩
  obtain ⟨dot, rfl, piece⟩ := List.map_eq_singleton_iff.mp same
  exact ⟨.anyChar ⟨dot, Token.isOneOf_of_piece piece (by simp [Text.ofString])⟩, _, rfl, rfl⟩

/-! ## Expressions -/

theorem mendable_group {frames : Nat} (opening : OperatorOf "(") {rest : List Token} {e : Error}
    (trees : ReadsTrees ExpressionTree.tokens ExpressionTree.rule (expression frames))
    (h : Mends ExpressionTree.tokens ExpressionTree.rule (expression frames))
    (shaped : Shaped rest)
    (flawed : (do
      let (r, rest) ← expression frames rest
      let (_, rest) ← expectClose rest
      return (r, rest) : Except ReadError (Rule × List Token)) = .error (.flawed e)) :
    Mendable (opening.val :: rest) e (Derived PrimaryTree.tokens PrimaryTree.rule) := by
  have lexeme : IsLexeme (some .operator) [')'] := .operator (by simp [Text.ofString])
  have isClosing : ∀ {t : Token}, t.piece = (TokenKind.operator, [(')' : CodePoint)]) →
      t.isOneOf ")" = true := fun piece ↦ Token.isOneOf_of_piece piece (by simp [Text.ofString])
  obtain inner | ⟨⟨r, left⟩, inner, behind⟩ := bind_eq_error_iff.mp flawed
  · have closed : Mendable rest e fun _ row ↦ ∃ (e' : ExpressionTree) (closing : OperatorOf ")")
        (r : Rule), row = e'.tokens ++ [closing.val] ∧ e'.rule = .ok r := by
      apply (h shaped inner).extend lexeme
      rintro before row closing piece ⟨e', r, rfl, image⟩
      exact ⟨e', ⟨closing, isClosing piece⟩, r, rfl, image⟩
    apply closed.prepend [opening.val]
    rintro before row ⟨e', closing, r, rfl, image⟩
    exact ⟨.group opening e' closing, r, rfl, image⟩
  · obtain ⟨e', rfl, image⟩ := trees inner
    obtain close | ⟨⟨⟨⟩, left'⟩, -, flawed⟩ := bind_eq_error_iff.mp behind
    · obtain ⟨t, after, rfl, rfl⟩ := expectClose_eq_error close
      refine ⟨opening.val :: e'.tokens, [(.operator, [')'])], rfl, .none rfl,
        List.forall_mem_singleton.mpr lexeme, by simp, fun row same ↦ ?_⟩
      obtain ⟨closing, rfl, piece⟩ := List.map_eq_singleton_iff.mp same
      rw [List.append_nil]
      exact ⟨.group opening e' ⟨closing, isClosing piece⟩, r, rfl, image⟩
    · cases flawed

theorem mends_primary {frames : Nat}
    (trees : ReadsTrees ExpressionTree.tokens ExpressionTree.rule (expression frames))
    (h : Mends ExpressionTree.tokens ExpressionTree.rule (expression frames)) :
    Mends PrimaryTree.tokens PrimaryTree.rule (primary (frames + 1)) := by
  intro input e shaped flawed
  cases input with
  | nil => cases flawed
  | cons t rest =>
      obtain ⟨shape, others⟩ := List.forall_mem_cons.mp shaped
      have stopped := flawed
      rw [primary] at flawed
      split at flawed
      next => cases flawed
      next kind =>
        exact mendable_quoted (shape.resolve_left (by simp [kind])) (.inl kind) stopped
      next kind =>
        exact mendable_quoted (shape.resolve_left (by simp [kind])) (.inr kind) stopped
      next kind =>
        split at flawed
        next => cases flawed
        next =>
          split at flawed
          next opening =>
            have isOpening : t.isOneOf "(" = true :=
              Token.isOneOf_iff.mpr ⟨kind, '(', by simp [Text.ofString], opening⟩
            exact mendable_group ⟨t, isOpening⟩ trees h others flawed
          next =>
            cases flawed
            exact mendable_missing rfl (by simp)
      next =>
        cases flawed
        exact mendable_missing rfl (by simp)
      next =>
        cases flawed
        exact mendable_missing rfl (by simp)

theorem mends_suffixed {frames : Nat}
    (h : Mends PrimaryTree.tokens PrimaryTree.rule (primary frames)) :
    Mends SuffixedTree.tokens SuffixedTree.rule (suffixed (frames + 1)) := by
  intro input e shaped flawed
  rw [suffixed] at flawed
  obtain inner | ⟨⟨r, left⟩, -, flawed⟩ := bind_eq_error_iff.mp flawed
  · apply (h shaped inner).mono
    rintro before row ⟨p, r, rfl, image⟩
    exact ⟨.plain p, r, rfl, image⟩
  · obtain taken | ⟨⟨_ | operator, left'⟩, -, flawed⟩ := bind_eq_error_iff.mp flawed
    · exact absurd taken takeOneOf_ne_flawed
    · cases flawed
    · cases flawed

theorem mends_item {frames : Nat}
    (h : Mends SuffixedTree.tokens SuffixedTree.rule (suffixed frames)) :
    Mends ItemTree.tokens ItemTree.rule (item (frames + 1)) := by
  intro input e shaped flawed
  rw [item] at flawed
  obtain stopped | ⟨⟨found, left⟩, taken, tail⟩ := bind_eq_error_iff.mp flawed
  · exact absurd stopped takeOneOf_ne_flawed
  · obtain ⟨rfl, rfl⟩ | ⟨operator, rfl, rfl⟩ := takeOneOf_eq_ok taken
    · apply (h shaped tail).mono
      rintro before row ⟨s, r, rfl, image⟩
      exact ⟨.plain s, r, rfl, image⟩
    · obtain inner | ⟨⟨r, left'⟩, -, last⟩ := bind_eq_error_iff.mp tail
      · apply (h shaped.tail inner).prepend [operator.val]
        rintro before row ⟨s, r, rfl, image⟩
        exact ⟨.lookahead operator s, _, rfl, by rw [ItemTree.rule, image]; rfl⟩
      · cases last

/-- A sequence is mended if items are: it ends behind the item that is mended. -/
theorem mends_itemsWith {item : Reader Rule} (trees : ReadsTrees ItemTree.tokens ItemTree.rule item)
    (h : Mends ItemTree.tokens ItemTree.rule item) (count : Nat) :
    Mends SequenceTree.tokens SequenceTree.items (itemsWith item count) := by
  induction count with
  | zero =>
      intro input e shaped flawed
      cases flawed
  | succ count ih =>
      intro input e shaped flawed
      rw [itemsWith] at flawed
      obtain stopped | ⟨ends, -, flawed⟩ := bind_eq_error_iff.mp flawed
      · exact absurd stopped atSequenceEnd_ne_flawed
      · split at flawed
        next => cases flawed
        next =>
          obtain first | ⟨⟨r, left⟩, first, tail⟩ := bind_eq_error_iff.mp flawed
          · apply (h shaped first).mono
            rintro before row ⟨i, r, rfl, image⟩
            refine ⟨.more i .empty, [r], (List.append_nil _).symm, ?_⟩
            rw [SequenceTree.items, image]
            rfl
          · obtain ⟨i, rfl, image⟩ := trees first
            obtain others | ⟨⟨rs, left'⟩, -, last⟩ := bind_eq_error_iff.mp tail
            · apply (ih shaped.right others).prepend i.tokens
              rintro before row ⟨s, rs, rfl, images⟩
              refine ⟨.more i s, r :: rs, rfl, ?_⟩
              rw [SequenceTree.items, image, images]
              rfl
            · cases last

theorem mends_sequence {frames : Nat}
    (trees : ReadsTrees ItemTree.tokens ItemTree.rule (item frames))
    (h : Mends ItemTree.tokens ItemTree.rule (item frames)) :
    Mends SequenceTree.tokens SequenceTree.rule (sequence (frames + 1)) := by
  intro input e shaped flawed
  rw [sequence] at flawed
  obtain all | ⟨⟨items, left⟩, -, flawed⟩ := bind_eq_error_iff.mp flawed
  · apply (mends_itemsWith trees h _ shaped all).mono
    rintro before row ⟨s, rs, rfl, images⟩
    exact ⟨s, _, rfl, by rw [SequenceTree.rule, images]; rfl⟩
  · cases flawed

/-- Sequences behind slashes are mended if sequences are: with them, any expression that begins with
a sequence is. -/
theorem mendable_alternativesWith {sequence : Reader Rule}
    (trees : ReadsTrees SequenceTree.tokens SequenceTree.rule sequence)
    (h : Mends SequenceTree.tokens SequenceTree.rule sequence) {count : Nat} {input : List Token}
    {e : Error} (shaped : Shaped input)
    (flawed : alternativesWith sequence count input = .error (.flawed e)) {s : SequenceTree}
    {r : Rule} (image : s.rule = .ok r) :
    Mendable (s.tokens ++ input) e (Derived ExpressionTree.tokens ExpressionTree.alternatives) := by
  induction count generalizing input s r with
  | zero => cases flawed
  | succ count ih =>
      rw [alternativesWith] at flawed
      obtain ⟨items, images, -⟩ := bind_eq_ok_iff.mp image
      obtain stopped | ⟨⟨found, left⟩, taken, tail⟩ := bind_eq_error_iff.mp flawed
      · exact absurd stopped takeOneOf_ne_flawed
      · obtain ⟨rfl, rfl⟩ | ⟨slash, rfl, rfl⟩ := takeOneOf_eq_ok taken
        · cases tail
        · have others : Shaped left := shaped.tail
          -- whatever expression comes behind the slash belongs to the one that begins before it
          have behind : Mendable left e
              (Derived ExpressionTree.tokens ExpressionTree.alternatives) := by
            obtain second | ⟨⟨r', left'⟩, second, tail'⟩ := bind_eq_error_iff.mp tail
            · apply (h others second).mono
              rintro before row ⟨s', r', rfl, image'⟩
              obtain ⟨items', images', -⟩ := bind_eq_ok_iff.mp image'
              exact ⟨.last s', _, rfl, by rw [ExpressionTree.alternatives, images']; rfl⟩
            · obtain ⟨s', rfl, image'⟩ := trees second
              obtain more | ⟨⟨rs, left''⟩, -, last⟩ := bind_eq_error_iff.mp tail'
              · exact ih others.right more image'
              · cases last
          rw [List.append_cons]
          apply behind.prepend
          rintro before row ⟨e', rs, rfl, images'⟩
          refine ⟨.more s slash e', combined .sequence items :: rs, ?_, ?_⟩
          · rw [ExpressionTree.tokens, ← List.append_cons]
          · rw [ExpressionTree.alternatives, images, images']
            rfl

theorem mends_expression {frames : Nat}
    (trees : ReadsTrees SequenceTree.tokens SequenceTree.rule (sequence frames))
    (h : Mends SequenceTree.tokens SequenceTree.rule (sequence frames)) :
    Mends ExpressionTree.tokens ExpressionTree.rule (expression (frames + 1)) := by
  intro input e shaped flawed
  rw [expression] at flawed
  obtain first | ⟨⟨r, left⟩, first, tail⟩ := bind_eq_error_iff.mp flawed
  · apply (h shaped first).mono
    rintro before row ⟨s, r, rfl, image⟩
    obtain ⟨items, images, -⟩ := bind_eq_ok_iff.mp image
    exact ⟨.last s, _, rfl, by rw [ExpressionTree.rule, ExpressionTree.alternatives, images]; rfl⟩
  · obtain ⟨s, rfl, image⟩ := trees first
    obtain others | ⟨⟨rs, left'⟩, -, last⟩ := bind_eq_error_iff.mp tail
    · apply (mendable_alternativesWith trees h shaped.right others image).mono
      rintro before row ⟨e', rs, rfl, images⟩
      exact ⟨e', _, rfl, by rw [ExpressionTree.rule, images]; rfl⟩
    · cases last

/-- All readers of parts of rules mend what they have begun, whatever the number of frames. -/
theorem mends_all (frames : Nat) :
    Mends ExpressionTree.tokens ExpressionTree.rule (expression frames) ∧
    Mends SequenceTree.tokens SequenceTree.rule (sequence frames) ∧
    Mends ItemTree.tokens ItemTree.rule (item frames) ∧
    Mends SuffixedTree.tokens SuffixedTree.rule (suffixed frames) ∧
    Mends PrimaryTree.tokens PrimaryTree.rule (primary frames) := by
  induction frames with
  | zero =>
      refine ⟨?_, ?_, ?_, ?_, ?_⟩
      all_goals
        intro input e shaped flawed
        cases flawed
  | succ frames ih =>
      obtain ⟨expression, sequence, item, suffixed, primary⟩ := ih
      obtain ⟨expressions, sequences, items, -, -⟩ := readsTrees_all frames
      exact ⟨mends_expression sequences sequence, mends_sequence items item, mends_item suffixed,
        mends_suffixed primary, mends_primary expressions expression⟩

/-! ## What is left behind -/

theorem sequenceComplete_of_itemsWith {item : Reader Rule} {count : Nat} {input rest : List Token}
    {rs : List Rule} (read : itemsWith item count input = .ok (rs, rest)) :
    SequenceComplete rest := by
  induction count generalizing input rs with
  | zero => cases read
  | succ count ih =>
      rw [itemsWith] at read
      obtain ⟨ends, atEnd, tail⟩ := bind_eq_ok_iff.mp read
      split at tail
      next yes =>
        cases tail
        rw [SequenceComplete, atEnd, yes]
      next =>
        obtain ⟨⟨r, left⟩, -, tail'⟩ := bind_eq_ok_iff.mp tail
        obtain ⟨⟨rs', left'⟩, others, last⟩ := bind_eq_ok_iff.mp tail'
        cases last
        exact ih others

theorem sequenceComplete_of_sequence {frames : Nat} {input rest : List Token} {r : Rule}
    (read : sequence frames input = .ok (r, rest)) : SequenceComplete rest := by
  cases frames with
  | zero => cases read
  | succ frames =>
      rw [sequence] at read
      obtain ⟨⟨items, left⟩, all, last⟩ := bind_eq_ok_iff.mp read
      cases last
      exact sequenceComplete_of_itemsWith all

theorem expressionComplete_of_alternativesWith {frames count : Nat} {input rest : List Token}
    {rs : List Rule} (complete : SequenceComplete input)
    (read : alternativesWith (sequence frames) count input = .ok (rs, rest)) :
    ExpressionComplete rest := by
  induction count generalizing input rs with
  | zero => cases read
  | succ count ih =>
      cases input with
      | nil => cases complete
      | cons t more =>
          rw [alternativesWith] at read
          obtain ⟨⟨found, left⟩, taken, tail⟩ := bind_eq_ok_iff.mp read
          rw [takeOneOf] at taken
          split at taken
          next =>
            cases taken
            obtain ⟨⟨r, left'⟩, second, tail'⟩ := bind_eq_ok_iff.mp tail
            obtain ⟨⟨rs', left''⟩, others, last⟩ := bind_eq_ok_iff.mp tail'
            cases last
            exact ih (sequenceComplete_of_sequence second) others
          next other =>
            cases taken
            cases tail
            exact ⟨complete, Bool.eq_false_iff.mpr other⟩

theorem expressionComplete_of_expression {frames : Nat} {input rest : List Token} {r : Rule}
    (read : expression frames input = .ok (r, rest)) : ExpressionComplete rest := by
  cases frames with
  | zero => cases read
  | succ frames =>
      rw [expression] at read
      obtain ⟨⟨r', left⟩, first, tail⟩ := bind_eq_ok_iff.mp read
      obtain ⟨⟨rs, left'⟩, others, last⟩ := bind_eq_ok_iff.mp tail
      cases last
      exact expressionComplete_of_alternativesWith (sequenceComplete_of_sequence first) others

/-! ## Grammars -/

/-- The tokens are those of rules, and of one at least if none has been seen before. A name is taken
by the last one only, and only if its head stood before the flaw. -/
inductive Begun (seen : List Text) (before row : List Token) : Prop where
  /-- The rules are new. -/
  | new {rules : List RuleTree} {entries : List (Text × Rule)}
      (tokens : row = rules.flatMap RuleTree.tokens)
      (images : rules.mapM RuleTree.entry = .ok entries) (some : seen = [] → rules ≠ [])
      (new : New seen rules)
  /-- The name of the last rule is taken. -/
  | taken {earlier : List RuleTree} {r : RuleTree} {entries : List (Text × Rule)}
      {left : List Token} (tokens : row = (earlier ++ [r]).flatMap RuleTree.tokens)
      (images : (earlier ++ [r]).mapM RuleTree.entry = .ok entries) (taken : Taken seen earlier r)
      (head : before = earlier.flatMap RuleTree.tokens ++ r.name.val :: r.arrow.val :: left)

/-- The flaw is at the head of a rule with a name that is taken. -/
def TakenAt (seen : List Text) (input : List Token) (e : Error) : Prop :=
  ∃ earlier r rest, input = earlier.flatMap RuleTree.tokens ++ r.name.val :: r.arrow.val :: rest ∧
    Taken seen earlier r ∧ e = ⟨r.name.val.offset, .duplicateRule r.name.val.text⟩

/-- A rule goes before the tokens of others. -/
theorem Begun.cons {seen : List Text} {r : RuleTree} {entry : Text × Rule}
    {before row : List Token} (image : r.entry = .ok entry) (unseen : r.name.val.text ∉ seen)
    (h : Begun (r.name.val.text :: seen) before row) :
    Begun seen (r.tokens ++ before) (r.tokens ++ row) := by
  cases h with
  | @new rules entries tokens images _ new =>
      refine @Begun.new _ _ _ (r :: rules) (entry :: entries) ?_ ?_ ?_
        (new_cons_iff.mpr ⟨unseen, new⟩)
      · rw [tokens, List.flatMap_cons]
      · rw [List.mapM_cons, image, images]
        rfl
      · exact fun _ ↦ List.cons_ne_nil r rules
  | @taken earlier r' entries left tokens images taken head =>
      refine @Begun.taken _ _ _ (r :: earlier) r' (entry :: entries) left ?_ ?_
        (taken_cons_iff.mpr ⟨unseen, taken⟩) ?_
      · rw [tokens, List.cons_append, List.flatMap_cons]
      · rw [List.cons_append, List.mapM_cons, image, images]
        rfl
      · rw [head, List.flatMap_cons, List.append_assoc]

/-- A rule goes before others one of which has a name that is taken. -/
theorem TakenAt.cons {seen : List Text} {r : RuleTree} {input : List Token} {e : Error}
    (unseen : r.name.val.text ∉ seen) (h : TakenAt (r.name.val.text :: seen) input e) :
    TakenAt seen (r.tokens ++ input) e := by
  obtain ⟨earlier, r', rest, rfl, taken, same⟩ := h
  refine ⟨r :: earlier, r', rest, ?_, taken_cons_iff.mpr ⟨unseen, taken⟩, same⟩
  rw [List.flatMap_cons, List.append_assoc]

/-- A rule alone is new, or its name is taken. -/
theorem Begun.single {seen : List Text} {r : RuleTree} {entry : Text × Rule}
    (image : r.entry = .ok entry) (before : List Token) :
    Begun seen (r.name.val :: r.arrow.val :: before) r.tokens := by
  have images : [r].mapM RuleTree.entry = .ok [entry] := by
    rw [List.mapM_cons, image]
    rfl
  have tokens : r.tokens = [r].flatMap RuleTree.tokens := (List.append_nil _).symm
  by_cases old : r.name.val.text ∈ seen
  · exact @Begun.taken _ _ _ [] r _ before tokens images ⟨.nil seen, old⟩ rfl
  · exact .new tokens images (fun _ ↦ List.cons_ne_nil r []) (new_cons_iff.mpr ⟨old, .nil _⟩)

/-- A name and an arrow are a rule, whose body matches the empty text. -/
theorem Begun.first (name : TokenOf .identifier) (arrow : TokenOf .arrow) (before : List Token) :
    Begun [] before [name.val, arrow.val] :=
  @Begun.new [] before _ [⟨name, arrow, .last .empty⟩] _ rfl rfl
    (fun _ ↦ List.cons_ne_nil _ []) (new_cons_iff.mpr ⟨List.not_mem_nil, .nil _⟩)

theorem isLexeme_arrow : IsLexeme (some .arrow) "<-" := .arrow (.inl rfl)

/-- Where no rule begins the rules may end, and a rule takes the place of the first one. -/
theorem mendable_head {seen : List Text} {t : Token} {rest : List Token} {e : Error}
    (here : e.offset = t.offset) (other : ∀ name, e.flaw ≠ .duplicateRule name) :
    Mendable (t :: rest) e (Begun seen) := by
  by_cases none : seen = []
  · subst none
    have lexeme : IsLexeme (some .identifier) "a" := .identifier ⟨by decide, nofun⟩
    refine ⟨[], [(.identifier, "a"), (.arrow, "<-")], rfl, .none here,
      List.forall_mem_cons.mpr ⟨lexeme, List.forall_mem_singleton.mpr isLexeme_arrow⟩, other,
      fun row same ↦ ?_⟩
    obtain ⟨name, last, rfl, nameIs, same⟩ := List.map_eq_cons_iff.mp same
    obtain ⟨arrow, rfl, arrowIs⟩ := List.map_eq_singleton_iff.mp same
    exact .first ⟨name, congrArg Prod.fst nameIs⟩ ⟨arrow, congrArg Prod.fst arrowIs⟩ []
  · refine ⟨[], [], rfl, .none here, by simp, other, fun row same ↦ ?_⟩
    obtain rfl := List.map_eq_nil_iff.mp same
    exact @Begun.new _ _ _ [] [] rfl rfl (fun nil ↦ absurd nil none) (.nil seen)

theorem mendable_name (name : TokenOf .identifier) (t : Token) (rest : List Token) :
    Mendable (name.val :: t :: rest) ⟨t.offset, .expectedArrow⟩ (Begun []) := by
  refine ⟨[name.val], [(.arrow, "<-")], rfl, .none rfl,
    List.forall_mem_singleton.mpr isLexeme_arrow, by simp, fun row same ↦ ?_⟩
  obtain ⟨arrow, rfl, arrowIs⟩ := List.map_eq_singleton_iff.mp same
  exact .first name ⟨arrow, congrArg Prod.fst arrowIs⟩ [name.val]

theorem ExpressionComplete.kind_eq_arrow {name t : Token} {rest : List Token}
    (h : ExpressionComplete (name :: t :: rest)) (identifier : name.kind = .identifier) :
    t.kind = .arrow := by
  have atEnd := h.sequenceComplete
  rw [SequenceComplete, atSequenceEnd_of_identifier identifier] at atEnd
  exact of_decide_eq_true (Except.ok.inj atEnd)

/-- Where a rule stops at a flaw, what comes before is the beginning of a rule, or its name is
taken. A name without an arrow is only found at the head of the first rule: what comes behind
another rule ends the expression of that one. -/
theorem mendable_or_takenAt_of_ruleWith {frames : Nat} {seen : List Text} {input : List Token}
    {e : Error} (shaped : Shaped input) (complete : seen = [] ∨ ExpressionComplete input)
    (flawed : ruleWith (expression frames) seen input = .error (.flawed e)) :
    Mendable input e (Begun seen) ∨ TakenAt seen input e := by
  rw [ruleWith] at flawed
  obtain noName | ⟨⟨name, left⟩, nameTaken, tail⟩ := bind_eq_error_iff.mp flawed
  · obtain ⟨t, rest, rfl, -, rfl⟩ := expect_eq_error noName
    exact .inl (mendable_head rfl (by simp))
  · obtain ⟨identifier, rfl⟩ := expect_eq_ok nameTaken
    obtain noArrow | ⟨⟨arrow, left'⟩, arrowTaken, tail'⟩ := bind_eq_error_iff.mp tail
    · obtain ⟨t, rest, rfl, other, rfl⟩ := expect_eq_error noArrow
      obtain rfl := complete.resolve_right fun complete ↦ other (complete.kind_eq_arrow identifier)
      exact .inl (mendable_name ⟨name, identifier⟩ t rest)
    · obtain ⟨kind, rfl⟩ := expect_eq_ok arrowTaken
      obtain body | ⟨⟨r, rest⟩, body, last⟩ := bind_eq_error_iff.mp tail'
      · refine .inl (((mends_all frames).1 shaped.tail.tail body).prepend [name, arrow] ?_)
        rintro before row ⟨e', r, rfl, image⟩
        let rule : RuleTree := ⟨⟨name, identifier⟩, ⟨arrow, kind⟩, e'⟩
        have entry : rule.entry = .ok (name.text, r) := by
          rw [RuleTree.entry, image]
          rfl
        exact .single entry before
      · dsimp only at last
        split at last
        next old =>
          cases last
          obtain ⟨e', rfl, -⟩ := (readsTrees_all frames).1 body
          exact .inr ⟨[], ⟨⟨name, identifier⟩, ⟨arrow, kind⟩, e'⟩, _, rfl, ⟨.nil seen, old⟩, rfl⟩
        next => cases last

theorem expressionComplete_of_ruleWith {frames : Nat} {seen : List Text} {input rest : List Token}
    {entry : Text × Rule} (read : ruleWith (expression frames) seen input = .ok (entry, rest)) :
    ExpressionComplete rest := by
  rw [ruleWith] at read
  obtain ⟨⟨name, left⟩, -, tail⟩ := bind_eq_ok_iff.mp read
  obtain ⟨⟨arrow, left'⟩, -, tail'⟩ := bind_eq_ok_iff.mp tail
  obtain ⟨⟨r, left''⟩, body, last⟩ := bind_eq_ok_iff.mp tail'
  dsimp only at last
  split at last
  next => cases last
  next =>
    cases last
    exact expressionComplete_of_expression body

/-- Where rules stop at a flaw, what comes before is the beginning of rules, or a name is taken. -/
theorem mendable_or_takenAt_of_rulesWith {frames count : Nat} {seen : List Text}
    {input : List Token} {e : Error} (shaped : Shaped input)
    (complete : seen = [] ∨ ExpressionComplete input)
    (flawed : rulesWith (expression frames) count seen input = .error (.flawed e)) :
    Mendable input e (Begun seen) ∨ TakenAt seen input e := by
  induction count generalizing seen input with
  | zero => cases flawed
  | succ count ih =>
      cases input with
      | nil => cases flawed
      | cons t more =>
          rw [rulesWith] at flawed
          split at flawed
          next => cases flawed
          next =>
            obtain first | ⟨⟨entry, left⟩, first, tail⟩ := bind_eq_error_iff.mp flawed
            · exact mendable_or_takenAt_of_ruleWith shaped complete first
            · obtain others | ⟨⟨entries, left'⟩, -, last⟩ := bind_eq_error_iff.mp tail
              · obtain ⟨r, whole, image, unseen⟩ :=
                  exists_tree_of_ruleWith (readsTrees_all frames).1 first
                obtain ⟨body, -, rfl⟩ := r.exists_body image
                rw [whole] at shaped ⊢
                have complete := expressionComplete_of_ruleWith first
                refine (ih shaped.right (.inr complete) others).imp ?_ (.cons unseen)
                exact fun mendable ↦ mendable.prepend r.tokens fun _ _ ↦ .cons image unseen
              · cases last

/-- Where tokens stop at a flaw, what comes before is the beginning of a grammar, or a name is
taken. -/
theorem mendable_or_takenAt_of_readRules {frames : Nat} {tokens : List Token} {e : Error}
    (shaped : Shaped tokens) (flawed : readRules frames tokens = .error (.flawed e)) :
    Mendable tokens e (Begun []) ∨ TakenAt [] tokens e := by
  obtain grammar | ⟨entries, -, last⟩ := bind_eq_error_iff.mp flawed
  · obtain rules | ⟨⟨entries, rest⟩, rules, tail⟩ := bind_eq_error_iff.mp grammar
    · exact mendable_or_takenAt_of_rulesWith shaped (.inl rfl) rules
    · cases entries with
      | nil =>
          obtain ⟨rules, ending, more, rfl, rfl, images, -⟩ :=
            exists_trees_of_rulesWith (readsTrees_all frames).1 rules
          cases mapM_eq_ok_iff.mp images
          cases tail
          exact .inl (mendable_head rfl (by simp))
      | cons entry entries => cases tail
  · cases last

end Peg.Notation
