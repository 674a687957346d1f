import Peg.Proofs.Notation.Lexemes
import Peg.Proofs.Notation.Reading
import Peg.Source.Basic

/-!
# What is printed is read back

The tokens of a printed rule are those of a derivation, and its image is the rule itself, without
the slots of its references.
-/

namespace Peg

open Except

namespace Notation

/-! ## Spelled characters -/

/-- The text spells the characters, whatever comes after it. -/
def Spells (text : Text) (chars : List Spelled) : Prop :=
  ∀ offset rest, spelledChars offset (text ++ rest) =
    (spelledChars (offset + text.length) rest).map (chars ++ ·)

namespace Spells

/-- No text spells no characters. -/
theorem nil : Spells [] [] := by
  intro offset rest
  rw [List.nil_append, List.length_nil, Nat.add_zero]
  cases spelledChars offset rest <;> rfl

/-- Texts after each other spell their characters after each other. -/
theorem append {text text' : Text} {chars chars' : List Spelled} (h : Spells text chars)
    (h' : Spells text' chars') : Spells (text ++ text') (chars ++ chars') := by
  intro offset rest
  rw [List.append_assoc, h, h', List.length_append, Nat.add_assoc]
  cases spelledChars (offset + (text.length + text'.length)) rest with
  | error e => rfl
  | ok more =>
      show Except.ok (chars ++ (chars' ++ more)) = Except.ok (chars ++ chars' ++ more)
      rw [List.append_assoc]

/-- Texts in a row spell their characters in a row. -/
theorem flatMap {α : Type} {f : α → Text} {chars : α → List Spelled}
    (h : ∀ a, Spells (f a) (chars a)) (as : List α) :
    Spells (as.flatMap f) (as.flatMap chars) := by
  induction as with
  | nil => exact nil
  | cons a as ih =>
      rw [List.flatMap_cons, List.flatMap_cons]
      exact (h a).append ih

/-- A character other than the backslash spells itself. -/
theorem singleton {c : CodePoint} (h : c ≠ '\\') : Spells [c] [⟨c, false⟩] := by
  intro offset rest
  rw [List.singleton_append, spelledChars_cons_of_ne h]
  rfl

/-- A character is spelled with a backslash if it is special, and without one otherwise. -/
theorem spelling {special : Text} (backslash_mem : CodePoint.ofChar '\\' ∈ special)
    (plain : ∀ c ∈ special, ∀ after, escape c after = .ok (c, 0)) (c : CodePoint) :
    Spells (spelling special c) [⟨c, special.contains c⟩] := by
  unfold Notation.spelling
  split
  next mem =>
    intro offset rest
    show spelledChars offset ('\\' :: c :: rest) = _
    rw [spelledChars_escape, plain c (List.contains_iff_mem.mp mem), mem]
    rfl
  next ordinary =>
    rw [Bool.not_eq_true _ |>.mp ordinary]
    refine singleton ?_
    rintro rfl
    exact ordinary (List.contains_iff_mem.mpr backslash_mem)

/-- The characters of a whole text. -/
theorem spelledChars_eq {text : Text} {chars : List Spelled} (h : Spells text chars)
    (offset : Nat) : spelledChars offset text = .ok chars := by
  have whole := h offset []
  rw [List.append_nil, spelledChars_nil] at whole
  rw [whole]
  show Except.ok (chars ++ []) = Except.ok chars
  rw [List.append_nil]

end Spells

theorem escape_of_mem_specialInLiteral {c : CodePoint} (h : c ∈ specialInLiteral) (after : Text) :
    escape c after = .ok (c, 0) := by
  simp only [specialInLiteral, Text.ofString, String.reduceToList, List.map_cons, List.map_nil,
    List.mem_cons, List.not_mem_nil, or_false] at h
  rcases h with rfl | rfl <;> rfl

theorem escape_of_mem_specialInClass {c : CodePoint} (h : c ∈ specialInClass) (after : Text) :
    escape c after = .ok (c, 0) := by
  simp only [specialInClass, Text.ofString, String.reduceToList, List.map_cons, List.map_nil,
    List.mem_cons, List.not_mem_nil, or_false] at h
  rcases h with rfl | rfl | rfl | rfl <;> rfl

/-! ## Literals and classes -/

/-- What stands between the delimiters of a token. -/
theorem Token.body_eq (kind : TokenKind) (opening closing : CodePoint) (body : Text)
    (offset : Nat) :
    (⟨kind, opening :: (body ++ [closing]), offset⟩ : Token).body = body := by
  rw [Token.body, List.drop_one, List.tail_cons, List.dropLast_concat]

theorem literalRule_printLiteral (t : Text) (offset : Nat) :
    literalRule ⟨.literal, printLiteral t, offset⟩ = .ok (.literal t) := by
  have spells : Spells (t.flatMap (spelling specialInLiteral))
      (t.flatMap fun c ↦ [⟨c, specialInLiteral.contains c⟩]) :=
    .flatMap (.spelling (by simp [specialInLiteral, Text.ofString])
      fun _ mem ↦ escape_of_mem_specialInLiteral mem) t
  have body : (⟨.literal, printLiteral t, offset⟩ : Token).body =
      t.flatMap (spelling specialInLiteral) := Token.body_eq _ '\'' '\'' _ offset
  rw [literalRule, body, spelledIn, spells.spelledChars_eq]
  show Except.ok (Rule.literal _) = Except.ok (Rule.literal t)
  simp [List.map_flatMap]

/-- The ends of a range as spelled characters, with the dash between them. -/
def spelledRange (r : CharRange) : List Spelled :=
  [⟨r.low, specialInClass.contains r.low⟩, ⟨'-', false⟩,
    ⟨r.high, specialInClass.contains r.high⟩]

theorem spells_printRange (r : CharRange) : Spells (printRange r) (spelledRange r) := by
  have char : ∀ c, Spells (spelling specialInClass c) [⟨c, specialInClass.contains c⟩] :=
    .spelling (by simp [specialInClass, Text.ofString])
      fun _ mem ↦ escape_of_mem_specialInClass mem
  have dash : Spells ['-'] [⟨'-', false⟩] := .singleton (by simp)
  exact ((char r.low).append dash).append (char r.high)

theorem rangesOf_spelledRange (ranges : List CharRange)
    (low_le_high : ∀ r ∈ ranges, r.low ≤ r.high) :
    rangesOf (ranges.flatMap spelledRange) = ranges := by
  induction ranges with
  | nil => rw [List.flatMap_nil, rangesOf]
  | cons r ranges ih =>
      have between : CharRange.between r.low r.high = r := by
        rw [CharRange.between, if_pos (low_le_high r List.mem_cons_self)]
      have others := ih fun r' mem ↦ low_le_high r' (List.mem_cons_of_mem r mem)
      rw [List.flatMap_cons, spelledRange, List.cons_append, List.cons_append, List.cons_append,
        List.nil_append, rangesOf, if_pos rfl, between, others]

/-- A printed class is read as its ranges. -/
theorem charClassRule_printClass {ranges : List CharRange} (ranges_ne_nil : ranges ≠ [])
    (low_le_high : ∀ r ∈ ranges, r.low ≤ r.high) (offset : Nat) :
    charClassRule ⟨.charClass, printClass ranges, offset⟩ = .ok (.charRange ranges) := by
  have spells : Spells (ranges.flatMap printRange) (ranges.flatMap spelledRange) :=
    .flatMap spells_printRange ranges
  have body : (⟨.charClass, printClass ranges, offset⟩ : Token).body =
      ranges.flatMap printRange := Token.body_eq _ '[' ']' _ offset
  have members : ¬ (ranges.flatMap printRange).head? = some ('^' : CodePoint) := by
    cases ranges with
    | nil => exact (ranges_ne_nil rfl).elim
    | cons r ranges =>
        rw [List.flatMap_cons, printRange, spelling]
        split
        next => simp [Text.ofString]
        next ordinary =>
          intro head
          have low : r.low = '^' := by simpa [Text.ofString] using head
          rw [low] at ordinary
          exact ordinary (by simp [specialInClass, Text.ofString])
  rw [charClassRule, body, if_neg members, spelledIn, spells.spelledChars_eq]
  show Except.ok (classRule _) = _
  rw [classRule, rangesOf_spelledRange ranges low_le_high]
  cases ranges with
  | nil => exact (ranges_ne_nil rfl).elim
  | cons r ranges => rfl

theorem charClassRule_outsideNothing (offset : Nat) :
    charClassRule ⟨.charClass, "[^]", offset⟩ =
      .ok (.sequence [.notFollowedBy (.charRange []), .anyChar]) := by
  have body : (⟨.charClass, "[^]", offset⟩ : Token).body = (['^'] : Text) := rfl
  rw [charClassRule, body, List.head?_cons, if_pos rfl, List.drop_one, List.tail_cons, spelledIn,
    spelledChars_nil]
  rfl

theorem charClassRule_nothing (offset : Nat) :
    charClassRule ⟨.charClass, "[]", offset⟩ = .ok (.choice []) := by
  have body : (⟨.charClass, "[]", offset⟩ : Token).body = [] := rfl
  rw [charClassRule, body, List.head?_nil, if_neg (by simp), spelledIn, spelledChars_nil]
  rfl

/-! ## Operators -/

def operatorAt {c : CodePoint} {operators : Text} (mem : c ∈ operators) (offset : Nat) :
    OperatorOf operators :=
  ⟨⟨.operator, [c], offset⟩, Token.isOneOf_iff.mpr ⟨rfl, c, mem, rfl⟩⟩

theorem cutInto_operatorAt {c : CodePoint} {operators : Text} (mem : c ∈ operators)
    (operator : c ∈ ("/&!?*+()." : Text)) (ne : c ≠ '/') (offset : Nat) (rest : Text) :
    CutInto [c] offset [(operatorAt mem offset).val] rest :=
  cutInto_operator operator offset (opensComment_of_ne ne rest)

theorem exists_opening (offset : Nat) (rest : Text) :
    ∃ opening : OperatorOf "(", CutInto "(" offset [opening.val] rest :=
  ⟨_, cutInto_operatorAt (c := '(') (by simp [Text.ofString]) (by simp [Text.ofString]) (by simp)
    offset rest⟩

theorem exists_closing (offset : Nat) (rest : Text) :
    ∃ closing : OperatorOf ")", CutInto ")" offset [closing.val] rest :=
  ⟨_, cutInto_operatorAt (c := ')') (by simp [Text.ofString]) (by simp [Text.ofString]) (by simp)
    offset rest⟩

theorem exists_dot (offset : Nat) (rest : Text) :
    ∃ dot : OperatorOf ".", CutInto "." offset [dot.val] rest :=
  ⟨_, cutInto_operatorAt (c := '.') (by simp [Text.ofString]) (by simp [Text.ofString]) (by simp)
    offset rest⟩

theorem exists_bang (offset : Nat) (rest : Text) :
    ∃ bang : OperatorOf "&!", bang.val.text ≠ "&" ∧ CutInto "!" offset [bang.val] rest := by
  have mem : CodePoint.ofChar '!' ∈ ("&!" : Text) := by simp [Text.ofString]
  exact ⟨operatorAt mem offset, by simp [operatorAt, Text.ofString],
    cutInto_operatorAt mem (by simp [Text.ofString]) (by simp) offset rest⟩

/-- A slash between spaces is cut into its token. -/
theorem exists_slash (offset : Nat) (rest : Text) :
    ∃ slash : OperatorOf "/", CutInto " / " offset [slash.val] rest := by
  have mem : CodePoint.ofChar '/' ∈ ("/" : Text) := by simp [Text.ofString]
  refine ⟨operatorAt mem (offset + 1), ?_⟩
  have slash : CutInto ['/'] (offset + 1) [(operatorAt mem (offset + 1)).val] (" " ++ rest) :=
    cutInto_operator (by simp [Text.ofString]) _ (by simp [Lexeme.opensComment, Text.ofString])
  exact (cutInto_space offset _).append (slash.append (cutInto_space (offset + 2) rest))

theorem cutInto_arrow_spaced (offset : Nat) (rest : Text) :
    CutInto " <- " offset [⟨.arrow, "<-", offset + 1⟩] rest :=
  (cutInto_space offset _).append
    ((cutInto_arrow (offset + 1) _).append (cutInto_space (offset + 3) rest))

/-- The symbol of a known quantifier is cut into its token. -/
theorem exists_quantifier {quantifier : Quantifier}
    (known : ∀ symbol, quantifier ≠ .unknown symbol) (offset : Nat) (rest : Text) :
    ∃ operator : OperatorOf "?*+", Quantifier.ofSymbol operator.val.text = quantifier ∧
      CutInto quantifier.symbol offset [operator.val] rest := by
  cases quantifier with
  | optional =>
      exact ⟨_, rfl, cutInto_operatorAt (c := '?') (by simp [Text.ofString])
        (by simp [Text.ofString]) (by simp) offset rest⟩
  | zeroOrMore =>
      exact ⟨_, rfl, cutInto_operatorAt (c := '*') (by simp [Text.ofString])
        (by simp [Text.ofString]) (by simp) offset rest⟩
  | oneOrMore =>
      exact ⟨_, rfl, cutInto_operatorAt (c := '+') (by simp [Text.ofString])
        (by simp [Text.ofString]) (by simp) offset rest⟩
  | unknown symbol => exact (known symbol rfl).elim

/-! ## Rules -/

/-- The text of a rule is cut into the tokens of an item that the rule is the image of. -/
def ItemFor (text : Text) (r : Rule) : Prop :=
  ∀ offset {rest}, EndsIdentifier rest →
    ∃ i : ItemTree, i.rule = .ok r ∧ CutInto text offset i.tokens rest

/-- The text of a rule is cut into the tokens of an expression that the rule is the image of. -/
def ExpressionFor (text : Text) (r : Rule) : Prop :=
  ∀ offset {rest}, EndsIdentifier rest →
    ∃ e : ExpressionTree, e.rule = .ok r ∧ CutInto text offset e.tokens rest

/-- Whatever follows a character that continues no identifier, an identifier ends before it. -/
theorem endsIdentifier_cons {c : CodePoint} (h : c.isIdentifierContinue = false) (rest : Text) :
    EndsIdentifier (c :: rest) := by
  rintro d same
  cases same
  exact h

theorem endsIdentifier_closing (rest : Text) : EndsIdentifier (")" ++ rest) :=
  endsIdentifier_cons (by decide) rest

theorem endsIdentifier_space (rest : Text) : EndsIdentifier (" " ++ rest) :=
  endsIdentifier_cons (by decide) rest

theorem ItemFor.of_primary {text : Text} {r : Rule}
    (h : ∀ offset {rest}, EndsIdentifier rest →
      ∃ p : PrimaryTree, p.rule = .ok r ∧ CutInto text offset p.tokens rest) :
    ItemFor text r := by
  intro offset rest ends
  obtain ⟨p, image, cut⟩ := h offset ends
  exact ⟨.plain (.plain p), image, cut⟩

theorem ItemFor.expressionFor {text : Text} {r : Rule} (h : ItemFor text r) :
    ExpressionFor text r := by
  intro offset rest ends
  obtain ⟨i, image, cut⟩ := h offset ends
  refine ⟨.last (.more i .empty), ?_, ?_⟩
  · rw [ExpressionTree.rule, ExpressionTree.alternatives, SequenceTree.items, SequenceTree.items,
      image]
    rfl
  · rw [ExpressionTree.tokens, SequenceTree.tokens, SequenceTree.tokens, List.append_nil]
    exact cut

theorem ExpressionFor.exists_group {text : Text} {r : Rule} (h : ExpressionFor text r)
    (offset : Nat) (rest : Text) :
    ∃ p : PrimaryTree, p.rule = .ok r ∧ CutInto ("(" ++ text ++ ")") offset p.tokens rest := by
  obtain ⟨opening, cut⟩ := exists_opening offset (text ++ (")" ++ rest))
  obtain ⟨e, image, cut'⟩ := h (offset + 1) (endsIdentifier_closing rest)
  obtain ⟨closing, cut''⟩ := exists_closing (offset + 1 + text.length) rest
  refine ⟨.group opening e closing, image, ?_⟩
  rw [List.append_assoc]
  rw [← List.append_assoc] at cut
  exact cut.append (cut'.append cut'')

theorem ExpressionFor.itemFor_group {text : Text} {r : Rule} (h : ExpressionFor text r) :
    ItemFor ("(" ++ text ++ ")") r :=
  .of_primary fun offset rest _ ↦ h.exists_group offset rest

theorem ExpressionFor.itemFor_repeated {text : Text} {r : Rule} (h : ExpressionFor text r)
    {quantifier : Quantifier} (known : ∀ symbol, quantifier ≠ .unknown symbol) :
    ItemFor ("(" ++ text ++ ")" ++ quantifier.symbol) (.repeated r quantifier) := by
  intro offset rest ends
  obtain ⟨p, image, cut⟩ := h.exists_group offset (quantifier.symbol ++ rest)
  obtain ⟨operator, same, cut'⟩ :=
    exists_quantifier known (offset + (("(" : Text) ++ text ++ ")").length) rest
  refine ⟨.plain (.repeated p operator), ?_, cut.append cut'⟩
  rw [ItemTree.rule, SuffixedTree.rule, image, same]
  rfl

/-- A group with an operator of lookahead before it is an item. -/
theorem ExpressionFor.itemFor_lookahead {text : Text} {r : Rule} (h : ExpressionFor text r)
    {c : CodePoint} (mem : c ∈ ("&!" : Text)) :
    ItemFor ([c] ++ ("(" ++ text ++ ")"))
      (if [c] = Text.ofString "&" then .followedBy r else .notFollowedBy r) := by
  intro offset rest ends
  have operator : c ∈ ("/&!?*+()." : Text) ∧ c ≠ '/' := by
    simp only [Text.ofString, String.reduceToList, List.map_cons, List.map_nil, List.mem_cons,
      List.not_mem_nil, or_false] at mem
    rcases mem with rfl | rfl <;> simp [Text.ofString]
  obtain ⟨p, image, cut⟩ := h.exists_group (offset + 1) rest
  have cut' := cutInto_operatorAt mem operator.1 operator.2 offset ("(" ++ text ++ ")" ++ rest)
  refine ⟨.lookahead (operatorAt mem offset) (.plain p), ?_, cut'.append cut⟩
  rw [ItemTree.rule, SuffixedTree.rule, image]
  rfl

/-! ### Several parts -/

/-- None or several rules are combined. -/
theorem combined_of_length_ne_one (combine : List Rule → Rule) {rs : List Rule}
    (several : rs.length ≠ 1) : combined combine rs = combine rs := by
  match rs with
  | [] => rfl
  | [r] => exact (several rfl).elim
  | r :: r' :: rs => rfl

theorem endsIdentifier_printBehind (more : Text) (rs : List Rule) {rest : Text}
    (ends : EndsIdentifier rest) : EndsIdentifier (Rule.printBehind (" " ++ more) rs ++ rest) := by
  cases rs with
  | nil => exact ends
  | cons r rs => exact endsIdentifier_space _

theorem exists_sequence_behind {items : List Rule}
    (h : ∀ r ∈ items, ItemFor r.print r.unlinked) (offset : Nat) {rest : Text}
    (ends : EndsIdentifier rest) :
    ∃ s : SequenceTree, s.items = .ok (items.map Rule.unlinked) ∧
      CutInto (Rule.printBehind " " items) offset s.tokens rest := by
  induction items generalizing offset with
  | nil => exact ⟨.empty, rfl, .nil offset rest⟩
  | cons r items ih =>
      have ends' : EndsIdentifier (Rule.printBehind " " items ++ rest) :=
        endsIdentifier_printBehind [] items ends
      obtain ⟨i, image, cut⟩ := h r List.mem_cons_self (offset + 1) ends'
      obtain ⟨s, images, cut'⟩ := ih (fun r' mem ↦ h r' (List.mem_cons_of_mem r mem))
        (offset + 1 + r.print.length)
      refine ⟨.more i s, ?_, ?_⟩
      · rw [SequenceTree.items, image, images]
        rfl
      · rw [Rule.printBehind, List.append_assoc]
        exact (cutInto_space offset _).append (cut.append cut')

theorem exists_sequence {items : List Rule} (h : ∀ r ∈ items, ItemFor r.print r.unlinked)
    (offset : Nat) {rest : Text} (ends : EndsIdentifier rest) :
    ∃ s : SequenceTree, s.items = .ok (items.map Rule.unlinked) ∧
      CutInto (Rule.printAll " " items) offset s.tokens rest := by
  cases items with
  | nil => exact ⟨.empty, rfl, .nil offset rest⟩
  | cons r items =>
      have ends' : EndsIdentifier (Rule.printBehind " " items ++ rest) :=
        endsIdentifier_printBehind [] items ends
      obtain ⟨i, image, cut⟩ := h r List.mem_cons_self offset ends'
      obtain ⟨s, images, cut'⟩ := exists_sequence_behind
        (fun r' mem ↦ h r' (List.mem_cons_of_mem r mem)) (offset + r.print.length) ends
      refine ⟨.more i s, ?_, ?_⟩
      · rw [SequenceTree.items, image, images]
        rfl
      · rw [Rule.printAll]
        exact cut.append cut'

theorem expressionFor_sequence {items : List Rule} (h : ∀ r ∈ items, ItemFor r.print r.unlinked)
    (several : items.length ≠ 1) :
    ExpressionFor (Rule.printAll " " items) (.sequence (items.map Rule.unlinked)) := by
  intro offset rest ends
  obtain ⟨s, images, cut⟩ := exists_sequence h offset ends
  refine ⟨.last s, ?_, cut⟩
  rw [ExpressionTree.rule, ExpressionTree.alternatives, images]
  show Except.ok (combined .sequence (items.map Rule.unlinked)) = _
  rw [combined_of_length_ne_one _ (by rw [List.length_map]; exact several)]

/-- A sequence and alternatives with slashes before them are cut into the tokens of an
expression. -/
theorem exists_alternatives_behind {alternatives : List Rule}
    (h : ∀ r ∈ alternatives, ItemFor r.print r.unlinked) (offset : Nat) {rest : Text}
    (ends : EndsIdentifier rest) (i : ItemTree) {first : Rule} (image : i.rule = .ok first) :
    ∃ (e : ExpressionTree) (row : List Token), e.tokens = i.tokens ++ row ∧
      e.alternatives = .ok (first :: alternatives.map Rule.unlinked) ∧
      CutInto (Rule.printBehind " / " alternatives) offset row rest := by
  have alone : SequenceTree.items (.more i .empty) = .ok [first] := by
    rw [SequenceTree.items, SequenceTree.items, image]
    rfl
  induction alternatives generalizing offset i first with
  | nil =>
      refine ⟨.last (.more i .empty), [], rfl, ?_, .nil offset rest⟩
      rw [ExpressionTree.alternatives, alone]
      rfl
  | cons r alternatives ih =>
      obtain ⟨slash, cut⟩ :=
        exists_slash offset (r.print ++ (Rule.printBehind " / " alternatives ++ rest))
      have ends' : EndsIdentifier (Rule.printBehind " / " alternatives ++ rest) :=
        endsIdentifier_printBehind "/ " alternatives ends
      obtain ⟨i', image', cut'⟩ := h r List.mem_cons_self (offset + 3) ends'
      have alone' : SequenceTree.items (.more i' .empty) = .ok [r.unlinked] := by
        rw [SequenceTree.items, SequenceTree.items, image']
        rfl
      obtain ⟨e, row, whole, images, cut''⟩ := ih (fun r' mem ↦ h r' (List.mem_cons_of_mem r mem))
        (offset + 3 + r.print.length) i' image' alone'
      refine ⟨.more (.more i .empty) slash e, [slash.val] ++ (i'.tokens ++ row), ?_, ?_, ?_⟩
      · rw [ExpressionTree.tokens, SequenceTree.tokens, SequenceTree.tokens, List.append_nil, whole]
        rfl
      · rw [ExpressionTree.alternatives, alone, images]
        rfl
      · rw [Rule.printBehind, List.append_assoc]
        rw [← List.append_assoc] at cut
        exact cut.append (cut'.append cut'')

/-- Several alternatives with slashes between them are an expression. -/
theorem expressionFor_choice {first second : Rule} {alternatives : List Rule}
    (h : ∀ r ∈ first :: second :: alternatives, ItemFor r.print r.unlinked) :
    ExpressionFor (Rule.printAll " / " (first :: second :: alternatives))
      (.choice ((first :: second :: alternatives).map Rule.unlinked)) := by
  intro offset rest ends
  have ends' : EndsIdentifier (Rule.printBehind " / " (second :: alternatives) ++ rest) :=
    endsIdentifier_printBehind "/ " (second :: alternatives) ends
  obtain ⟨i, image, cut⟩ := h first List.mem_cons_self offset ends'
  obtain ⟨e, row, whole, images, cut'⟩ := exists_alternatives_behind
    (fun r mem ↦ h r (List.mem_cons_of_mem first mem)) (offset + first.print.length) ends i image
  refine ⟨e, ?_, ?_⟩
  · rw [ExpressionTree.rule, images]
    rfl
  · rw [Rule.printAll, whole]
    exact cut.append cut'

/-! ### All rules -/

theorem print_sequence {names : List Text} {items : List Rule}
    (h : ∀ r ∈ items, Rule.Printable names r) :
    (Rule.sequence items).print = "(" ++ Rule.printAll " " items ++ ")" := by
  -- the range of no characters, which is excluded in `[^]`, cannot be printed by itself
  have other : items = [.notFollowedBy (.charRange []), .anyChar] → False := by
    rintro rfl
    cases h _ List.mem_cons_self with
    | notFollowedBy inner =>
        cases inner with
        | charRange ranges_ne_nil _ => exact ranges_ne_nil rfl
  rw [Rule.print]
  exact other

/-- Whatever can be printed is cut into the tokens of an item that stands for it. -/
theorem itemFor_print {names : List Text} (identifiers : ∀ n ∈ names, n.IsIdentifier) {r : Rule}
    (h : r.Printable names) : ItemFor r.print r.unlinked := by
  induction h with
  | literal t =>
      apply ItemFor.of_primary
      intro offset rest _
      exact ⟨.literal ⟨_, rfl⟩, literalRule_printLiteral t offset, cutInto_literal t offset rest⟩
  | @charRange ranges ranges_ne_nil low_le_high =>
      apply ItemFor.of_primary
      intro offset rest _
      refine ⟨.charClass ⟨_, rfl⟩, charClassRule_printClass ranges_ne_nil low_le_high offset, ?_⟩
      exact cutInto_charClass (.flatMap passedOver_range ranges) offset rest
  | anyChar =>
      apply ItemFor.of_primary
      intro offset rest _
      obtain ⟨dot, cut⟩ := exists_dot offset rest
      exact ⟨.anyChar dot, rfl, cut⟩
  | repeated _ known ih => exact ih.expressionFor.itemFor_repeated known
  | followedBy _ ih =>
      exact ih.expressionFor.itemFor_lookahead (c := '&') (by simp [Text.ofString])
  | notFollowedBy _ ih =>
      have other := ih.expressionFor.itemFor_lookahead (c := '!') (by simp [Text.ofString])
      rw [if_neg (by simp [Text.ofString])] at other
      exact other
  | outsideNothing =>
      apply ItemFor.of_primary
      intro offset rest _
      refine ⟨.charClass ⟨_, rfl⟩, charClassRule_outsideNothing offset, ?_⟩
      exact cutInto_charClass (.singleton (c := '^') (by simp) (by simp)) offset rest
  | @sequence items h several ih =>
      rw [print_sequence h, Rule.unlinked, Rule.unlinkedAll_eq_map]
      exact (expressionFor_sequence ih several).itemFor_group
  | @choice alternatives _ several ih =>
      rw [Rule.unlinked, Rule.unlinkedAll_eq_map]
      match alternatives with
      | [] =>
          apply ItemFor.of_primary
          intro offset rest _
          refine ⟨.charClass ⟨_, rfl⟩, charClassRule_nothing offset, ?_⟩
          exact cutInto_charClass .nil offset rest
      | [r] => exact (several rfl).elim
      | first :: second :: alternatives => exact (expressionFor_choice ih).itemFor_group
  | @reference name mem slot =>
      apply ItemFor.of_primary
      intro offset rest ends
      exact ⟨.reference ⟨_, rfl⟩, rfl, cutInto_identifier (identifiers name mem) offset ends⟩

/-! ## Tables -/

/-- A named rule that can be printed is cut into the tokens of a rule that it is the image of. -/
theorem exists_rule {name : Text} {r : Rule} (head : name.IsIdentifier)
    (body : ExpressionFor r.print r.unlinked) (offset : Nat) (rest : Text) :
    ∃ rule : RuleTree, rule.entry = .ok (name, r.unlinked) ∧ rule.name.val.text = name ∧
      CutInto (name ++ " <- " ++ r.print).line offset rule.tokens rest := by
  have lineFeed : EndsIdentifier ((['\n'] : Text) ++ rest) := endsIdentifier_cons (by decide) rest
  have space : EndsIdentifier ((" <- " : Text) ++ (r.print ++ (['\n'] : Text)) ++ rest) :=
    endsIdentifier_cons (c := ' ') (by decide) _
  obtain ⟨e, image, cut⟩ := body (offset + name.length + 4) lineFeed
  have name_cut := cutInto_identifier head offset space
  have arrow_cut := cutInto_arrow_spaced (offset + name.length) (r.print ++ (['\n'] : Text) ++ rest)
  have end_cut := cutInto_lineFeed (offset + name.length + 4 + r.print.length) rest
  have whole := name_cut.append (arrow_cut.append (cut.append end_cut))
  refine ⟨⟨⟨⟨.identifier, name, offset⟩, rfl⟩, ⟨⟨.arrow, "<-", offset + name.length + 1⟩, rfl⟩, e⟩,
    ?_, rfl, ?_⟩
  · rw [RuleTree.entry, image]
    rfl
  · rw [Text.line, List.append_assoc, List.append_assoc]
    rw [List.append_nil] at whole
    exact whole

/-- Named rules that can be printed are cut into the tokens of rules that they are the images of. -/
theorem exists_rules {names : List Text} (identifiers : ∀ n ∈ names, n.IsIdentifier)
    {table : List (Text × Rule)} (heads : ∀ entry ∈ table, entry.1.IsIdentifier)
    (bodies : ∀ entry ∈ table, entry.2.Printable names) (offset : Nat) (rest : Text) :
    ∃ rules : List RuleTree, rules.mapM RuleTree.entry = .ok (unlinked table) ∧
      rules.map (·.name.val.text) = table.map Prod.fst ∧
      CutInto (print table) offset (rules.flatMap RuleTree.tokens) rest := by
  induction table generalizing offset with
  | nil => exact ⟨[], rfl, rfl, .nil offset rest⟩
  | cons entry table ih =>
      have body : ItemFor entry.2.print entry.2.unlinked :=
        itemFor_print identifiers (bodies entry List.mem_cons_self)
      obtain ⟨rule, image, name, cut⟩ :=
        exists_rule (heads entry List.mem_cons_self) body.expressionFor offset (print table ++ rest)
      obtain ⟨rules, images, names, cut'⟩ :=
        ih (fun entry' mem ↦ heads entry' (List.mem_cons_of_mem _ mem))
          (fun entry' mem ↦ bodies entry' (List.mem_cons_of_mem _ mem))
          (offset + (entry.1 ++ " <- " ++ entry.2.print).line.length)
      refine ⟨rule :: rules, ?_, ?_, cut.append cut'⟩
      · rw [List.mapM_cons, image, images]
        rfl
      · rw [List.map_cons, List.map_cons, name, names]

end Notation

open Notation

/-- With enough frames a source is read as what its tokens are read as. -/
theorem Source.rulesOf_of_readsAs {src : Text} {tokens : List Token} {frames : Nat}
    {table : List (Text × Rule)} (tokenized : tokenize src = .ok tokens)
    (enough : 5 * nesting 0 tokens + 5 ≤ frames) (reads : ReadsAs (readRules frames tokens) table) :
    rulesOf frames src = .ok table := by
  have settled := settles_readRules (terminated_of_tokenize tokenized) enough
  rw [rulesOf, tokenized]
  exact reads.eq_ok settled.ne_outOfFrames

namespace Notation

/-- A table that can be printed is read back, without the slots of its references. -/
theorem rulesOf_print {table : List (Text × Rule)} (h : Printable table) :
    ∃ limit, ∀ frames, limit ≤ frames →
      Source.rulesOf frames (print table) = .ok (unlinked table) := by
  have identifiers : ∀ n ∈ table.map Prod.fst, n.IsIdentifier := by
    intro n mem
    obtain ⟨entry, mem', rfl⟩ := List.mem_map.mp mem
    exact h.identifiers entry mem'
  obtain ⟨rules, images, names, cut⟩ := exists_rules identifiers h.identifiers h.rules 0 []
  have rules_ne_nil : rules ≠ [] := by
    rintro rfl
    exact h.ne_nil (List.map_eq_nil_iff.mp names.symm)
  obtain ⟨ending, tokenized⟩ : ∃ ending : TokenOf .ending,
      tokenize (print table) = .ok (rules.flatMap RuleTree.tokens ++ [ending.val]) :=
    ⟨⟨_, rfl⟩, cut.tokensFrom_eq⟩
  have derives : GrammarTree.Derives ⟨rules, rules_ne_nil⟩
      (rules.flatMap RuleTree.tokens ++ [ending.val]) := ⟨ending, rfl⟩
  refine ⟨5 * nesting 0 (rules.flatMap RuleTree.tokens ++ [ending.val]) + 5, ?_⟩
  intro frames enough
  have different : (rules.map (·.name.val.text)).Nodup := by
    rw [names]
    exact h.nodup
  exact Source.rulesOf_of_readsAs tokenized enough (derives.readRules_eq different images frames)

end Notation

end Peg
