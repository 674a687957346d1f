import Peg.Proofs.Notation.Printing

/-!
# Printed lexemes

What each printed piece is cut into, whatever comes after it, and what the printed characters of
literals and classes spell. An identifier must not be followed by a character that would continue
it, and a slash not by an asterisk.
-/

namespace Peg.Notation

open Except

/-- The text at an offset, before some other text, is cut into a row of tokens. -/
def CutInto (text : Text) (offset : Nat) (row : List Token) (rest : Text) : Prop :=
  tokensFrom 0 offset (text ++ rest) =
    (tokensFrom 0 (offset + text.length) rest).map (row ++ ·)

namespace CutInto

variable {text text' rest : Text} {offset : Nat} {row row' : List Token}

/-- No text is passed over. -/
theorem nil (offset : Nat) (rest : Text) : CutInto [] offset [] rest := by
  rw [CutInto, List.nil_append, List.length_nil, Nat.add_zero]
  cases tokensFrom 0 offset rest <;> rfl

/-- Texts after each other are cut one by one. -/
theorem append (h : CutInto text offset row (text' ++ rest))
    (h' : CutInto text' (offset + text.length) row' rest) :
    CutInto (text ++ text') offset (row ++ row') rest := by
  unfold CutInto at *
  rw [List.append_assoc, h, h', List.length_append, Nat.add_assoc]
  cases tokensFrom 0 (offset + (text.length + text'.length)) rest with
  | error e => rfl
  | ok tokens =>
      show Except.ok (row ++ (row' ++ tokens)) = Except.ok (row ++ row' ++ tokens)
      rw [List.append_assoc]

/-- A text that is cut into tokens is, alone, a source of these and the ending. -/
theorem tokensFrom_eq (h : CutInto text offset row []) :
    tokensFrom 0 offset text = .ok (row ++ [⟨.ending, [], offset + text.length⟩]) := by
  rw [CutInto, List.append_nil, tokensFrom_nil] at h
  exact h

/-- A lexeme is cut into its token, if it is one. -/
theorem lexeme {c : CodePoint} {more : Text} {kind : Option TokenKind} (offset : Nat)
    (first : Lexeme.first c (more ++ rest) = .ok ⟨kind, c :: more, rest⟩) :
    CutInto (c :: more) offset (kind.toList.map (⟨·, c :: more, offset⟩)) rest := by
  rw [CutInto, List.cons_append, tokensFrom_of_ok first]
  cases kind <;> cases tokensFrom 0 (offset + (c :: more).length) rest <;> rfl

/-- A lexeme that is a token is cut into it. -/
theorem token {c : CodePoint} {more : Text} {kind : TokenKind} (offset : Nat)
    (first : Lexeme.first c (more ++ rest) = .ok ⟨some kind, c :: more, rest⟩) :
    CutInto (c :: more) offset [⟨kind, c :: more, offset⟩] rest := lexeme offset first

/-- A lexeme that is layout is cut into no token. -/
theorem layout {c : CodePoint} {more : Text} (offset : Nat)
    (first : Lexeme.first c (more ++ rest) = .ok ⟨none, c :: more, rest⟩) :
    CutInto (c :: more) offset [] rest := lexeme offset first

end CutInto

/-- A run ends where its condition does. -/
theorem Lexeme.run_append {condition : CodePoint → Bool} {more rest : Text}
    (holds : ∀ c ∈ more, condition c = true) (ends : ∀ c ∈ rest.head?, condition c = false)
    (kind : Option TokenKind) (c : CodePoint) :
    run kind condition c (more ++ rest) = ⟨kind, c :: more, rest⟩ := by
  have stops : rest.takeWhile condition = [] ∧ rest.dropWhile condition = rest := by
    cases rest with
    | nil => exact ⟨rfl, rfl⟩
    | cons d rest =>
        have : ¬ condition d = true := by
          rw [ends d rfl]
          exact Bool.false_ne_true
        exact ⟨List.takeWhile_cons_of_neg this, List.dropWhile_cons_of_neg this⟩
  rw [run, List.takeWhile_append_of_pos holds, List.dropWhile_append_of_pos holds, stops.1, stops.2,
    List.append_nil]

/-! ## Layout -/

theorem tokensFrom_blanks {c : CodePoint} (blank : c.isBlank = true) (offset : Nat) (rest : Text) :
    tokensFrom 0 offset (c :: rest) =
      tokensFrom 0 (offset + ((rest.takeWhile CodePoint.isBlank).length + 1))
        (rest.dropWhile CodePoint.isBlank) := by
  have first : Lexeme.first c rest = .ok (Lexeme.run none CodePoint.isBlank c rest) := by
    rw [Lexeme.first, if_pos blank]
  rw [tokensFrom_of_ok first]
  simp only [Lexeme.run, List.length_cons]
  cases tokensFrom 0 (offset + ((rest.takeWhile CodePoint.isBlank).length + 1))
    (rest.dropWhile CodePoint.isBlank) <;> rfl

/-- A blank character is cut into no token. -/
theorem cutInto_blank {c : CodePoint} (blank : c.isBlank = true) (offset : Nat) (rest : Text) :
    CutInto [c] offset [] rest := by
  have alone : tokensFrom 0 offset (c :: rest) = tokensFrom 0 (offset + 1) rest := by
    rw [tokensFrom_blanks blank]
    cases rest with
    | nil => rfl
    | cons d rest =>
        by_cases blank' : d.isBlank = true
        · rw [tokensFrom_blanks blank', List.takeWhile_cons_of_pos blank',
            List.dropWhile_cons_of_pos blank', List.length_cons]
          congr 1
          omega
        · rw [List.takeWhile_cons_of_neg blank', List.dropWhile_cons_of_neg blank', List.length_nil]
  rw [CutInto, List.singleton_append, alone, List.length_singleton]
  cases tokensFrom 0 (offset + 1) rest <;> rfl

/-- A space is cut into no token. -/
theorem cutInto_space (offset : Nat) (rest : Text) : CutInto " " offset [] rest :=
  cutInto_blank (by decide) offset rest

/-- A line feed is cut into no token. -/
theorem cutInto_lineFeed (offset : Nat) (rest : Text) : CutInto ['\n'] offset [] rest :=
  cutInto_blank (by decide) offset rest

/-! ## Operators and arrows -/

/-- No comment begins with a character other than the slash. -/
theorem opensComment_of_ne {c : CodePoint} (h : c ≠ '/') (rest : Text) :
    Lexeme.opensComment c rest = false := by
  cases rest with
  | nil => rfl
  | cons d rest => simp [Lexeme.opensComment, h]

theorem isArrow_of_ne {c : CodePoint} (less : c ≠ '<') (colon : c ≠ ':') (rest : Text) :
    Lexeme.isArrow c rest = false := by
  cases rest with
  | nil => rfl
  | cons d rest => simp [Lexeme.isArrow, less, colon]

/-- An operator is cut into its token, unless it opens a comment. -/
theorem cutInto_operator {c : CodePoint} (operator : c ∈ ("/&!?*+()." : Text)) (offset : Nat)
    {rest : Text} (noComment : Lexeme.opensComment c rest = false) :
    CutInto [c] offset [⟨.operator, [c], offset⟩] rest := by
  refine .token offset ?_
  have isOperator : c.isOperator = true := List.contains_iff_mem.mpr operator
  have others : c.isBlank = false ∧ c ≠ '#' ∧ c ≠ '<' ∧ c ≠ ':' ∧ c.isIdentifierStart = false ∧
      c ≠ '\'' ∧ c ≠ '"' ∧ c ≠ '[' := by
    simp only [Text.ofString, String.reduceToList, List.map_cons, List.map_nil, List.mem_cons,
      List.not_mem_nil, or_false] at operator
    rcases operator with rfl | rfl | rfl | rfl | rfl | rfl | rfl | rfl | rfl
    all_goals refine ⟨?_, ?_, ?_, ?_, ?_, ?_, ?_, ?_⟩ <;> decide
  obtain ⟨blank, comment, less, colon, identifier, single, double, bracket⟩ := others
  have arrow := isArrow_of_ne less colon rest
  simp [Lexeme.first, blank, comment, noComment, arrow, identifier, single, double, bracket,
    isOperator]

/-- What begins an arrow begins no other lexeme. -/
theorem first_of_isArrow {c d : CodePoint} {rest : Text}
    (arrow : Lexeme.isArrow c (d :: rest) = true) :
    Lexeme.first c (d :: rest) = .ok ⟨some .arrow, [c, d], rest⟩ := by
  simp only [Lexeme.isArrow, Bool.or_eq_true, Bool.and_eq_true, decide_eq_true_eq] at arrow
  obtain ⟨rfl, rfl⟩ | ⟨rfl, rfl⟩ := arrow
  · simp [Lexeme.first, Lexeme.opensComment, Lexeme.isArrow, CodePoint.isBlank]
  · simp [Lexeme.first, Lexeme.opensComment, Lexeme.isArrow, CodePoint.isBlank]

/-- An arrow is cut into its token. -/
theorem cutInto_arrow (offset : Nat) (rest : Text) :
    CutInto "<-" offset [⟨.arrow, "<-", offset⟩] rest := by
  have arrow : Lexeme.isArrow '<' (('-' : CodePoint) :: rest) = true := rfl
  exact .token offset (first_of_isArrow arrow)

/-! ## Identifiers -/

/-- The text does not begin with a character that continues an identifier. -/
def EndsIdentifier (rest : Text) : Prop := ∀ c ∈ rest.head?, c.isIdentifierContinue = false

theorem first_of_isIdentifierStart {c : CodePoint} (start : c.isIdentifierStart = true)
    (rest : Text) :
    Lexeme.first c rest = .ok (Lexeme.run (some .identifier) (·.isIdentifierContinue) c rest) := by
  have ne : ∀ d : CodePoint, d.isIdentifierStart = false → c ≠ d := by
    rintro d other rfl
    rw [start] at other
    cases other
  have slash := opensComment_of_ne (ne '/' (by decide)) rest
  have arrow := isArrow_of_ne (ne '<' (by decide)) (ne ':' (by decide)) rest
  simp [Lexeme.first, CodePoint.isBlank, ne ' ' (by decide), ne '\t' (by decide),
    ne '\r' (by decide), ne '\n' (by decide), ne '#' (by decide), slash, arrow, start]

/-- An identifier is cut into its token. -/
theorem cutInto_identifier {name : Text} (identifier : name.IsIdentifier) (offset : Nat)
    {rest : Text} (ends : EndsIdentifier rest) :
    CutInto name offset [⟨.identifier, name, offset⟩] rest := by
  cases name with
  | nil => exact identifier.elim
  | cons c more =>
      obtain ⟨start, continues⟩ := identifier
      refine .token offset ?_
      rw [first_of_isIdentifierStart start, Lexeme.run_append continues ends]

/-! ## Delimited texts -/

/-- The text may stand before the closing delimiter: it does not hold it, but behind a backslash. -/
def PassedOver (delimiter : CodePoint) (text : Text) : Prop :=
  ∀ src, throughDelimiter delimiter (text ++ src) =
    (throughDelimiter delimiter src).map fun (body, after) ↦ (text ++ body, after)

namespace PassedOver

variable {delimiter : CodePoint}

/-- No text is passed over. -/
theorem nil : PassedOver delimiter [] := by
  intro src
  simp

/-- Two texts are passed over one after the other. -/
theorem append {text text' : Text} (h : PassedOver delimiter text)
    (h' : PassedOver delimiter text') : PassedOver delimiter (text ++ text') := by
  intro src
  rw [List.append_assoc, h, h', Option.map_map]
  congr 1
  funext ⟨body, after⟩
  simp

/-- Texts in a row are passed over one after the other. -/
theorem flatMap {α : Type} {f : α → Text} (h : ∀ a, PassedOver delimiter (f a)) (as : List α) :
    PassedOver delimiter (as.flatMap f) := by
  induction as with
  | nil => exact nil
  | cons a as ih =>
      rw [List.flatMap_cons]
      exact (h a).append ih

/-- A character is passed over, unless it is the delimiter or a backslash. -/
theorem singleton {c : CodePoint} (ne_delimiter : c ≠ delimiter) (ne_backslash : c ≠ '\\') :
    PassedOver delimiter [c] := by
  intro src
  rw [List.singleton_append, throughDelimiter.eq_def]
  simp only [if_neg ne_delimiter, if_neg ne_backslash]
  rfl

/-- A character behind a backslash is passed over. -/
theorem escaped (ne : delimiter ≠ '\\') (c : CodePoint) :
    PassedOver delimiter ['\\', c] := by
  intro src
  show throughDelimiter delimiter ('\\' :: c :: src) = _
  rw [throughDelimiter, if_neg ne.symm, if_pos rfl]
  rfl

/-- A spelled character is passed over if the delimiter and the backslash are special. -/
theorem spelling {special : Text} (delimiter_mem : delimiter ∈ special)
    (backslash_mem : CodePoint.ofChar '\\' ∈ special) (ne : delimiter ≠ '\\') (c : CodePoint) :
    PassedOver delimiter (spelling special c) := by
  unfold Notation.spelling
  split
  next => exact escaped ne c
  next ordinary =>
    refine singleton ?_ ?_
    · rintro rfl
      exact ordinary (List.contains_iff_mem.mpr delimiter_mem)
    · rintro rfl
      exact ordinary (List.contains_iff_mem.mpr backslash_mem)

/-- A text that is passed over is cut after the delimiter behind it. -/
theorem throughDelimiter_eq {text : Text} (h : PassedOver delimiter text) (rest : Text) :
    throughDelimiter delimiter (text ++ delimiter :: rest) =
      some (text ++ [delimiter], rest) := by
  rw [h, throughDelimiter.eq_def]
  simp only [if_pos]
  rfl

end PassedOver

theorem passedOver_literal (t : Text) :
    PassedOver '\'' (t.flatMap (spelling specialInLiteral)) :=
  .flatMap (.spelling (by simp [specialInLiteral, Text.ofString])
    (by simp [specialInLiteral, Text.ofString]) (by simp)) t

/-- A range between brackets is passed over. -/
theorem passedOver_range (r : CharRange) : PassedOver ']' (printRange r) := by
  have char : ∀ c, PassedOver ']' (spelling specialInClass c) :=
    .spelling (by simp [specialInClass, Text.ofString]) (by simp [specialInClass, Text.ofString])
      (by simp)
  have dash : PassedOver ']' ['-'] := .singleton (by simp) (by simp)
  exact ((char r.low).append dash).append (char r.high)

/-- What begins with a quote is a literal. -/
theorem first_of_isQuote {c : CodePoint} (quote : c = '\'' ∨ c = '"') (src : Text) :
    Lexeme.first c src = Lexeme.delimited .literal .unterminatedString c c src := by
  obtain rfl | rfl := quote
  · simp only [Lexeme.first, opensComment_of_ne (c := '\'') (by simp),
      isArrow_of_ne (c := '\'') (by simp) (by simp)]
    rfl
  · simp only [Lexeme.first, opensComment_of_ne (c := '"') (by simp),
      isArrow_of_ne (c := '"') (by simp) (by simp)]
    rfl

/-- What begins with a bracket is a class. -/
theorem first_bracket (src : Text) :
    Lexeme.first '[' src = Lexeme.delimited .charClass .unterminatedClass ']' '[' src := by
  simp only [Lexeme.first, opensComment_of_ne (c := '[') (by simp),
    isArrow_of_ne (c := '[') (by simp) (by simp)]
  rfl

/-- A text between quotes is cut into its token. -/
theorem cutInto_literal (t : Text) (offset : Nat) (rest : Text) :
    CutInto (printLiteral t) offset [⟨.literal, printLiteral t, offset⟩] rest := by
  have first :
      Lexeme.first '\'' ((t.flatMap (spelling specialInLiteral) ++ (['\''] : Text)) ++ rest) =
        .ok ⟨some .literal, '\'' :: (t.flatMap (spelling specialInLiteral) ++ (['\''] : Text)),
          rest⟩ := by
    have close := (passedOver_literal t).throughDelimiter_eq rest
    rw [List.append_assoc, List.singleton_append, first_of_isQuote (.inl rfl), Lexeme.delimited,
      close]
  exact .token offset first

/-- A text between brackets is cut into its token. -/
theorem cutInto_charClass {body : Text} (passed : PassedOver ']' body) (offset : Nat)
    (rest : Text) :
    CutInto (("[" : Text) ++ body ++ "]") offset
      [⟨.charClass, ("[" : Text) ++ body ++ "]", offset⟩] rest := by
  have first : Lexeme.first '[' ((body ++ ([']'] : Text)) ++ rest) =
      .ok ⟨some .charClass, '[' :: (body ++ ([']'] : Text)), rest⟩ := by
    have close := passed.throughDelimiter_eq rest
    rw [List.append_assoc, List.singleton_append, first_bracket, Lexeme.delimited, close]
  exact .token offset first

end Peg.Notation
