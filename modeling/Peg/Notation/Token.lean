import Peg.Notation.Flaw
import Peg.Unicode.Identifier

/-!
# Tokens

The source of a grammar is a row of lexemes: tokens, and layout between them. Layout is blank space,
a comment from `#` to the end of the line, or a block comment. Each lexeme is as long as it can be;
a quoted text or a character class ends at its first closing delimiter that no backslash precedes.
The tokens of a source keep their text and its offset, and are followed by one that marks the end.
-/

namespace Peg

namespace CodePoint

def isBlank (c : CodePoint) : Bool := c = ' ' || c = '\t' || c = '\r' || c = '\n'

/-- Whether the character does not end a comment line. -/
def isWithinLine (c : CodePoint) : Bool := c ≠ '\n'

def isOperator (c : CodePoint) : Bool := ("/&!?*+()." : Text).contains c

end CodePoint

namespace Notation

/-- The kinds of tokens. -/
inductive TokenKind where
  /-- The name of a rule. -/
  | identifier
  /-- The arrow between a rule's name and its body, in either spelling. -/
  | arrow
  /-- A text between quotes. -/
  | literal
  /-- A character class between brackets. -/
  | charClass
  /-- An operator of one character. -/
  | operator
  /-- The end of the source. -/
  | ending
deriving DecidableEq

/-- A token of the source. -/
structure Token where
  /-- The kind of the token. -/
  kind : TokenKind
  /-- The token as it stands in the source, delimiters included. -/
  text : Text
  /-- Where in the source it begins. -/
  offset : Nat
deriving DecidableEq

/-- The first lexeme of a source and what comes after it. -/
structure Lexeme where
  /-- The kind of token it is; layout is none. -/
  kind : Option TokenKind
  /-- The lexeme as it stands in the source. -/
  text : Text
  /-- The source after it. -/
  rest : Text

/-! ## Delimiters -/

/-- Cuts a text after the first `*/`. -/
def throughCommentEnd : Text → Option (Text × Text)
  | c :: d :: rest =>
      if c = '*' ∧ d = '/' then some ([c, d], rest)
      else (throughCommentEnd (d :: rest)).map fun (body, after) ↦ (c :: body, after)
  | _ => none

/-- Cuts a text after the first delimiter that is not preceded by a backslash which escapes it. -/
def throughDelimiter (delimiter : CodePoint) : Text → Option (Text × Text)
  | [] => none
  | c :: rest =>
      if c = delimiter then some ([c], rest)
      else if c = '\\' then
        match rest with
        | [] => none
        | d :: rest =>
            (throughDelimiter delimiter rest).map fun (body, after) ↦ (c :: d :: body, after)
      else (throughDelimiter delimiter rest).map fun (body, after) ↦ (c :: body, after)

theorem append_throughCommentEnd {src body after : Text}
    (h : throughCommentEnd src = some (body, after)) : body ++ after = src := by
  fun_induction throughCommentEnd src generalizing body after with
  | case1 c d rest =>
      cases h
      rfl
  | case2 c d rest _ ih =>
      obtain ⟨⟨b, a⟩, cut, eq⟩ := Option.map_eq_some_iff.mp h
      cases eq
      simp [ih cut]
  | case3 => cases h

/-- A text cut after a delimiter is put together again from the two parts. -/
theorem append_throughDelimiter {delimiter : CodePoint} {src body after : Text}
    (h : throughDelimiter delimiter src = some (body, after)) : body ++ after = src := by
  fun_induction throughDelimiter delimiter src generalizing body after with
  | case1 => cases h
  | case2 =>
      cases h
      rfl
  | case3 => cases h
  | case4 d rest _ ih =>
      obtain ⟨⟨b, a⟩, cut, eq⟩ := Option.map_eq_some_iff.mp h
      cases eq
      simp [ih cut]
  | case5 c rest _ _ ih =>
      obtain ⟨⟨b, a⟩, cut, eq⟩ := Option.map_eq_some_iff.mp h
      cases eq
      simp [ih cut]

/-! ## Lexemes -/

namespace Lexeme

/-- The lexeme of all characters from the first one on that satisfy a condition. -/
def run (kind : Option TokenKind) (condition : CodePoint → Bool) (c : CodePoint) (rest : Text) :
    Lexeme :=
  ⟨kind, c :: rest.takeWhile condition, rest.dropWhile condition⟩

/-- The block comment whose opening begins with `c`. -/
def blockComment (c : CodePoint) (rest : Text) : Except Flaw Lexeme :=
  match throughCommentEnd (rest.drop 1) with
  | some (body, after) => .ok ⟨none, c :: (rest.take 1 ++ body), after⟩
  | none => .error .unclosedComment

/-- The lexeme from `c` to the next delimiter; without a delimiter the source has the given flaw. -/
def delimited (kind : TokenKind) (flaw : Flaw) (delimiter c : CodePoint) (rest : Text) :
    Except Flaw Lexeme :=
  match throughDelimiter delimiter rest with
  | some (body, after) => .ok ⟨some kind, c :: body, after⟩
  | none => .error flaw

/-- Whether an arrow of two characters begins with `c`. -/
def isArrow (c : CodePoint) (rest : Text) : Bool :=
  match rest with
  | [] => false
  | d :: _ => c = '<' && d = '-' || c = ':' && d = '='

/-- Whether a block comment begins with `c`. -/
def opensComment (c : CodePoint) (rest : Text) : Bool :=
  match rest with
  | [] => false
  | d :: _ => c = '/' && d = '*'

/-- The first lexeme of the source `c :: rest`. -/
def first (c : CodePoint) (rest : Text) : Except Flaw Lexeme :=
  if c.isBlank then .ok (run none (·.isBlank) c rest)
  else if c = '#' then .ok (run none (·.isWithinLine) c rest)
  else if opensComment c rest then blockComment c rest
  else if isArrow c rest then .ok ⟨some .arrow, c :: rest.take 1, rest.drop 1⟩
  else if c.isIdentifierStart then .ok (run (some .identifier) (·.isIdentifierContinue) c rest)
  else if c = '\'' ∨ c = '"' then delimited .literal .unterminatedString c c rest
  else if c = '[' then delimited .charClass .unterminatedClass ']' c rest
  else if c.isOperator then .ok ⟨some .operator, [c], rest⟩
  else .error (.unexpectedCharacter c)

theorem split_of_blockComment {c : CodePoint} {rest : Text} {l : Lexeme}
    (h : blockComment c rest = .ok l) : ∃ more, l.text = c :: more ∧ more ++ l.rest = rest := by
  unfold blockComment at h
  split at h
  next body after cut =>
    cases h
    refine ⟨rest.take 1 ++ body, rfl, ?_⟩
    rw [List.append_assoc, append_throughCommentEnd cut, List.take_append_drop]
  next => cases h

theorem split_of_delimited {kind : TokenKind} {flaw : Flaw} {delimiter c : CodePoint} {rest : Text}
    {l : Lexeme} (h : delimited kind flaw delimiter c rest = .ok l) :
    ∃ more, l.text = c :: more ∧ more ++ l.rest = rest := by
  unfold delimited at h
  split at h
  next body after cut =>
    cases h
    exact ⟨body, rfl, append_throughDelimiter cut⟩
  next => cases h

/-- The first lexeme and what follows it make up the source. -/
theorem split_of_first {c : CodePoint} {rest : Text} {l : Lexeme} (h : first c rest = .ok l) :
    ∃ more, l.text = c :: more ∧ more ++ l.rest = rest := by
  unfold first at h
  repeat' split at h
  next => cases h; exact ⟨_, rfl, List.takeWhile_append_dropWhile⟩
  next => cases h; exact ⟨_, rfl, List.takeWhile_append_dropWhile⟩
  next => exact split_of_blockComment h
  next => cases h; exact ⟨_, rfl, List.take_append_drop 1 rest⟩
  next => cases h; exact ⟨_, rfl, List.takeWhile_append_dropWhile⟩
  next => exact split_of_delimited h
  next => exact split_of_delimited h
  next => cases h; exact ⟨[], rfl, rfl⟩
  next => cases h

end Lexeme

/-! ## Tokens -/

/-- The tokens of a source that begins at an offset, of which the first `skip` characters still
belong to the lexeme before. -/
def tokensFrom (skip offset : Nat) : Text → Except Error (List Token)
  | [] => .ok [⟨.ending, [], offset⟩]
  | c :: rest =>
      match skip with
      | skip + 1 => tokensFrom skip (offset + 1) rest
      | 0 =>
          match Lexeme.first c rest with
          | .error flaw => .error ⟨offset, flaw⟩
          | .ok l => do
              let tokens ← tokensFrom (l.text.length - 1) (offset + 1) rest
              match l.kind with
              | some kind => .ok (⟨kind, l.text, offset⟩ :: tokens)
              | none => .ok tokens

def tokenize (src : Text) : Except Error (List Token) := tokensFrom 0 0 src

theorem tokensFrom_append (offset : Nat) (skipped rest : Text) :
    tokensFrom skipped.length offset (skipped ++ rest) =
      tokensFrom 0 (offset + skipped.length) rest := by
  induction skipped generalizing offset with
  | nil => rfl
  | cons c skipped ih =>
      rw [List.cons_append, List.length_cons, tokensFrom, ih]
      congr 1
      omega

/-- The end of the source is the last token. -/
@[simp] theorem tokensFrom_nil (skip offset : Nat) :
    tokensFrom skip offset [] = .ok [⟨.ending, [], offset⟩] := by
  rw [tokensFrom]

theorem tokensFrom_of_error {offset : Nat} {c : CodePoint} {rest : Text} {flaw : Flaw}
    (h : Lexeme.first c rest = .error flaw) :
    tokensFrom 0 offset (c :: rest) = .error ⟨offset, flaw⟩ := by
  rw [tokensFrom, h]

/-- The tokens of a source are its first lexeme, unless that is layout, and the tokens of what
follows it. -/
theorem tokensFrom_of_ok {offset : Nat} {c : CodePoint} {rest : Text} {l : Lexeme}
    (h : Lexeme.first c rest = .ok l) :
    tokensFrom 0 offset (c :: rest) = (do
      let tokens ← tokensFrom 0 (offset + l.text.length) l.rest
      match l.kind with
      | some kind => .ok (⟨kind, l.text, offset⟩ :: tokens)
      | none => .ok tokens) := by
  obtain ⟨more, text, whole⟩ := Lexeme.split_of_first h
  have skip : tokensFrom (l.text.length - 1) (offset + 1) rest =
      tokensFrom 0 (offset + l.text.length) l.rest := by
    rw [← whole, text, List.length_cons, Nat.add_sub_cancel, tokensFrom_append]
    congr 1
    omega
  rw [tokensFrom, h]
  simp only [skip]

end Notation

end Peg
