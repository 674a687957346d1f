import Peg.Text.Quoted

/-!
# Flaws in the notation of a grammar

Whatever is wrong with the notation is found at an offset of the source, counted in characters.
-/

namespace Peg.Notation

/-- What is wrong with the notation of a grammar. -/
inductive Flaw where
  /-- A quote without its closing quote. -/
  | unterminatedString
  /-- A bracket without its closing bracket. -/
  | unterminatedClass
  /-- A block comment without its end. -/
  | unclosedComment
  /-- A character that begins no token. -/
  | unexpectedCharacter (c : CodePoint)
  /-- An escape of the given kind without its hexadecimal digits. -/
  | invalidEscape (kind : CodePoint)
  /-- A second rule of the same name. -/
  | duplicateRule (name : Text)
  /-- A source without rules. -/
  | noRules
  /-- Something else than a name at the head of a rule. -/
  | expectedRuleName
  /-- A name at the head of a rule without an arrow after it. -/
  | expectedArrow
  /-- A parenthesis that is not closed where its expression ends. -/
  | expectedClose
  /-- A token that begins no expression. -/
  | unexpectedToken (text : Text)
  /-- The end of the source where an expression is due. -/
  | unexpectedEnd
deriving DecidableEq

/-- The wording of a flaw. -/
def Flaw.message : Flaw → Text
  | unterminatedString => "unterminated string"
  | unterminatedClass => "unterminated char class"
  | unclosedComment => "unclosed block comment"
  | unexpectedCharacter c => ("unexpected character " : Text) ++ Text.quoted [c]
  | invalidEscape kind => ("invalid \\" : Text) ++ [kind] ++ " escape"
  | duplicateRule name => ("duplicate rule '" : Text) ++ name ++ "'"
  | noRules => "empty PEG grammar"
  | expectedRuleName => "expected rule name"
  | expectedArrow => "expected '<-' or ':='"
  | expectedClose => "expected ')'"
  | unexpectedToken text => ("unexpected " : Text) ++ text.quoted
  | unexpectedEnd => "unexpected 'end of grammar'"

/-- A flaw and where it is. -/
structure Error where
  /-- The offset of the flaw in the source. -/
  offset : Nat
  /-- What is wrong there. -/
  flaw : Flaw
deriving DecidableEq

def Error.message (e : Error) : Text :=
  ("PEG parse error at " : Text) ++ Text.ofNat e.offset ++ ": " ++ e.flaw.message

end Peg.Notation
