import Peg.Text.Number
import Peg.Unicode.Printable

/-!
# Quoted texts

Messages show a text between quotes. The quotes are single unless the text holds a single quote and
no double one; the quote in use and the backslash are escaped, the line feed, carriage return and
tab have escapes of their own, and any other unprintable character is shown by its number in two,
four or eight hexadecimal digits, whichever is the shortest that fits.
-/

namespace Peg.Text

/-- The quote that surrounds a text. -/
def quoteFor (t : Text) : CodePoint :=
  if ('\'' : CodePoint) ∈ t ∧ ('"' : CodePoint) ∉ t then '"' else '\''

/-- A character as it stands between quotes of the given kind. -/
def quotedChar (quote c : CodePoint) : Text :=
  if c = quote ∨ c = '\\' then ['\\', c]
  else if c = '\n' then "\\n"
  else if c = '\r' then "\\r"
  else if c = '\t' then "\\t"
  else if c.isPrintable then [c]
  else if c.val < 0x100 then ("\\x" : Text) ++ hexadecimal 2 c.val
  else if c.val < 0x10000 then ("\\u" : Text) ++ hexadecimal 4 c.val
  else ("\\U" : Text) ++ hexadecimal 8 c.val

def quoted (t : Text) : Text :=
  [t.quoteFor] ++ t.flatMap (quotedChar t.quoteFor) ++ [t.quoteFor]

/-- Texts put in a row with `, ` between them. -/
def commaSeparated : List Text → Text
  | [] => []
  | [t] => t
  | t :: rest => t ++ ", " ++ commaSeparated rest

/-- Shown items between parentheses; a single item is followed by a comma. -/
def inParentheses : List Text → Text
  | [t] => ("(" : Text) ++ t ++ ",)"
  | items => ("(" : Text) ++ commaSeparated items ++ ")"

def inBrackets (items : List Text) : Text := ("[" : Text) ++ commaSeparated items ++ "]"

end Peg.Text
