import Peg.Notation.Flaw
import Peg.Rule.Basic

/-!
# Spelled characters

Inside quotes and brackets a character is spelled as itself or with a backslash: by a letter for the
line feed, the carriage return and the tab, by one to three octal digits, by `x` and two or `u` and
four hexadecimal digits, and any other character by itself. A spelling remembers whether it was
escaped, because in a class an escaped `-` is never the dash of a range.
-/

namespace Peg

namespace CodePoint

/-- The value of a digit, at most 15, in either case. -/
def digitValue? (c : CodePoint) : Option Nat :=
  if 48 ≤ c.val ∧ c.val ≤ 57 then some (c.val - 48)
  else if 97 ≤ c.val ∧ c.val ≤ 102 then some (c.val - 87)
  else if 65 ≤ c.val ∧ c.val ≤ 70 then some (c.val - 55)
  else none

def isDigit (base : Nat) (c : CodePoint) : Bool := c.digitValue?.any (· < base)

end CodePoint

def Text.toNat (base : Nat) (digits : Text) : Nat :=
  digits.foldl (fun n c ↦ n * base + c.digitValue?.getD 0) 0

namespace Notation

/-! ## Escapes -/

/-- One character of a literal or a class. -/
structure Spelled where
  /-- The character meant. -/
  char : CodePoint
  /-- Whether it was spelled with a backslash. -/
  escaped : Bool
deriving DecidableEq

/-- The character that a letter after a backslash names, or else the letter itself. -/
def namedEscape (c : CodePoint) : CodePoint :=
  if c = 'n' then '\n' else if c = 'r' then '\r' else if c = 't' then '\t' else c

/-- The character given by exactly `width` hexadecimal digits after a backslash and the letter
`kind`. -/
def hexadecimalEscape (kind : CodePoint) (width : Nat) (after : Text) :
    Except Flaw (CodePoint × Nat) :=
  let digits := (after.take width).takeWhile (·.isDigit 16)
  if digits.length = width then .ok (.ofNat (Text.toNat 16 digits), width)
  else .error (.invalidEscape kind)

/-- The character that a backslash, the character `c` and what comes after it spell, and how many
characters after `c` belong to the spelling. -/
def escape (c : CodePoint) (after : Text) : Except Flaw (CodePoint × Nat) :=
  if c.isDigit 8 then
    let digits := (after.take 2).takeWhile (·.isDigit 8)
    .ok (.ofNat (Text.toNat 8 (c :: digits)), digits.length)
  else if c = 'x' then hexadecimalEscape c 2 after
  else if c = 'u' then hexadecimalEscape c 4 after
  else .ok (namedEscape c, 0)

/-! ## Bodies -/

/-- The characters spelled by a text that begins at an offset of the source, and of which the first
`skip` characters still belong to the spelling before. -/
def spelledFrom (skip offset : Nat) : Text → Except Error (List Spelled)
  | [] => .ok []
  | c :: rest =>
      match skip with
      | skip + 1 => spelledFrom skip (offset + 1) rest
      | 0 =>
          if c = '\\' then
            match rest with
            | [] => .ok [⟨c, false⟩]
            | d :: after =>
                match escape d after with
                | .error flaw => .error ⟨offset, flaw⟩
                | .ok (char, used) =>
                    return ⟨char, true⟩ :: (← spelledFrom (used + 1) (offset + 1) rest)
          else return ⟨c, false⟩ :: (← spelledFrom 0 (offset + 1) rest)

/-- The characters spelled by a text that begins at an offset of the source. -/
def spelledChars (offset : Nat) (body : Text) : Except Error (List Spelled) :=
  spelledFrom 0 offset body

/-- Skipping characters is leaving them out. -/
theorem spelledFrom_append (offset : Nat) (skipped rest : Text) :
    spelledFrom skipped.length offset (skipped ++ rest) =
      spelledFrom 0 (offset + skipped.length) rest := by
  induction skipped generalizing offset with
  | nil => rfl
  | cons c skipped ih =>
      rw [List.cons_append, List.length_cons, spelledFrom, ih]
      congr 1
      omega

/-- Nothing spells nothing. -/
@[simp] theorem spelledChars_nil (offset : Nat) : spelledChars offset [] = .ok [] := by
  rw [spelledChars, spelledFrom]

theorem spelledChars_cons_of_ne {c : CodePoint} (h : c ≠ '\\') (offset : Nat) (rest : Text) :
    spelledChars offset (c :: rest) = return ⟨c, false⟩ :: (← spelledChars (offset + 1) rest) := by
  simp [spelledChars, spelledFrom, h]

/-- A backslash and what comes after it spell the character of the escape. -/
theorem spelledChars_escape (offset : Nat) (d : CodePoint) (after : Text) :
    spelledChars offset ('\\' :: d :: after) =
      match escape d after with
      | .error flaw => .error ⟨offset, flaw⟩
      | .ok (char, used) => return ⟨char, true⟩ :: (← spelledFrom used (offset + 2) after) := by
  simp [spelledChars, spelledFrom]

/-! ## Classes -/

/-- The ranges of a class: a character, an unescaped dash and another character are a range between
the two, in either order, and any other character stands for itself. -/
def rangesOf : List Spelled → List CharRange
  | [] => []
  | [c] => [.single c.char]
  | [c, d] => [.single c.char, .single d.char]
  | c :: dash :: d :: rest =>
      if dash = ⟨'-', false⟩ then .between c.char d.char :: rangesOf rest
      else .single c.char :: rangesOf (dash :: d :: rest)

end Notation

end Peg
