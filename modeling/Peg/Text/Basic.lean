/-!
# Texts as lists of code points

A text is a list of Unicode code points. Surrogates are code points like any other, so a text can
hold characters that no `Char` stands for, and two surrogates next to each other stay two. Lengths,
offsets and comparisons count code points and nothing else.
-/

namespace Peg

/-- A Unicode code point, surrogates included, ordered by its number. -/
abbrev CodePoint := Fin 0x110000

namespace CodePoint

/-- The code point of a character. -/
def ofChar (c : Char) : CodePoint :=
  ⟨c.toNat, by
    have h := c.valid
    simp only [UInt32.isValidChar, Nat.isValidChar] at h
    simp only [Char.toNat]
    omega⟩

instance : Coe Char CodePoint := ⟨ofChar⟩

@[simp] theorem val_ofChar (c : Char) : (ofChar c).val = c.toNat := rfl

@[simp] theorem ofChar_inj {c d : Char} : ofChar c = ofChar d ↔ c = d :=
  ⟨fun h ↦ Char.ext (UInt32.toNat_inj.mp (by simpa using congrArg Fin.val h)), congrArg ofChar⟩

/-- The code point of a number; numbers that are none are reduced until they are. -/
def ofNat (n : Nat) : CodePoint := ⟨n % 0x110000, Nat.mod_lt n (by decide)⟩

theorem val_ofNat {n : Nat} (h : n < 0x110000) : (ofNat n).val = n := Nat.mod_eq_of_lt h

/-- Whether the code point is one half of a surrogate pair; no `Char` is. -/
def isSurrogate (c : CodePoint) : Bool := 0xD800 ≤ c.val && c.val ≤ 0xDFFF

/-- The character of a code point; a surrogate becomes the replacement character. -/
def toChar (c : CodePoint) : Char :=
  if c.isSurrogate then '\uFFFD' else Char.ofNat c.val

end CodePoint

/-- A text: any sequence of code points. -/
abbrev Text := List CodePoint

namespace Text

def ofString (s : String) : Text := s.toList.map CodePoint.ofChar

instance : Coe String Text := ⟨ofString⟩

/-- The text as a string, surrogates replaced. -/
def toString (t : Text) : String := String.ofList (t.map CodePoint.toChar)

/-- A text of one line: the text and the line feed that ends it. -/
def line (t : Text) : Text := t ++ (['\n'] : Text)

end Text

end Peg
