import Peg.Text.Number

/-!
# UTF-8

Bytes are decoded one by one. A lead byte says how many continuation bytes follow and bounds the
first of them, so that overlong forms, surrogates and numbers above U+10FFFF are refused at the
first byte that no character goes on with. The bytes that are reported are those of the longest
beginning of a character; the byte that is at fault is not one of them unless it stands alone.
-/

namespace Peg

/-- The number of bytes that encode a character. -/
def CodePoint.utf8Size (c : CodePoint) : Nat :=
  if c.val < 0x80 then 1 else if c.val < 0x800 then 2 else if c.val < 0x10000 then 3 else 4

namespace Source

/-- What is wrong with bytes that are not UTF-8. -/
inductive Utf8Fault where
  /-- A byte that begins no character. -/
  | invalidStart
  /-- A byte that does not go on with the character begun. -/
  | invalidContinuation
  /-- The bytes end within a character. -/
  | unexpectedEnd
deriving DecidableEq

def Utf8Fault.message : Utf8Fault → Text
  | invalidStart => "invalid start byte"
  | invalidContinuation => "invalid continuation byte"
  | unexpectedEnd => "unexpected end of data"

/-- Bytes that are not UTF-8. -/
structure Utf8Error where
  /-- The first byte of the sequence at fault. -/
  byte : UInt8
  /-- The offset of that byte. -/
  first : Nat
  /-- The offset of the last byte of the sequence. -/
  last : Nat
  /-- What is wrong with it. -/
  fault : Utf8Fault
deriving DecidableEq

/-- The wording of the error. -/
def Utf8Error.message (e : Utf8Error) : Text :=
  let place : Text :=
    if e.first = e.last then
      ("byte 0x" : Text) ++ Text.hexadecimal 2 e.byte.toNat ++ " in position " ++ Text.ofNat e.first
    else ("bytes in position " : Text) ++ Text.ofNat e.first ++ "-" ++ Text.ofNat e.last
  ("'utf-8' codec can't decode " : Text) ++ place ++ ": " ++ e.fault.message

/-- A character of several bytes of which some are read. -/
structure Partial where
  /-- The first byte. -/
  lead : UInt8
  /-- The offset of the first byte. -/
  start : Nat
  /-- The number given by the bits read so far. -/
  bits : Nat
  /-- How many bytes are missing after the next one. -/
  more : Nat
  /-- The lowest byte that can come next. -/
  low : Nat
  /-- The highest byte that can come next. -/
  high : Nat

/-- What a byte begins: a character of one byte, a longer one, or none. -/
def leadByte (b : UInt8) (start : Nat) : Option (CodePoint ⊕ Partial) :=
  let n := b.toNat
  if n < 0x80 then some (.inl (.ofNat n))
  else if n < 0xC2 then none
  else if n < 0xE0 then some (.inr ⟨b, start, n - 0xC0, 0, 0x80, 0xBF⟩)
  else if n = 0xE0 then some (.inr ⟨b, start, n - 0xE0, 1, 0xA0, 0xBF⟩)
  else if n = 0xED then some (.inr ⟨b, start, n - 0xE0, 1, 0x80, 0x9F⟩)
  else if n < 0xF0 then some (.inr ⟨b, start, n - 0xE0, 1, 0x80, 0xBF⟩)
  else if n = 0xF0 then some (.inr ⟨b, start, n - 0xF0, 2, 0x90, 0xBF⟩)
  else if n < 0xF4 then some (.inr ⟨b, start, n - 0xF0, 2, 0x80, 0xBF⟩)
  else if n = 0xF4 then some (.inr ⟨b, start, n - 0xF0, 2, 0x80, 0x8F⟩)
  else none

/-- The text of the bytes from an offset on, after the given beginning of a character. -/
def decodeFrom (offset : Nat) : Option Partial → List UInt8 → Except Utf8Error Text
  | none, [] => .ok []
  | some p, [] => .error ⟨p.lead, p.start, offset - 1, .unexpectedEnd⟩
  | none, b :: rest =>
      match leadByte b offset with
      | some (.inl c) => return c :: (← decodeFrom (offset + 1) none rest)
      | some (.inr p) => decodeFrom (offset + 1) (some p) rest
      | none => .error ⟨b, offset, offset, .invalidStart⟩
  | some p, b :: rest =>
      if p.low ≤ b.toNat ∧ b.toNat ≤ p.high then
        let bits := p.bits * 0x40 + (b.toNat - 0x80)
        match p.more with
        | 0 => return .ofNat bits :: (← decodeFrom (offset + 1) none rest)
        | more + 1 => decodeFrom (offset + 1) (some ⟨p.lead, p.start, bits, more, 0x80, 0xBF⟩) rest
      else .error ⟨p.lead, p.start, offset - 1, .invalidContinuation⟩

def decode (bytes : List UInt8) : Except Utf8Error Text := decodeFrom 0 none bytes

end Source

end Peg
