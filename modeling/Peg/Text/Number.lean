import Peg.Text.Basic

/-!
# Numbers in texts

Whole numbers are written in decimal without leading zeros, code points in lower-case hexadecimal
with a fixed number of digits, and a decimal fraction with all its places.
-/

namespace Peg.Text

def ofNat (n : Nat) : Text := (Nat.toDigits 10 n).map CodePoint.ofChar

/-- A whole number in decimal, with a minus sign when it is negative. -/
def ofInt : Int → Text
  | .ofNat n => ofNat n
  | .negSucc n => ("-" : Text) ++ ofNat (n + 1)

/-- The text filled up with zeros on the left to the given width. -/
def zeroFilled (width : Nat) (t : Text) : Text :=
  List.replicate (width - t.length) ('0' : CodePoint) ++ t

/-- A number in lower-case hexadecimal with at least `width` digits. -/
def hexadecimal (width n : Nat) : Text :=
  zeroFilled width ((Nat.toDigits 16 n).map CodePoint.ofChar)

/-- The fraction `mantissa / 10 ^ places`, written with exactly `places` digits after the point. -/
def ofDecimal (mantissa : Int) (places : Nat) : Text :=
  let sign : Text := if mantissa < 0 then "-" else ""
  let whole := ofNat (mantissa.natAbs / Nat.pow 10 places)
  let fraction := zeroFilled places (ofNat (mantissa.natAbs % Nat.pow 10 places))
  sign ++ whole ++ "." ++ fraction

end Peg.Text
