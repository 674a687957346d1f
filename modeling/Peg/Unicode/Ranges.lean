/-!
# Tables of code point ranges

A Unicode property is given by a table of closed ranges in ascending order. The lookup walks the
table and stops at the first range that begins above the number sought.
-/

namespace Peg.Unicode

/-- A table of closed ranges of numbers, each a lowest and a highest member, in ascending order. -/
abbrev Ranges := List (Nat × Nat)

namespace Ranges

/-- Whether a number lies in one of the ranges of an ascending table. -/
def contains : Ranges → Nat → Bool
  | [], _ => false
  | (low, high) :: rest, n => low ≤ n && (n ≤ high || contains rest n)

end Ranges

end Peg.Unicode
