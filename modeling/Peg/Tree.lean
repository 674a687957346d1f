/-!
# Parse trees

A successful rule leaves a tree of the stretches of text that it and its parts consumed.
-/

namespace Peg

/-- A stretch of text that a rule consumed, with the stretches of its parts. -/
structure Tree where
  /-- Where the stretch begins. -/
  start : Nat
  /-- Where it ends. -/
  stop : Nat
  /-- The stretches of the parts, in order. -/
  children : List Tree

namespace Tree

def leaf (start stop : Nat) : Tree := ⟨start, stop, []⟩

@[simp] theorem stop_leaf (start stop : Nat) : (leaf start stop).stop = stop := rfl

/-- The number of characters consumed. -/
def width (t : Tree) : Nat := t.stop - t.start

end Tree

end Peg
