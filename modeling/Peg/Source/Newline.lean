import Peg.Text.Basic

/-!
# Line ends

A line may end in a line feed, in a carriage return, or in a carriage return and a line feed. Read
from a file all three become a line feed. Other separators of lines stay as they are.

The text of a grammar has its line ends replaced once more after it was read, first those of two
characters and then those of one. The two ways agree on every text, so nothing is left to replace.
-/

namespace Peg

namespace Text

/-- The text with a piece replaced wherever it stands, read from the left, from where a number of
characters is passed over. -/
def replaceFrom (piece new : Text) : Nat → Text → Text
  | _, [] => []
  | passed + 1, _ :: rest => replaceFrom piece new passed rest
  | 0, c :: rest =>
      if piece <+: c :: rest then new ++ replaceFrom piece new (piece.length - 1) rest
      else c :: replaceFrom piece new 0 rest

/-- The text with a piece that is not empty replaced wherever it stands, read from the left. -/
def replace (piece new t : Text) : Text := replaceFrom piece new 0 t

theorem replace_cons_of_not_isPrefix {piece new t : Text} {c : CodePoint}
    (absent : ¬ piece <+: c :: t) : replace piece new (c :: t) = c :: replace piece new t :=
  if_neg absent

theorem replace_single_cons (c : CodePoint) (new t : Text) :
    replace [c] new (c :: t) = new ++ replace [c] new t :=
  if_pos (List.prefix_append [c] t)

theorem replace_pair_cons (c d : CodePoint) (new t : Text) :
    replace [c, d] new (c :: d :: t) = new ++ replace [c, d] new t :=
  if_pos (List.prefix_append [c, d] t)

end Text

namespace Source

/-- The text with every line end turned into a line feed. -/
def unifyNewlines : Text → Text
  | [] => []
  | [c] => [if c = '\r' then '\n' else c]
  | c :: d :: rest =>
      if c = '\r' then
        if d = '\n' then '\n' :: unifyNewlines rest else '\n' :: unifyNewlines (d :: rest)
      else c :: unifyNewlines (d :: rest)

/-- No carriage return is left. -/
theorem return_not_mem_unifyNewlines (t : Text) : ('\r' : CodePoint) ∉ unifyNewlines t := by
  fun_induction unifyNewlines t with
  | case1 => simp
  | case2 c => split <;> simp_all [eq_comm]
  | case3 rest ih => simp_all
  | case4 d rest _ ih => simp_all
  | case5 c d rest hc ih => simp_all [eq_comm]

theorem unifyNewlines_of_not_mem {t : Text} (h : ('\r' : CodePoint) ∉ t) : unifyNewlines t = t := by
  fun_induction unifyNewlines t with
  | case1 => rfl
  | case2 c => simp_all [eq_comm]
  | case3 rest ih => exact absurd List.mem_cons_self h
  | case4 d rest _ ih => exact absurd List.mem_cons_self h
  | case5 c d rest hc ih => rw [ih (fun later ↦ h (List.mem_cons_of_mem c later))]

theorem unifyNewlines_unifyNewlines (t : Text) :
    unifyNewlines (unifyNewlines t) = unifyNewlines t :=
  unifyNewlines_of_not_mem (return_not_mem_unifyNewlines t)

/-- The text with the line ends of two characters and then the other ones replaced by line feeds. -/
def withLineFeeds (t : Text) : Text :=
  Text.replace ['\r'] ['\n'] (Text.replace ['\r', '\n'] ['\n'] t)

/-- Replacing line ends is unifying them. -/
theorem withLineFeeds_eq_unifyNewlines (t : Text) : withLineFeeds t = unifyNewlines t := by
  have feed : ∀ t : Text, Text.replace ['\r'] ['\n'] ((CodePoint.ofChar '\n') :: t) =
      CodePoint.ofChar '\n' :: Text.replace ['\r'] ['\n'] t := fun t ↦
    Text.replace_cons_of_not_isPrefix (by simp)
  fun_induction unifyNewlines t with
  | case1 => rfl
  | case2 c =>
      rw [withLineFeeds, Text.replace_cons_of_not_isPrefix (by simp [List.cons_prefix_cons])]
      by_cases back : c = '\r'
      · rw [if_pos back, back]
        rfl
      · rw [if_neg back]
        exact Text.replace_cons_of_not_isPrefix (by simp [Ne.symm back])
  | case3 rest ih =>
      rw [withLineFeeds, Text.replace_pair_cons, List.singleton_append, feed, ← ih, withLineFeeds]
  | case4 d rest other ih =>
      rw [withLineFeeds, Text.replace_cons_of_not_isPrefix (by simp [Ne.symm other]),
        Text.replace_single_cons, List.singleton_append, ← ih, withLineFeeds]
  | case5 c d rest other ih =>
      rw [withLineFeeds, Text.replace_cons_of_not_isPrefix (by simp [Ne.symm other]),
        Text.replace_cons_of_not_isPrefix (by simp [Ne.symm other]), ← ih, withLineFeeds]

theorem withLineFeeds_unifyNewlines (t : Text) :
    withLineFeeds (unifyNewlines t) = unifyNewlines t :=
  (withLineFeeds_eq_unifyNewlines _).trans (unifyNewlines_unifyNewlines t)

end Source

end Peg
