import Peg.Proofs.Evaluation.Adequacy

/-!
# Trees tile the text

A tree that a rule yields begins at the position where the rule runs, and every tree in it lies
within the text. A tree that consumes something is tiled by its children, if it has any. A tree that
consumes nothing has children that consume nothing at the same position, unless it is a lookahead:
then its one child begins where it does and reaches beyond it. So the leaves that are reached
through trees that consume something spell exactly what the tree consumes.
-/

namespace Peg

/-! ## Tilings -/

namespace Tree

/-- The trees tile the stretch from `start` to `stop`: the first one begins where the stretch does,
each next one where the one before it stops, and the last one stops where the stretch does. -/
def Tiles : Nat → List Tree → Nat → Prop
  | start, [], stop => start = stop
  | start, t :: ts, stop => t.start = start ∧ Tiles t.stop ts stop

/-- The tree lies within a text of some size and its children are where they belong. -/
structure Faithful (size : Nat) (t : Tree) : Prop where
  /-- The stretch does not stop before it begins. -/
  start_le_stop : t.start ≤ t.stop
  /-- The stretch does not stop past the end of the text. -/
  stop_le_size : t.stop ≤ size
  /-- What is consumed is tiled by the children. -/
  tiles : t.start < t.stop → t.children ≠ [] → Tiles t.start t.children t.stop
  /-- Where nothing is consumed the children consume nothing, or there is one that looks ahead. -/
  still : t.start = t.stop → t.children ≠ [] →
    (∀ c ∈ t.children, c.start = t.start ∧ c.stop = t.start) ∨
      ∃ c, t.children = [c] ∧ c.start = t.start

/-- One tree stands in another one. -/
inductive PartOf (part : Tree) : Tree → Prop where
  /-- A tree stands in itself. -/
  | refl : PartOf part part
  /-- What stands in a child stands in the tree. -/
  | child {t c : Tree} (mem : c ∈ t.children) (h : PartOf part c) : PartOf part t

mutual

/-- The stretches of the leaves that consume something, left to right; trees that consume nothing
are not entered. -/
def frontier : Tree → List (Nat × Nat)
  | ⟨start, stop, []⟩ => if start < stop then [(start, stop)] else []
  | ⟨start, stop, c :: cs⟩ => if start < stop then c.frontier ++ frontierAll cs else []

def frontierAll : List Tree → List (Nat × Nat)
  | [] => []
  | t :: ts => t.frontier ++ frontierAll ts

end

/-- The characters of the stretches, one after the other. -/
def spell (text : Text) (stretches : List (Nat × Nat)) : Text :=
  stretches.flatMap fun (start, stop) ↦ text.extract start stop

/-- What holds of a tree as soon as it holds of its children holds of every tree. -/
theorem induction {motive : Tree → Prop}
    (node : ∀ start stop children, (∀ c ∈ children, motive c) → motive ⟨start, stop, children⟩)
    (t : Tree) : motive t := by
  refine @Tree.rec motive (fun ts ↦ ∀ t ∈ ts, motive t) node ?_ ?_ t
  · intro t mem
    cases mem
  · rintro head tail first others t (_ | ⟨_, mem⟩)
    · exact first
    · exact others t mem

section Tilings

variable {size start stop : Nat} {ts : List Tree}

theorem PartOf.cases_children {part : Tree} (h : PartOf part ⟨start, stop, ts⟩) :
    part = ⟨start, stop, ts⟩ ∨ ∃ c ∈ ts, PartOf part c := by
  cases h with
  | refl => exact .inl rfl
  | child mem h => exact .inr ⟨_, mem, h⟩

theorem Tiles.start_le_stop (h : Tiles start ts stop) (each : ∀ c ∈ ts, c.start ≤ c.stop) :
    start ≤ stop := by
  induction ts generalizing start with
  | nil => exact Nat.le_of_eq h
  | cons t ts ih =>
      obtain ⟨first, others⟩ := h
      have := each t List.mem_cons_self
      have := ih others fun c mem ↦ each c (List.mem_cons_of_mem t mem)
      omega

/-- Stretches that tile nothing consume nothing. -/
theorem Tiles.still (h : Tiles start ts start) (each : ∀ c ∈ ts, c.start ≤ c.stop) :
    ∀ c ∈ ts, c.start = start ∧ c.stop = start := by
  induction ts with
  | nil => exact nofun
  | cons t ts ih =>
      obtain ⟨first, others⟩ := h
      have later : ∀ c ∈ ts, c.start ≤ c.stop := fun c mem ↦ each c (List.mem_cons_of_mem t mem)
      have stays : t.stop = start := by
        have := each t List.mem_cons_self
        have := others.start_le_stop later
        omega
      rw [stays] at others
      intro c mem
      rcases List.mem_cons.mp mem with rfl | mem
      · exact ⟨first, stays⟩
      · exact ih others later c mem

theorem Faithful.of_partOf_leaf {u : Tree} (h : PartOf u (leaf start stop)) (le : start ≤ stop)
    (within : stop ≤ size) : u.Faithful size := by
  rcases h.cases_children with rfl | ⟨_, mem, _⟩
  · exact ⟨le, within, fun _ inner ↦ absurd rfl inner, fun _ inner ↦ absurd rfl inner⟩
  · cases mem

theorem Faithful.of_tiles (h : Tiles start ts stop) (each : ∀ c ∈ ts, c.start ≤ c.stop)
    (within : stop ≤ size) : Faithful size ⟨start, stop, ts⟩ where
  start_le_stop := h.start_le_stop each
  stop_le_size := within
  tiles _ _ := h
  still same _ := by
    obtain rfl : start = stop := same
    exact .inl (h.still each)

end Tilings

/-! ## Leaves -/

section Leaves

variable {text : Text} {size start stop : Nat}

theorem extract_append_extract {middle : Nat} (before : start ≤ middle) (after : middle ≤ stop) :
    text.extract start middle ++ text.extract middle stop = text.extract start stop := by
  simp only [List.extract_eq_take_drop]
  rw [show stop - start = (middle - start) + (stop - middle) by omega, List.take_add,
    List.drop_drop, Nat.add_sub_cancel' before]

@[simp] theorem spell_append (text : Text) (xs ys : List (Nat × Nat)) :
    spell text (xs ++ ys) = spell text xs ++ spell text ys := List.flatMap_append

theorem spell_frontierAll {ts : List Tree} (h : Tiles start ts stop)
    (each : ∀ c ∈ ts, c.start ≤ c.stop)
    (spelled : ∀ c ∈ ts, spell text c.frontier = text.extract c.start c.stop) :
    spell text (frontierAll ts) = text.extract start stop := by
  induction ts generalizing start with
  | nil =>
      obtain rfl : start = stop := h
      simp [frontierAll, spell]
  | cons t ts ih =>
      obtain ⟨rfl, others⟩ := h
      have later : ∀ c ∈ ts, c.start ≤ c.stop := fun c mem ↦ each c (List.mem_cons_of_mem t mem)
      rw [frontierAll, spell_append, spelled t List.mem_cons_self,
        ih others later fun c mem ↦ spelled c (List.mem_cons_of_mem t mem)]
      exact extract_append_extract (each t List.mem_cons_self) (others.start_le_stop later)

/-- The leaves that consume something spell what the tree consumes. -/
theorem spell_frontier {t : Tree} (faithful : ∀ u, PartOf u t → u.Faithful size) :
    spell text t.frontier = text.extract t.start t.stop := by
  induction t using Tree.induction with
  | node start stop children ih =>
      have root := faithful _ .refl
      by_cases consumes : start < stop
      · cases children with
        | nil => simp [frontier, consumes, spell]
        | cons c cs =>
            have each : ∀ u ∈ c :: cs, u.start ≤ u.stop := fun u mem ↦
              (faithful u (.child mem .refl)).start_le_stop
            have spelled : ∀ u ∈ c :: cs, spell text u.frontier = text.extract u.start u.stop :=
              fun u mem ↦ ih u mem fun v part ↦ faithful v (.child mem part)
            have all : frontier ⟨start, stop, c :: cs⟩ = frontierAll (c :: cs) := by
              simp [frontier, frontierAll, consumes]
            rw [all]
            exact spell_frontierAll (root.tiles consumes (List.cons_ne_nil c cs)) each spelled
      · have empty : frontier ⟨start, stop, children⟩ = [] := by
          cases children with
          | nil => simp [frontier, consumes]
          | cons c cs => simp [frontier, consumes]
        have still : stop - start = 0 := by omega
        simp [empty, spell, List.extract_eq_take_drop, still]

end Leaves

end Tree

/-! ## Rows -/

open Peg.Tree

section Rows

variable {p : Nat → Nat} {ts : List Tree}

/-- The trees of a row tile the stretch from where the row begins to where it stops, if each one
begins at its position. -/
theorem Consecutive.tiles (next : Consecutive p ts)
    (starts : ∀ k t, ts[k]? = some t → t.start = p k) : Tiles (p 0) ts (p ts.length) := by
  induction ts generalizing p with
  | nil => exact rfl
  | cons t ts ih =>
      refine ⟨starts 0 t rfl, ?_⟩
      rw [next.stop_head]
      exact ih next.tail fun k u found ↦ starts (k + 1) u found

end Rows

/-! ## Trees of rules -/

section Yields

variable {text : Text} {env : Option Grammar} {r : Rule} {pos : Nat}
  {o : Except Halt (Option Tree)} {t : Tree}

/-- A tree begins where its rule runs. -/
theorem Yields.start_eq (h : Yields text env r pos o) (tree : o = .ok (some t)) :
    t.start = pos := by
  induction h generalizing t with
  | literal | charRange | anyChar | followedBy | notFollowedBy | sequence | optional_empty
  | zeroOrMore | oneOrMore =>
      cases tree
      rfl
  | reference _ _ ih | bound _ _ ih | choice _ _ _ _ _ ih | «optional» _ _ ih => exact ih tree
  | followedBy_stops _ noTree | sequence_stops _ _ _ _ noTree | oneOrMore_stops _ noTree =>
      exact absurd tree (noTree t)
  | _ => cases tree

theorem Yields.stop_bounds (h : Yields text env r pos (.ok (some t))) (within : pos ≤ text.length) :
    pos ≤ t.stop ∧ t.stop ≤ text.length := by
  have bounds := h.stays
  rwa [Nat.max_eq_right within] at bounds

theorem Yields.tiles_zeroOrMore (h : Yields text env (.repeated r .zeroOrMore) pos (.ok (some t))) :
    Tiles pos t.children t.stop := by
  cases h with
  | zeroOrMore next each => exact next.tiles fun k u found ↦ (each k u found).start_eq rfl

/-- The positions of a row of trees that begins within the text lie within the text. -/
theorem Consecutive.le_length (next : Consecutive p ts)
    (each : ∀ k t, ts[k]? = some t → ∃ r, Yields text env r (p k) (.ok (some t)))
    (first : p 0 ≤ text.length) {k : Nat} (le : k ≤ ts.length) : p k ≤ text.length := by
  have stays : ∀ k t, ts[k]? = some t → p k ≤ t.stop ∧ t.stop ≤ max (p k) text.length := by
    intro k t found
    obtain ⟨r, yields⟩ := each k t found
    exact yields.stays
  exact Nat.max_eq_right first ▸ (next.stays stays (Nat.zero_le k) le).2

/-- The trees of a row that begins within the text, and the tree that holds them, are where they
belong if each of them is where its position is within the text. -/
theorem faithful_of_row {p : Nat → Nat} {ts : List Tree} (next : Consecutive p ts)
    (each : ∀ k t, ts[k]? = some t → ∃ r, Yields text env r (p k) (.ok (some t)) ∧
      (p k ≤ text.length → ∀ u, PartOf u t → u.Faithful text.length))
    (first : p 0 ≤ text.length) :
    ∀ u, PartOf u ⟨p 0, p ts.length, ts⟩ → u.Faithful text.length := by
  intro u part
  have yields : ∀ k t, ts[k]? = some t → ∃ r, Yields text env r (p k) (.ok (some t)) := by
    intro k t found
    obtain ⟨r, yields, -⟩ := each k t found
    exact ⟨r, yields⟩
  have within : ∀ k ≤ ts.length, p k ≤ text.length := fun k le ↦ next.le_length yields first le
  have inner : ∀ c ∈ ts, ∀ u, PartOf u c → u.Faithful text.length := by
    intro c mem
    obtain ⟨k, found⟩ := List.mem_iff_getElem?.mp mem
    obtain ⟨r, -, faithful⟩ := each k c found
    exact faithful (within k (List.getElem?_eq_some_iff.mp found).1.le)
  rcases part.cases_children with rfl | ⟨c, mem, part⟩
  · have starts : ∀ k t, ts[k]? = some t → t.start = p k := by
      intro k t found
      obtain ⟨r, yields, -⟩ := each k t found
      exact yields.start_eq rfl
    exact .of_tiles (next.tiles starts) (fun c mem ↦ (inner c mem c .refl).start_le_stop)
      (within ts.length (Nat.le_refl _))
  · exact inner c mem u part

/-- Every tree in a tree that a rule yields within the text is where it belongs. -/
theorem Yields.faithful (h : Yields text env r pos o) (within : pos ≤ text.length)
    (tree : o = .ok (some t)) : ∀ u, PartOf u t → u.Faithful text.length := by
  induction h generalizing t with
  | literal stands =>
      cases tree
      obtain ⟨before, after, rfl, rfl⟩ := stands
      exact fun u part ↦ .of_partOf_leaf part (Nat.le_add_right _ _) (by simp)
  | charRange here =>
      cases tree
      have lt := (List.getElem?_eq_some_iff.mp here).1
      exact fun u part ↦ .of_partOf_leaf part (Nat.le_succ _) lt
  | anyChar here =>
      cases tree
      exact fun u part ↦ .of_partOf_leaf part (Nat.le_succ _) here
  | notFollowedBy | optional_empty =>
      cases tree
      exact fun u part ↦ .of_partOf_leaf part (Nat.le_refl _) within
  | reference _ _ ih | bound _ _ ih | choice _ _ _ _ _ ih | «optional» _ _ ih =>
      exact ih within tree
  | @followedBy _ _ pos ahead reach ih =>
      cases tree
      intro u part
      rcases part.cases_children with rfl | ⟨c, mem, part⟩
      · -- The one child begins here and may stop anywhere.
        refine ⟨Nat.le_refl _, within, fun moves ↦ absurd moves (Nat.lt_irrefl _), fun _ _ ↦ ?_⟩
        exact .inr ⟨ahead, rfl, reach.start_eq rfl⟩
      · cases List.mem_singleton.mp mem
        exact ih within rfl u part
  | @sequence env items ts p all next each ih =>
      cases tree
      rw [← all]
      have row : ∀ k t, ts[k]? = some t → ∃ r, Yields text env r (p k) (.ok (some t)) ∧
          (p k ≤ text.length → ∀ u, PartOf u t → u.Faithful text.length) := by
        intro k t found
        obtain ⟨lt, -⟩ := List.getElem?_eq_some_iff.mp found
        have item := List.getElem?_eq_getElem (all ▸ lt)
        exact ⟨_, each k _ t item found, fun le ↦ ih k _ t item found le rfl⟩
      exact faithful_of_row next row within
  | zeroOrMore next each _ _ _ ih =>
      cases tree
      exact faithful_of_row next
        (fun k t found ↦ ⟨_, each k t found, fun le ↦ ih k t found le rfl⟩) within
  | @oneOrMore _ r pos first others once more ih ihMore =>
      cases tree
      have bounds := once.stop_bounds within
      have later := ihMore bounds.2 rfl
      have inner : ∀ c ∈ first :: others.children, ∀ u, PartOf u c → u.Faithful text.length := by
        intro c mem u part
        rcases List.mem_cons.mp mem with rfl | mem
        · exact ih within rfl u part
        · exact later u (.child mem part)
      intro u part
      rcases part.cases_children with rfl | ⟨c, mem, part⟩
      · exact .of_tiles ⟨once.start_eq rfl, more.tiles_zeroOrMore⟩
          (fun c mem ↦ (inner c mem c .refl).start_le_stop) (more.stop_bounds bounds.2).2
      · exact inner c mem u part
  | followedBy_stops _ noTree | sequence_stops _ _ _ _ noTree | oneOrMore_stops _ noTree =>
      exact absurd tree (noTree t)
  | _ => cases tree

/-- A tree that a run within the text gives begins where the rule runs; every tree in it lies within
the text and has its children where they belong; and the leaves that consume something spell, left
to right, the stretch that the tree consumes. -/
theorem eval_tiles {frames : Nat} (ran : eval text.toArray frames env r pos = .ok (some t))
    (within : pos ≤ text.length) :
    t.start = pos ∧ (∀ u, PartOf u t → u.Faithful text.length) ∧
      spell text t.frontier = text.extract t.start t.stop := by
  have yields : Yields text env r pos (.ok (some t)) := yields_of_eval ran nofun
  have faithful := yields.faithful within rfl
  exact ⟨yields.start_eq rfl, faithful, spell_frontier faithful⟩

/-- A lookahead reaches beyond its tree, and the rest of the text is spelled by the leaves behind
it. -/
theorem eval_tiles_lookahead : ∃ t : Tree,
    eval ("xaab" : Text).toArray 9 none (.sequence [.followedBy (.literal "aa"),
      .repeated (.choice [.literal "a", .literal ""]) .oneOrMore, .notFollowedBy (.literal "a"),
      .anyChar]) 1 = .ok (some t) ∧
    t.start = 1 ∧ t.stop = 4 ∧ (∀ u, PartOf u t → u.Faithful 4) ∧
    spell "xaab" t.frontier = ("aab" : Text) := by
  have ran : eval ("xaab" : Text).toArray 9 none (.sequence [.followedBy (.literal "aa"),
      .repeated (.choice [.literal "a", .literal ""]) .oneOrMore, .notFollowedBy (.literal "a"),
      .anyChar]) 1 = .ok (some ⟨1, 4, [⟨1, 1, [.leaf 1 3]⟩, ⟨1, 3, [.leaf 1 2, .leaf 2 3]⟩,
        .leaf 3 3, .leaf 3 4]⟩) := rfl
  obtain ⟨start, faithful, spelled⟩ := @eval_tiles "xaab" _ _ _ _ _ ran (by decide)
  exact ⟨_, ran, start, rfl, faithful, spelled⟩

end Yields

end Peg
