import Mathlib.Data.List.Forall2

/-!
# Results

How a result of several steps comes about: the whole succeeds when every step does, and fails with
the first failure.
-/

namespace List.Forall₂

variable {α β : Type} {R : α → β → Prop} {as : List α} {bs : List β}

/-- What stands on the left has a partner on the right. -/
theorem exists_right (h : Forall₂ R as bs) {a : α} (mem : a ∈ as) : ∃ b ∈ bs, R a b := by
  induction h with
  | nil => cases mem
  | @cons a' b' as bs first _ ih =>
      rcases List.mem_cons.mp mem with rfl | mem
      · exact ⟨b', List.mem_cons_self, first⟩
      · obtain ⟨b, mem', related⟩ := ih mem
        exact ⟨b, List.mem_cons_of_mem b' mem', related⟩

/-- What stands on the right has a partner on the left. -/
theorem exists_left (h : Forall₂ R as bs) {b : β} (mem : b ∈ bs) : ∃ a ∈ as, R a b :=
  h.flip.exists_right mem

/-- What stands somewhere on the left has a partner at the same place on the right. -/
theorem exists_getElem? (h : Forall₂ R as bs) {k : Nat} {a : α} (found : as[k]? = some a) :
    ∃ b, bs[k]? = some b ∧ R a b := by
  induction h generalizing k with
  | nil => cases found
  | @cons _ b _ _ first _ ih =>
      cases k with
      | zero =>
          cases found
          exact ⟨b, rfl, first⟩
      | succ k => exact ih found

/-- If what is related to an element in two ways has partners in two other ways, so have lists. -/
theorem exists_square {γ δ : Type} {S : α → γ → Prop} {U : β → δ → Prop} {V : γ → δ → Prop}
    {cs : List γ} (h : Forall₂ R as bs) (h' : Forall₂ S as cs)
    (each : ∀ a ∈ as, ∀ b c, R a b → S a c → ∃ d, U b d ∧ V c d) :
    ∃ ds, Forall₂ U bs ds ∧ Forall₂ V cs ds := by
  induction h generalizing cs with
  | nil =>
      cases h'
      exact ⟨[], .nil, .nil⟩
  | @cons a b as bs first _ ih =>
      cases h' with
      | @cons _ c _ cs first' others' =>
          obtain ⟨d, right, below⟩ := each a List.mem_cons_self b c first first'
          obtain ⟨ds, rights, belows⟩ :=
            ih others' fun a' mem ↦ each a' (List.mem_cons_of_mem a mem)
          exact ⟨d :: ds, .cons right rights, .cons below belows⟩

end List.Forall₂

namespace Except

variable {ε ε' α β : Type}

@[simp] theorem pure_eq_ok (a : α) : (pure a : Except ε α) = .ok a := rfl

@[simp] theorem ok_bind (a : α) (f : α → Except ε β) : (.ok a >>= f) = f a := rfl

@[simp] theorem error_bind (e : ε) (f : α → Except ε β) : (.error e >>= f) = .error e := rfl

/-- What succeeds gives something. -/
theorem exists_eq_ok {x : Except ε α} (h : x.isOk = true) : ∃ a, x = .ok a := by
  cases x with
  | error e => cases h
  | ok a => exact ⟨a, rfl⟩

/-- Two steps succeed when both do. -/
theorem bind_eq_ok_iff {x : Except ε α} {f : α → Except ε β} {b : β} :
    (x >>= f) = .ok b ↔ ∃ a, x = .ok a ∧ f a = .ok b := by
  constructor
  · intro h
    cases x with
    | error e => cases h
    | ok a => exact ⟨a, rfl, h⟩
  · rintro ⟨a, rfl, h⟩
    exact h

/-- Two steps fail when the first one does, or the second one after it. -/
theorem bind_eq_error_iff {x : Except ε α} {f : α → Except ε β} {e : ε} :
    (x >>= f) = .error e ↔ x = .error e ∨ ∃ a, x = .ok a ∧ f a = .error e := by
  constructor
  · intro h
    cases x with
    | error e' =>
        cases h
        exact .inl rfl
    | ok a => exact .inr ⟨a, rfl, h⟩
  · rintro (rfl | ⟨a, rfl, h⟩)
    · rfl
    · exact h

/-- A step repeated along a list succeeds when it does for every element. -/
theorem mapM_eq_ok_iff {f : α → Except ε β} {as : List α} {bs : List β} :
    as.mapM f = .ok bs ↔ List.Forall₂ (fun a b ↦ f a = .ok b) as bs := by
  induction as generalizing bs with
  | nil =>
      constructor
      · rintro ⟨⟩
        exact .nil
      · rintro ⟨⟩
        rfl
  | cons a as ih =>
      rw [List.mapM_cons]
      constructor
      · intro h
        obtain ⟨b, first, tail⟩ := bind_eq_ok_iff.mp h
        obtain ⟨bs', others, same⟩ := bind_eq_ok_iff.mp tail
        cases same
        exact .cons first (ih.mp others)
      · rintro (_ | ⟨first, others⟩)
        rw [first, ih.mpr others]
        rfl

/-- Steps that give the same for related elements do so along related lists. -/
theorem mapM_congr {α' : Type*} {R : α → α' → Prop} {f : α → Except ε β} {f' : α' → Except ε β}
    {as : List α} {as' : List α'} (h : List.Forall₂ R as as')
    (same : ∀ a a', R a a' → f' a' = f a) : as'.mapM f' = as.mapM f := by
  induction h with
  | nil => rfl
  | cons first _ ih => rw [List.mapM_cons, List.mapM_cons, same _ _ first, ih]

theorem mapM_congr_mem {f f' : α → Except ε β} {as : List α} (same : ∀ a ∈ as, f' a = f a) :
    as.mapM f' = as.mapM f := by
  refine mapM_congr (R := fun a a' ↦ a' = a ∧ f' a = f a) ?_ ?_
  · exact List.forall₂_same.mpr fun a mem ↦ ⟨rfl, same a mem⟩
  · rintro a _ ⟨rfl, both⟩
    exact both

/-- The error of a result that is none. -/
def failure? : Except ε α → Option ε
  | .error e => some e
  | .ok _ => none

/-- A result has an error if it is that error. -/
@[simp] theorem failure?_eq_some_iff {x : Except ε α} {e : ε} :
    x.failure? = some e ↔ x = .error e := by
  cases x with
  | error e' => exact ⟨fun h ↦ congrArg Except.error (Option.some.inj h),
      fun h ↦ congrArg some (Except.error.inj h)⟩
  | ok a => exact ⟨nofun, nofun⟩

/-- A result that has no error succeeds. -/
@[simp] theorem failure?_eq_none_iff {x : Except ε α} : x.failure? = none ↔ ∃ a, x = .ok a := by
  cases x with
  | error e => exact ⟨nofun, nofun⟩
  | ok a => exact ⟨fun _ ↦ ⟨a, rfl⟩, fun _ ↦ rfl⟩

/-- The error of two steps is that of the first one, or else that of the second one. -/
theorem failure?_bind {x : Except ε α} {f : α → Except ε β} {second : Option ε}
    (h : ∀ a, x = .ok a → (f a).failure? = second) :
    (x >>= f).failure? = x.failure?.or second := by
  cases x with
  | error e => rfl
  | ok a => exact h a rfl

/-- What is made of a result has the same error. -/
theorem failure?_map (x : Except ε α) (f : α → β) :
    (do return f (← x) : Except ε β).failure? = x.failure? := by
  cases x <;> rfl

/-- The error of a step that is repeated along a list is the first one. -/
theorem failure?_mapM (f : α → Except ε β) (as : List α) :
    (as.mapM f).failure? = as.findSome? fun a ↦ (f a).failure? := by
  induction as with
  | nil => rfl
  | cons a as ih =>
      rw [List.mapM_cons, failure?_bind fun b _ ↦ failure?_map (as.mapM f) (b :: ·), ih,
        List.findSome?_cons]
      cases (f a).failure? with
      | none => rfl
      | some e => rfl

/-- A step repeated along a list fails only if it does for an element. -/
theorem exists_error_of_mapM {f : α → Except ε β} {as : List α} {e : ε}
    (h : as.mapM f = .error e) : ∃ a ∈ as, f a = .error e := by
  rw [← failure?_eq_some_iff, failure?_mapM] at h
  obtain ⟨a, mem, fails⟩ := List.exists_of_findSome?_eq_some h
  exact ⟨a, mem, failure?_eq_some_iff.mp fails⟩

/-- A step that succeeds for every element of a list can be repeated along it. -/
theorem exists_mapM {f : α → Except ε β} {as : List α} (h : ∀ a ∈ as, ∃ b, f a = .ok b) :
    ∃ bs, as.mapM f = .ok bs := by
  induction as with
  | nil => exact ⟨[], rfl⟩
  | cons a as ih =>
      obtain ⟨b, first⟩ := h a List.mem_cons_self
      obtain ⟨bs, others⟩ := ih fun a' mem ↦ h a' (List.mem_cons_of_mem a mem)
      exact ⟨b :: bs, by rw [List.mapM_cons, first, others]; rfl⟩

/-- What every step along a list preserves holds at the end if it holds at the beginning. -/
theorem foldlM_induction {f : β → α → Except ε β} {motive : β → Prop} {as : List α}
    (step : ∀ b, ∀ a ∈ as, ∀ b', motive b → f b a = .ok b' → motive b') {b b' : β}
    (h : as.foldlM f b = .ok b') (first : motive b) : motive b' := by
  induction as generalizing b with
  | nil =>
      cases h
      exact first
  | cons a as ih =>
      rw [List.foldlM_cons] at h
      obtain ⟨b'', once, others⟩ := bind_eq_ok_iff.mp h
      refine ih (fun b₁ a' mem ↦ step b₁ a' (List.mem_cons_of_mem a mem)) others ?_
      exact step b a List.mem_cons_self b'' first once

/-- The errors of two steps are changed in each of them. -/
theorem mapError_bind (x : Except ε α) (f : α → Except ε β) (g : ε → ε') :
    (x >>= f).mapError g = x.mapError g >>= fun a ↦ (f a).mapError g := by
  cases x <;> rfl

/-- A change of errors succeeds when what is changed does. -/
theorem mapError_eq_ok_iff {x : Except ε α} {f : ε → ε'} {a : α} :
    x.mapError f = .ok a ↔ x = .ok a := by
  cases x with
  | error e => exact ⟨nofun, nofun⟩
  | ok a' => exact ⟨fun h ↦ by cases h; rfl, fun h ↦ by cases h; rfl⟩

/-- A change of errors fails when what is changed does. -/
theorem mapError_eq_error_iff {x : Except ε α} {f : ε → ε'} {e' : ε'} :
    x.mapError f = .error e' ↔ ∃ e, x = .error e ∧ f e = e' := by
  constructor
  · intro h
    cases x with
    | error e => exact ⟨e, rfl, Except.error.inj h⟩
    | ok a => cases h
  · rintro ⟨e, rfl, rfl⟩
    rfl

/-- The error of a step that is repeated along a list is changed in each repetition. -/
theorem mapError_mapM (f : α → Except ε β) (g : ε → ε') (as : List α) :
    (as.mapM f).mapError g = as.mapM fun a ↦ (f a).mapError g := by
  induction as with
  | nil => rfl
  | cons a as ih =>
      rw [List.mapM_cons, List.mapM_cons, mapError_bind]
      refine congrArg _ (funext fun b ↦ ?_)
      rw [← ih, mapError_bind]
      rfl

/-! ## Results up to an error -/

/-- The first result is the second one, unless it is the given error. -/
def UpTo (e : ε) (x y : Except ε α) : Prop := x = .error e ∨ x = y

namespace UpTo

variable {e : ε} {x y z : Except ε α}

@[simp] theorem refl (e : ε) (x : Except ε α) : UpTo e x x := .inr rfl

@[simp] theorem error (e : ε) (x : Except ε α) : UpTo e (.error e) x := .inl rfl

theorem eq_of_ne (h : UpTo e x y) (other : x ≠ .error e) : y = x := (h.resolve_left other).symm

theorem trans (h : UpTo e x y) (h' : UpTo e y z) : UpTo e x z := by
  rcases h with given | rfl
  · exact .inl given
  · exact h'

/-- Two steps are the same up to an error if each of them is. -/
theorem bind {f g : α → Except ε β} (h : UpTo e x y) (hfg : ∀ a, UpTo e (f a) (g a)) :
    UpTo e (x >>= f) (y >>= g) := by
  rcases h with rfl | rfl
  · exact .inl rfl
  · cases x with
    | error e' => exact .refl e _
    | ok a => exact hfg a

theorem bind_left (x : Except ε α) {f g : α → Except ε β} (hfg : ∀ a, UpTo e (f a) (g a)) :
    UpTo e (x >>= f) (x >>= g) :=
  (refl e x).bind hfg

theorem bind_right (h : UpTo e x y) (f : α → Except ε β) : UpTo e (x >>= f) (y >>= f) :=
  h.bind fun a ↦ .refl e (f a)

/-- A step repeated along a list is the same up to an error if it is for every element. -/
theorem mapM {f g : α → Except ε β} {as : List α} (h : ∀ a ∈ as, UpTo e (f a) (g a)) :
    UpTo e (as.mapM f) (as.mapM g) := by
  induction as with
  | nil => exact .refl e _
  | cons a as ih =>
      obtain ⟨first, others⟩ := List.forall_mem_cons.mp h
      rw [List.mapM_cons, List.mapM_cons]
      exact first.bind fun b ↦ (ih others).bind_right _

end UpTo

end Except
