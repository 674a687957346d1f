import Peg.Proofs.Source.Encoding
import Peg.Source.Basic

/-!
# Line ends do not matter

A source with line feeds can be written to a file with other line ends, each chosen on its own, and
is read back as it was. Only a carriage return in front of a line feed that stays is no choice: the
two are one line end. So all files that hold a source in one of these ways give the same grammar, or
the same error at the same place of the source.
-/

namespace Peg

namespace Source

/-! ## Other line ends -/

/-- The second text is the first one with line feeds written as other line ends. -/
inductive Rewritten : Text → Text → Prop
  /-- There are no line feeds in an empty text. -/
  | nil : Rewritten [] []
  /-- Other characters stay. -/
  | other {c : CodePoint} {t u : Text} (other : c ≠ '\n') (rest : Rewritten t u) :
      Rewritten (c :: t) (c :: u)
  /-- A line feed can stay. -/
  | feed {t u : Text} (rest : Rewritten t u) : Rewritten ('\n' :: t) ('\n' :: u)
  /-- A line feed can become a carriage return and a line feed. -/
  | returnFeed {t u : Text} (rest : Rewritten t u) : Rewritten ('\n' :: t) ('\r' :: '\n' :: u)
  /-- A line feed can become a carriage return unless it stands in front of one that stays. -/
  | «return» {t u : Text} (apart : u.head? ≠ some (CodePoint.ofChar '\n')) (rest : Rewritten t u) :
      Rewritten ('\n' :: t) ('\r' :: u)

variable {t u : Text} {c : CodePoint}

/-- Every text is itself with all line feeds kept. -/
theorem Rewritten.refl (t : Text) : Rewritten t t := by
  induction t with
  | nil => exact .nil
  | cons c t ih =>
      by_cases feed : c = '\n'
      · rw [feed]
        exact .feed ih
      · exact .other feed ih

theorem unifyNewlines_cons_of_ne (other : c ≠ '\r') :
    unifyNewlines (c :: t) = c :: unifyNewlines t := by
  cases t with
  | nil => exact congrArg (· :: []) (if_neg other)
  | cons d t => exact if_neg other

theorem unifyNewlines_return_feed (t : Text) :
    unifyNewlines ('\r' :: '\n' :: t) = CodePoint.ofChar '\n' :: unifyNewlines t := rfl

theorem unifyNewlines_return_of_ne (apart : t.head? ≠ some (CodePoint.ofChar '\n')) :
    unifyNewlines ('\r' :: t) = CodePoint.ofChar '\n' :: unifyNewlines t := by
  cases t with
  | nil => rfl
  | cons d t =>
      have other : d ≠ '\n' := by simpa using apart
      rw [unifyNewlines, if_pos rfl, if_neg other]

/-- Every text is the one that it is read as, with line feeds written as other line ends. -/
theorem rewritten_unifyNewlines (t : Text) : Rewritten (unifyNewlines t) t := by
  fun_induction unifyNewlines t with
  | case1 => exact .nil
  | case2 c =>
      by_cases back : c = '\r'
      · rw [if_pos back, back]
        exact .return (by simp) .nil
      · rw [if_neg back]
        by_cases feed : c = '\n'
        · rw [feed]
          exact .feed .nil
        · exact .other feed .nil
  | case3 rest ih => exact .returnFeed ih
  | case4 d rest other ih => exact .return (by simpa using other) ih
  | case5 c d rest _ ih =>
      by_cases feed : c = '\n'
      · rw [feed]
        exact .feed ih
      · exact .other feed ih

/-- A text without carriage returns is what exactly those texts are read as that it is with line
feeds written as other line ends. -/
theorem unifyNewlines_eq_iff (feeds : ('\r' : CodePoint) ∉ t) :
    unifyNewlines u = t ↔ Rewritten t u := by
  constructor
  · rintro rfl
    exact rewritten_unifyNewlines u
  · intro rewritten
    induction rewritten with
    | nil => rfl
    | other _ _ ih =>
        rw [unifyNewlines_cons_of_ne (List.ne_of_not_mem_cons feeds).symm,
          ih (List.not_mem_of_not_mem_cons feeds)]
    | feed _ ih =>
        rw [unifyNewlines_cons_of_ne (by decide), ih (List.not_mem_of_not_mem_cons feeds)]
    | returnFeed _ ih =>
        rw [unifyNewlines_return_feed, ih (List.not_mem_of_not_mem_cons feeds)]
    | «return» apart _ ih =>
        rw [unifyNewlines_return_of_ne apart, ih (List.not_mem_of_not_mem_cons feeds)]

theorem forall_isSurrogate_iff (rewritten : Rewritten t u) :
    (∀ c ∈ t, c.isSurrogate = false) ↔ ∀ c ∈ u, c.isSurrogate = false := by
  induction rewritten with
  | nil => exact Iff.rfl
  | other _ _ ih => simp only [List.forall_mem_cons, ih]
  | feed _ ih => simp only [List.forall_mem_cons, ih]
  | returnFeed _ ih => simp only [List.forall_mem_cons, ih, isSurrogate_ofChar, true_and]
  | «return» _ _ ih => simp only [List.forall_mem_cons, ih, isSurrogate_ofChar, true_and]

/-! ## Sources in files -/

variable {bytes : List UInt8}

/-- A file holds a source if its bytes encode the source with line feeds written as other line
ends. -/
theorem grammarTextOf_eq_ok_iff : grammarTextOf bytes = .ok t ↔
    ('\r' : CodePoint) ∉ t ∧ ∃ u, Rewritten t u ∧ encode u = some bytes := by
  rw [grammarTextOf_eq_textOf, textOf]
  constructor
  · intro read
    obtain ⟨u, decoded, same⟩ := Except.bind_eq_ok_iff.mp read
    cases same
    exact ⟨return_not_mem_unifyNewlines u, u, rewritten_unifyNewlines u,
      decode_eq_ok_iff.mp decoded⟩
  · rintro ⟨feeds, u, rewritten, encoded⟩
    exact Except.bind_eq_ok_iff.mpr ⟨u, decode_eq_ok_iff.mpr encoded,
      congrArg Except.ok ((unifyNewlines_eq_iff feeds).mpr rewritten)⟩

theorem ofFile_eq_ofSource (read : grammarTextOf bytes = .ok t) (frames id : Nat)
    (start : Value) :
    Grammar.ofFile frames id bytes start = Grammar.ofSource frames id t start := by
  rw [Grammar.ofFile, read]
  rfl

/-- What reading a source from a file owes to the line ends in the file: nothing. -/
structure IndependentOfLineEnds : Prop where
  /-- A source without surrogates and carriage returns is read back from a file that holds it with
  other line ends, and gives the grammar that it gives itself, or the same error. -/
  rewritten : ∀ t u : Text, (∀ c ∈ t, c.isSurrogate = false) → ('\r' : CodePoint) ∉ t →
    Rewritten t u → ∃ bytes, encode u = some bytes ∧ grammarTextOf bytes = .ok t ∧
      ∀ frames id start,
        Grammar.ofFile frames id bytes start = Grammar.ofSource frames id t start
  /-- Every text without surrogates can be written to a file and is read from it as some source. -/
  reads : ∀ u : Text, (∀ c ∈ u, c.isSurrogate = false) →
    ∃ bytes t, encode u = some bytes ∧ grammarTextOf bytes = .ok t
  /-- No carriage return is in the source that is read from a file, and it is read once more as it
  is. Reading the text of the file has left nothing to replace. -/
  settled : ∀ bytes t, grammarTextOf bytes = .ok t → ('\r' : CodePoint) ∉ t ∧
    (∃ bytes', encode t = some bytes' ∧ grammarTextOf bytes' = .ok t) ∧ textOf bytes = .ok t
  /-- The same holds for all texts, with surrogates and without. -/
  replaced : ∀ t : Text, ('\r' : CodePoint) ∉ withLineFeeds (unifyNewlines t) ∧
    withLineFeeds (unifyNewlines (withLineFeeds (unifyNewlines t))) =
      withLineFeeds (unifyNewlines t) ∧
    withLineFeeds (unifyNewlines t) = unifyNewlines t

/-- The line ends of a file do not matter to the grammar that is read from it. -/
theorem independentOfLineEnds : IndependentOfLineEnds where
  rewritten t u scalar feeds rewritten := by
    obtain ⟨bytes, encoded⟩ := exists_encode_iff.mpr ((forall_isSurrogate_iff rewritten).mp scalar)
    have read := grammarTextOf_eq_ok_iff.mpr ⟨feeds, u, rewritten, encoded⟩
    exact ⟨bytes, encoded, read, ofFile_eq_ofSource read⟩
  reads u scalar := by
    obtain ⟨bytes, encoded⟩ := exists_encode_iff.mpr scalar
    exact ⟨bytes, unifyNewlines u, encoded, grammarTextOf_eq_ok_iff.mpr
      ⟨return_not_mem_unifyNewlines u, u, rewritten_unifyNewlines u, encoded⟩⟩
  settled bytes t read := by
    obtain ⟨feeds, u, rewritten, encoded⟩ := grammarTextOf_eq_ok_iff.mp read
    have scalar := (forall_isSurrogate_iff rewritten).mpr (exists_encode_iff.mp ⟨bytes, encoded⟩)
    obtain ⟨bytes', encoded'⟩ := exists_encode_iff.mpr scalar
    refine ⟨feeds, ⟨bytes', encoded', ?_⟩, grammarTextOf_eq_textOf bytes ▸ read⟩
    exact grammarTextOf_eq_ok_iff.mpr ⟨feeds, t, .refl t, encoded'⟩
  replaced t := by
    simp only [withLineFeeds_unifyNewlines, unifyNewlines_unifyNewlines, and_self, and_true]
    exact return_not_mem_unifyNewlines t

/-- Two line feeds of which the first one is written as a carriage return, and the second one as a
carriage return and a line feed. -/
theorem independentOfLineEnds_overlapping : ∃ bytes,
    encode "s <- 'a'\r\r\n" = some bytes ∧ grammarTextOf bytes = .ok "s <- 'a'\n\n" ∧
    ∀ frames id start, Grammar.ofFile frames id bytes start =
      Grammar.ofSource frames id "s <- 'a'\n\n" start := by
  have rewritten : Rewritten "s <- 'a'\n\n" "s <- 'a'\r\r\n" :=
    .other (by decide) <| .other (by decide) <| .other (by decide) <| .other (by decide) <|
      .other (by decide) <| .other (by decide) <| .other (by decide) <| .other (by decide) <|
        .return (by decide) <| .returnFeed .nil
  refine independentOfLineEnds.rewritten _ _ (fun c mem ↦ ?_) (by decide) rewritten
  obtain ⟨d, -, rfl⟩ := List.mem_map.mp mem
  exact isSurrogate_ofChar d

end Source

end Peg
