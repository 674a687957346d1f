import Peg.Proofs.Notation.Offsets
import Peg.Proofs.Notation.Rereading

/-!
# Layout means nothing

The tokens of a source can be set with any blank space and any comments around them, as long as
there is something between any two of them. They stay the same tokens, at the offsets where they
now begin, and so the grammar stays the same.
-/

namespace Peg

open Except
open List (Forall₂)

namespace Notation

/-! ## Layout -/

/-- The text is made of blank characters, comments to the end of a line and closed block comments.
-/
inductive Layout : Text → Prop where
  /-- Nothing at all. -/
  | nil : Layout []
  /-- A blank character before other layout. -/
  | blank {c : CodePoint} (h : c.isBlank = true) {rest : Text} (others : Layout rest) :
      Layout (c :: rest)
  /-- A comment to the end of its line before other layout. -/
  | line {body : Text} (h : ∀ c ∈ body, c.isWithinLine = true) {rest : Text}
      (others : Layout rest) : Layout (("#" : Text) ++ body ++ "\n" ++ rest)
  /-- A block comment, which ends at its first `*/`, before other layout. -/
  | block {body : Text} (h : ¬ ("*/" : Text) <:+: body) {rest : Text} (others : Layout rest) :
      Layout (("/*" : Text) ++ body ++ "*/" ++ rest)

/-- The text is layout, the last line of which may be a comment that is not ended. -/
inductive LastLayout : Text → Prop where
  /-- Layout. -/
  | closed {text : Text} (h : Layout text) : LastLayout text
  /-- A comment behind layout. -/
  | line {text : Text} (h : Layout text) {body : Text}
      (within : ∀ c ∈ body, c.isWithinLine = true) : LastLayout (text ++ ("#" ++ body))

/-- The text begins with nothing that would make a longer identifier of one before it, or a comment
of a slash. -/
def Separates (text : Text) : Prop :=
  ∀ c ∈ text.head?, c.isIdentifierContinue = false ∧ c ≠ '*'

/-- Layout separates what is before it from what is behind it. -/
theorem Layout.separates {text : Text} (h : Layout text) (some : text ≠ []) (rest : Text) :
    Separates (text ++ rest) := by
  cases h with
  | nil => exact (some rfl).elim
  | @blank c blank rest _ =>
      rintro _ ⟨⟩
      simp only [CodePoint.isBlank, Bool.or_eq_true, decide_eq_true_eq] at blank
      rcases blank with ((rfl | rfl) | rfl) | rfl
      all_goals exact ⟨by decide, by decide⟩
  | line =>
      rintro _ ⟨⟩
      exact ⟨by decide, by decide⟩
  | block =>
      rintro _ ⟨⟩
      exact ⟨by decide, by decide⟩

/-- Layout at the end separates, even if there is none. -/
theorem LastLayout.separates {text : Text} (h : LastLayout text) : Separates text := by
  have closed : ∀ {text : Text}, Layout text → Separates text := by
    intro text h
    by_cases none : text = []
    · rw [none]
      exact nofun
    · rw [← List.append_nil text]
      exact h.separates none []
  cases h with
  | closed h => exact closed h
  | @line text h body within =>
      by_cases none : text = []
      · rw [none]
        rintro _ ⟨⟩
        exact ⟨by decide, by decide⟩
      · exact h.separates none _

/-! ## Cutting layout -/

/-- A comment is cut into no token where its line ends, or the source. -/
theorem cutInto_comment {body rest : Text} (within : ∀ c ∈ body, c.isWithinLine = true)
    (ends : ∀ c ∈ rest.head?, c.isWithinLine = false) (offset : Nat) :
    CutInto ("#" ++ body) offset [] rest := by
  have first : Lexeme.first '#' (body ++ rest) = .ok ⟨none, '#' :: body, rest⟩ := by
    rw [← Lexeme.run_append within ends none '#']
    rfl
  exact .layout offset first

theorem throughCommentEnd_append {body : Text} (h : ¬ ("*/" : Text) <:+: body) (rest : Text) :
    throughCommentEnd (body ++ ("*/" ++ rest)) = some (body ++ "*/", rest) := by
  induction body with
  | nil => rfl
  | cons c body ih =>
      have tail := ih (mt List.infix_cons h)
      -- two characters are looked at, and those that begin a body without `*/` are others
      have others : ∀ (d : CodePoint) more, body ++ (("*/" : Text) ++ rest) = d :: more →
          ¬ (c = '*' ∧ d = '/') := by
        rintro d more whole ⟨rfl, rfl⟩
        cases body with
        | nil => cases whole
        | cons _ body =>
            cases whole
            exact h ⟨[], body, rfl⟩
      cases whole : body ++ (("*/" : Text) ++ rest) with
      | nil =>
          rw [whole] at tail
          cases tail
      | cons d more =>
          have other := others d more whole
          rw [List.cons_append, whole, throughCommentEnd, if_neg other, ← whole, tail]
          rfl

/-- A block comment is cut into no token. -/
theorem cutInto_blockComment {body : Text} (h : ¬ ("*/" : Text) <:+: body) (offset : Nat)
    (rest : Text) : CutInto (("/*" : Text) ++ body ++ "*/") offset [] rest := by
  have first : Lexeme.first '/' (("*" : Text) ++ body ++ "*/" ++ rest) =
      .ok ⟨none, ("/*" : Text) ++ body ++ "*/", rest⟩ := by
    have whole := throughCommentEnd_append h rest
    rw [← List.append_assoc] at whole
    show Lexeme.blockComment '/' (('*' : CodePoint) :: (body ++ "*/" ++ rest)) = _
    rw [Lexeme.blockComment, List.drop_succ_cons, List.drop_zero, whole]
    rfl
  exact .layout offset first

/-- Layout is cut into no token. -/
theorem Layout.cutInto {text : Text} (h : Layout text) (offset : Nat) (rest : Text) :
    CutInto text offset [] rest := by
  induction h generalizing offset with
  | nil => exact .nil offset rest
  | @blank c blank others _ ih => exact (cutInto_blank blank offset _).append (ih _)
  | @line body within others _ ih =>
      have ends : ∀ c ∈ (("\n" : Text) ++ (others ++ rest)).head?, c.isWithinLine = false := by
        rintro _ ⟨⟩
        decide
      have comment := (cutInto_comment within ends offset).append (cutInto_lineFeed _ _)
      exact comment.append (ih _)
  | @block body closed others _ ih => exact (cutInto_blockComment closed offset _).append (ih _)

/-- Layout at the end is cut into the ending. -/
theorem LastLayout.tokensFrom_eq {text : Text} (h : LastLayout text) (offset : Nat) :
    tokensFrom 0 offset text = .ok [⟨.ending, [], offset + text.length⟩] := by
  have cut : CutInto text offset [] [] := by
    cases h with
    | closed h => exact h.cutInto offset []
    | line h within =>
        have ends : ∀ c ∈ ([] : Text).head?, c.isWithinLine = false := by simp
        exact (h.cutInto offset _).append (cutInto_comment within ends _)
  exact cut.tokensFrom_eq

/-! ## Tokens alone -/

/-- The text is cut into its token before whatever separates it. -/
def StandsAlone (t : Token) : Prop :=
  ∀ offset rest, Separates rest → CutInto t.text offset [{ t with offset }] rest

theorem standsAlone_arrow {c : CodePoint} {rest : Text} (arrow : Lexeme.isArrow c rest = true)
    (offset : Nat) : StandsAlone ⟨.arrow, c :: rest.take 1, offset⟩ := by
  cases rest with
  | nil => cases arrow
  | cons d rest =>
      have arrow : ∀ rest', Lexeme.isArrow c (d :: rest') = true := fun _ ↦ arrow
      exact fun offset rest' _ ↦ .token offset (first_of_isArrow (arrow rest'))

theorem exists_passedOver {delimiter : CodePoint} {src body after : Text}
    (h : throughDelimiter delimiter src = some (body, after)) :
    ∃ text, PassedOver delimiter text ∧ body = text ++ [delimiter] := by
  fun_induction throughDelimiter delimiter src generalizing body after with
  | case1 => cases h
  | case2 =>
      cases h
      exact ⟨[], .nil, rfl⟩
  | case3 => cases h
  | case4 d rest ne ih =>
      obtain ⟨⟨b, a⟩, cut, eq⟩ := Option.map_eq_some_iff.mp h
      cases eq
      obtain ⟨text, passed, rfl⟩ := ih cut
      exact ⟨_, (PassedOver.escaped (Ne.symm ne) d).append passed, rfl⟩
  | case5 c rest ne ne' ih =>
      obtain ⟨⟨b, a⟩, cut, eq⟩ := Option.map_eq_some_iff.mp h
      cases eq
      obtain ⟨text, passed, rfl⟩ := ih cut
      exact ⟨_, (PassedOver.singleton ne ne').append passed, rfl⟩

/-- A delimited text stands alone. -/
theorem standsAlone_delimited {kind kind' : TokenKind} {flaw : Flaw} {delimiter c : CodePoint}
    (first : ∀ src, Lexeme.first c src = Lexeme.delimited kind flaw delimiter c src) {rest : Text}
    {l : Lexeme} (h : Lexeme.delimited kind flaw delimiter c rest = .ok l)
    (same : l.kind = some kind') (offset : Nat) : StandsAlone ⟨kind', l.text, offset⟩ := by
  unfold Lexeme.delimited at h
  split at h
  next body after cut =>
    cases h
    cases same
    obtain ⟨text, passed, rfl⟩ := exists_passedOver cut
    intro offset rest' _
    refine CutInto.token offset ?_
    have close := passed.throughDelimiter_eq rest'
    rw [first, Lexeme.delimited, List.append_assoc, List.singleton_append, close]
  next => cases h

theorem opensComment_of_separates {rest : Text} (separates : Separates rest) (c : CodePoint) :
    Lexeme.opensComment c rest = false := by
  cases rest with
  | nil => rfl
  | cons d rest => simp [Lexeme.opensComment, (separates d rfl).2]

/-- Every token of a source stands alone. -/
theorem Lexeme.standsAlone {c : CodePoint} {rest : Text} {l : Lexeme} {kind : TokenKind}
    (h : Lexeme.first c rest = .ok l) (same : l.kind = some kind) (offset : Nat) :
    StandsAlone ⟨kind, l.text, offset⟩ := by
  have identifier := Lexeme.isIdentifier h
  unfold Lexeme.first at h
  repeat' split at h
  -- the first three are layout, which is no token
  next =>
    cases h
    cases same
  next =>
    cases h
    cases same
  next =>
    unfold Lexeme.blockComment at h
    split at h
    · cases h
      cases same
    · cases h
  next arrow =>
    cases h
    cases same
    exact standsAlone_arrow arrow offset
  next =>
    cases h
    cases same
    exact fun offset rest' separates ↦
      cutInto_identifier (identifier rfl) offset fun d mem ↦ (separates d mem).1
  next quote => exact standsAlone_delimited (first_of_isQuote quote) h same offset
  next bracket =>
    cases bracket
    exact standsAlone_delimited first_bracket h same offset
  next operator =>
    cases h
    cases same
    -- an operator stays one before anything that does not make a slash open a comment
    exact fun offset rest' separates ↦ cutInto_operator (List.contains_iff_mem.mp operator) offset
      (opensComment_of_separates separates c)
  next => cases h

theorem exists_row_of_tokensFrom {skip offset : Nat} {src : Text} {tokens : List Token}
    (h : tokensFrom skip offset src = .ok tokens) :
    ∃ row last, tokens = row ++ [⟨.ending, [], last⟩] ∧ ∀ t ∈ row, StandsAlone t := by
  refine tokensFrom_induction (motive := fun tokens ↦
    ∃ row last, tokens = row ++ [⟨.ending, [], last⟩] ∧ ∀ t ∈ row, StandsAlone t) ?_ ?_ h
  · exact fun offset ↦ ⟨[], offset, rfl, nofun⟩
  · rintro c rest l kind offset _ first same ⟨row, last, rfl, alone⟩
    refine ⟨⟨kind, l.text, offset⟩ :: row, last, rfl, ?_⟩
    rintro t (_ | ⟨_, mem⟩)
    · exact Lexeme.standsAlone first same offset
    · exact alone t mem

/-! ## Spaced tokens -/

/-- The source of tokens with texts before each of them and a last text behind them. -/
def spread : List (Text × Token) → Text → Text
  | [], last => last
  | (gap, t) :: spaced, last => gap ++ t.text ++ spread spaced last

/-- The tokens and the ending, where they begin if the source begins at an offset. -/
def placed (offset : Nat) : List (Text × Token) → Text → List Token
  | [], last => [⟨.ending, [], offset + last.length⟩]
  | (gap, t) :: spaced, last =>
      { t with offset := offset + gap.length } ::
        placed (offset + gap.length + t.text.length) spaced last

/-- There is layout around the tokens, and some between any two of them. -/
structure Spacing (spaced : List (Text × Token)) (last : Text) : Prop where
  /-- Before each token there is layout. -/
  layout : ∀ entry ∈ spaced, Layout entry.1
  /-- There is some before each token but the first. -/
  between : ∀ entry ∈ spaced.tail, entry.1 ≠ []
  /-- Behind the tokens there is layout, in which a comment need not be ended. -/
  last : LastLayout last

namespace Spacing

variable {spaced : List (Text × Token)} {last : Text}

/-- The tokens after the first one are spaced as well. -/
theorem tail {entry : Text × Token} (h : Spacing (entry :: spaced) last) : Spacing spaced last :=
  ⟨fun other mem ↦ h.layout other (List.mem_cons_of_mem entry mem),
    fun other mem ↦ h.between other (List.mem_of_mem_tail mem), h.last⟩

theorem separates {entry : Text × Token} (h : Spacing (entry :: spaced) last) :
    Separates (spread spaced last) := by
  cases spaced with
  | nil => exact h.last.separates
  | cons next spaced =>
      have layout := h.layout next (List.mem_cons_of_mem entry List.mem_cons_self)
      rw [spread, List.append_assoc]
      exact layout.separates (h.between next List.mem_cons_self) _

end Spacing

/-- Spaced tokens that stand alone are what their source is cut into. -/
theorem tokensFrom_spread {spaced : List (Text × Token)} {last : Text}
    (spacing : Spacing spaced last) (alone : ∀ entry ∈ spaced, StandsAlone entry.2)
    (offset : Nat) :
    tokensFrom 0 offset (spread spaced last) = .ok (placed offset spaced last) := by
  induction spaced generalizing offset with
  | nil => exact spacing.last.tokensFrom_eq offset
  | cons entry spaced ih =>
      obtain ⟨gap, t⟩ := entry
      have layout := spacing.layout _ List.mem_cons_self
      have others := ih spacing.tail fun entry mem ↦ alone entry (List.mem_cons_of_mem _ mem)
      have cut := (layout.cutInto offset _).append
        (alone _ List.mem_cons_self (offset + gap.length) _ spacing.separates)
      rw [spread, placed, cut, List.length_append, ← Nat.add_assoc, others]
      rfl

theorem moved_placed (offset last : Nat) (spaced : List (Text × Token)) (text : Text) :
    Forall₂ Token.Moved (spaced.map Prod.snd ++ [⟨.ending, [], last⟩])
      (placed offset spaced text) := by
  induction spaced generalizing offset with
  | nil => exact .cons (.intro ..) .nil
  | cons entry spaced ih => exact .cons (.intro ..) (ih _)

end Notation

def SourceError.unplaced : SourceError → SourceError
  | unreadable e => unreadable e.unplaced
  | e => e

open Notation in
/-- The tokens of a source may be spaced in any other way: they stay the same tokens, each where it
then begins, and the source gives the same grammar or the same error, but for the offset of a
flaw. -/
theorem Grammar.ofSource_spread {src : Text} {spaced : List (Text × Token)} {ending : Token}
    (tokenized : tokenize src = .ok (spaced.map Prod.snd ++ [ending])) {last : Text}
    (spacing : Spacing spaced last) :
    tokenize (spread spaced last) = .ok (placed 0 spaced last) ∧
    ∀ frames id start,
      (ofSource frames id (spread spaced last) start).mapError SourceError.unplaced =
        (ofSource frames id src start).mapError SourceError.unplaced := by
  obtain ⟨row, offset, whole, alone⟩ := exists_row_of_tokensFrom tokenized
  obtain ⟨same, ends⟩ := List.append_inj' whole rfl
  cases ends
  have alone : ∀ entry ∈ spaced, StandsAlone entry.2 :=
    fun entry mem ↦ alone entry.2 (same ▸ List.mem_map_of_mem mem)
  have cut : tokenize (spread spaced last) = .ok (placed 0 spaced last) :=
    tokensFrom_spread spacing alone 0
  refine ⟨cut, fun frames id start ↦ ?_⟩
  have moved := moved_placed 0 offset spaced last
  have read : (Source.rulesOf frames (spread spaced last)).mapError ReadError.unplaced =
      (Source.rulesOf frames src).mapError ReadError.unplaced := by
    rw [Source.rulesOf, Source.rulesOf, cut, tokenized]
    exact (readRules_of_moved frames moved).mapError_unplaced.symm
  have unplaced : ∀ x : Except ReadError (List (Text × Rule)),
      (x.mapError SourceError.unreadable).mapError SourceError.unplaced =
        (x.mapError ReadError.unplaced).mapError SourceError.unreadable := by
    intro x
    cases x <;> rfl
  rw [ofSource, ofSource, mapError_bind, mapError_bind, unplaced, unplaced, read]

open Notation in
/-- A slash may come right before a block comment, an asterisk right behind one, and comments may
hold what would open a token or another comment. -/
theorem Grammar.ofSource_spread_comments :
    ∃ (spaced : List (Text × Token)) (ending : Token),
      tokenize "a<-'x'/b* b<-[y]" = .ok (spaced.map Prod.snd ++ [ending]) ∧
      Spacing spaced "# end" ∧
      spread spaced "# end" = "# 'no\na <-\t'x' //* \" [ # */b/**/*\nb <-\r[y]# end" ∧
      tokenize (spread spaced "# end") = .ok (placed 0 spaced "# end") ∧
      (∀ frames id start,
        (ofSource frames id (spread spaced "# end") start).mapError SourceError.unplaced =
          (ofSource frames id "a<-'x'/b* b<-[y]" start).mapError SourceError.unplaced) ∧
      (ofSource 10 0 (spread spaced "# end") .null).isOk = true := by
  let spaced : List (Text × Token) :=
    [("# 'no\n", ⟨.identifier, "a", 0⟩), (" ", ⟨.arrow, "<-", 1⟩), ("\t", ⟨.literal, "'x'", 3⟩),
      (" ", ⟨.operator, "/", 6⟩), ("/* \" [ # */", ⟨.identifier, "b", 7⟩),
      ("/**/", ⟨.operator, "*", 8⟩), ("\n", ⟨.identifier, "b", 10⟩), (" ", ⟨.arrow, "<-", 11⟩),
      ("\r", ⟨.charClass, "[y]", 13⟩)]
  have tokenized : tokenize "a<-'x'/b* b<-[y]" =
      .ok (spaced.map Prod.snd ++ [⟨.ending, [], 16⟩]) := by
    decide +kernel
  have spacing : Spacing spaced "# end" := by
    have blank : ∀ c : CodePoint, c.isBlank = true → Layout [c] := fun c h ↦ .blank h .nil
    have within : ∀ c ∈ (" 'no" : Text), c.isWithinLine = true := List.all_eq_true.mp rfl
    have within' : ∀ c ∈ (" end" : Text), c.isWithinLine = true := List.all_eq_true.mp rfl
    have block : Layout "/* \" [ # */" := by
      have text : ("/* \" [ # */" : Text) =
          (("/*" : Text) ++ " \" [ # " ++ "*/" : Text) ++ [] := by
        decide +kernel
      rw [text]
      exact .block (by decide +kernel) .nil
    have empty : ¬ ("*/" : Text) <:+: [] := by decide
    refine ⟨?_, ?_, ?_⟩
    · simp only [spaced, List.forall_mem_cons, List.not_mem_nil, false_implies, implies_true,
        and_true]
      exact ⟨.line within .nil, blank ' ' rfl, blank '\t' rfl, blank ' ' rfl, block,
        .block empty .nil, blank '\n' rfl, blank ' ' rfl, blank '\r' rfl⟩
    · decide
    · exact .line .nil within'
  obtain ⟨cut, same⟩ := ofSource_spread tokenized spacing
  exact ⟨spaced, _, tokenized, spacing, rfl, cut, same, by decide +kernel⟩

end Peg
