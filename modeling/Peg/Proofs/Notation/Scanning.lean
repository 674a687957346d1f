import Peg.Proofs.Notation.Layout

/-!
# Scanning loses nothing

A source is a row of lexemes, each of which is found by looking at no more than the character behind
it. So the tokens of a source stand in it where their offsets say, with nothing but layout between
them, and what was scanned before a flaw would have been scanned without it just the same.

The shapes of lexemes are given by `IsLexeme` and what may not come behind them by `EndsBefore`;
both are about texts alone and do not mention how lexemes are found. `Scans` is the run of the
tokenizer, one lexeme after the other. Whatever is known about the tokens of a source is an
induction over such a run.
-/

namespace Peg.Notation

/-! ## Delimited texts -/

/-- The text holds the delimiter only behind a backslash that escapes it. -/
inductive Guarded (delimiter : CodePoint) : Text → Prop where
  /-- No text. -/
  | nil : Guarded delimiter []
  /-- A character that neither closes nor escapes. -/
  | plain {c : CodePoint} (ne_delimiter : c ≠ delimiter) (ne_backslash : c ≠ '\\') {rest : Text}
      (others : Guarded delimiter rest) : Guarded delimiter (c :: rest)
  /-- A backslash and the character that it escapes, whichever that is. -/
  | escaped (c : CodePoint) {rest : Text} (others : Guarded delimiter rest) :
      Guarded delimiter ('\\' :: c :: rest)

theorem Guarded.passedOver {delimiter : CodePoint} (ne : delimiter ≠ '\\') {text : Text}
    (h : Guarded delimiter text) : PassedOver delimiter text := by
  induction h with
  | nil => exact .nil
  | plain ne_delimiter ne_backslash _ ih =>
      exact (PassedOver.singleton ne_delimiter ne_backslash).append ih
  | escaped c _ ih => exact (PassedOver.escaped ne c).append ih

/-- A source is cut behind a delimiter if that is the first one which no backslash escapes. -/
theorem throughDelimiter_eq_some_iff {delimiter : CodePoint} (ne : delimiter ≠ '\\')
    {src body after : Text} :
    throughDelimiter delimiter src = some (body, after) ↔
      ∃ text, Guarded delimiter text ∧ body = text ++ [delimiter] ∧
        src = text ++ delimiter :: after := by
  constructor
  · intro h
    fun_induction throughDelimiter delimiter src generalizing body after with
    | case1 => cases h
    | case2 =>
        cases h
        exact ⟨[], .nil, rfl, rfl⟩
    | case3 => cases h
    | case4 d rest _ ih =>
        obtain ⟨⟨b, a⟩, cut, eq⟩ := Option.map_eq_some_iff.mp h
        cases eq
        obtain ⟨text, guarded, rfl, rfl⟩ := ih cut
        exact ⟨_, guarded.escaped d, rfl, rfl⟩
    | case5 c rest ne_delimiter ne_backslash ih =>
        obtain ⟨⟨b, a⟩, cut, eq⟩ := Option.map_eq_some_iff.mp h
        cases eq
        obtain ⟨text, guarded, rfl, rfl⟩ := ih cut
        exact ⟨_, guarded.plain ne_delimiter ne_backslash, rfl, rfl⟩
  · rintro ⟨text, guarded, rfl, rfl⟩
    exact (guarded.passedOver ne).throughDelimiter_eq after

/-! ## Block comments -/

theorem commentEnd_isPrefix_iff {c d : CodePoint} {rest : Text} :
    ("*/" : Text) <+: c :: d :: rest ↔ c = '*' ∧ d = '/' := by
  simp [Text.ofString, List.cons_prefix_cons, eq_comm]

theorem throughCommentEnd_eq_none {src : Text} (h : throughCommentEnd src = none) :
    ¬ ("*/" : Text) <:+: src := by
  fun_induction throughCommentEnd src with
  | case1 => cases h
  | case2 c d rest other ih =>
      rw [List.infix_cons_iff, commentEnd_isPrefix_iff]
      exact not_or.mpr ⟨other, ih (Option.map_eq_none_iff.mp h)⟩
  | case3 src short =>
      rintro ⟨before, after, rfl⟩
      rcases before with _ | ⟨c, _ | ⟨d, before⟩⟩ <;> exact short _ _ _ rfl

/-- A source is cut behind its first `*/`. -/
theorem exists_body_of_throughCommentEnd {src body after : Text}
    (h : throughCommentEnd src = some (body, after)) :
    ∃ text, ¬ ("*/" : Text) <:+: text ∧ body = text ++ "*/" ∧ src = text ++ "*/" ++ after := by
  fun_induction throughCommentEnd src generalizing body after with
  | case1 c d rest both =>
      obtain ⟨rfl, rfl⟩ := both
      cases h
      exact ⟨[], by decide, rfl, rfl⟩
  | case2 c d rest other ih =>
      obtain ⟨⟨b, a⟩, cut, eq⟩ := Option.map_eq_some_iff.mp h
      cases eq
      obtain ⟨text, closed, rfl, whole⟩ := ih cut
      refine ⟨c :: text, ?_, rfl, by rw [whole]; rfl⟩
      rw [List.infix_cons_iff]
      rintro (begins | later)
      · cases text with
        | nil => exact absurd begins.length_le (Nat.not_succ_le_self 1)
        | cons d' text =>
            cases whole
            exact other (commentEnd_isPrefix_iff.mp begins)
      · exact closed later
  | case3 => cases h

/-! ## Shapes of lexemes -/

/-- The texts of the lexemes, and the tokens that they are; layout is none. -/
inductive IsLexeme : Option TokenKind → Text → Prop where
  /-- A run of blank characters. -/
  | blanks {c : CodePoint} {more : Text} (h : ∀ d ∈ c :: more, d.isBlank = true) :
      IsLexeme none (c :: more)
  /-- A comment within a line. -/
  | line {body : Text} (h : ∀ c ∈ body, c.isWithinLine = true) : IsLexeme none ('#' :: body)
  /-- A comment that ends at its first `*/`. -/
  | block {body : Text} (h : ¬ ("*/" : Text) <:+: body) :
      IsLexeme none (("/*" : Text) ++ body ++ "*/")
  /-- An arrow in either spelling. -/
  | arrow {text : Text} (h : text = "<-" ∨ text = ":=") : IsLexeme (some .arrow) text
  /-- A name. -/
  | identifier {name : Text} (h : name.IsIdentifier) : IsLexeme (some .identifier) name
  /-- A text between two quotes of one kind, guarded against that quote. -/
  | literal {quote : CodePoint} (isQuote : quote = '\'' ∨ quote = '"') {body : Text}
      (h : Guarded quote body) : IsLexeme (some .literal) (quote :: (body ++ [quote]))
  /-- A text between brackets, guarded against the closing one. -/
  | charClass {body : Text} (h : Guarded ']' body) :
      IsLexeme (some .charClass) ('[' :: (body ++ ([']'] : Text)))
  /-- An operator. -/
  | operator {c : CodePoint} (h : c ∈ ("/&!?*+()." : Text)) : IsLexeme (some .operator) [c]

/-- The lexeme would not be a longer one or another one with what comes behind it. -/
structure EndsBefore (kind : Option TokenKind) (text rest : Text) : Prop where
  /-- A name is not continued. -/
  identifier : kind = some .identifier → EndsIdentifier rest
  /-- The comment in a line goes on to the end of the line. -/
  line : text.head? = some ('#' : CodePoint) → ∀ c ∈ rest.head?, c.isWithinLine = false
  /-- A slash does not open a comment. -/
  slash : text = ['/'] → ∀ c ∈ rest.head?, c ≠ '*'

theorem opensComment_iff {c : CodePoint} {rest : Text} :
    Lexeme.opensComment c rest = true ↔ c = '/' ∧ rest.head? = some ('*' : CodePoint) := by
  cases rest <;> simp [Lexeme.opensComment]

theorem isArrow_iff {c : CodePoint} {rest : Text} :
    Lexeme.isArrow c rest = true ↔ c :: rest.take 1 = "<-" ∨ c :: rest.take 1 = ":=" := by
  cases rest <;> simp [Lexeme.isArrow, Text.ofString]

theorem not_of_mem_head?_dropWhile {condition : CodePoint → Bool} {rest : Text} {d : CodePoint}
    (mem : d ∈ (rest.dropWhile condition).head?) : condition d = false := by
  have stops := List.head?_dropWhile_not condition rest
  rw [mem] at stops
  exact stops

/-- The first lexeme of a source has one of the shapes. -/
theorem Lexeme.isLexeme {c : CodePoint} {rest : Text} {l : Lexeme}
    (h : Lexeme.first c rest = .ok l) : IsLexeme l.kind l.text := by
  have named := Lexeme.isIdentifier h
  have run : ∀ {condition : CodePoint → Bool}, ∀ d ∈ rest.takeWhile condition, condition d = true :=
    fun {condition} ↦ List.all_eq_true.mp List.all_takeWhile
  have delimited : ∀ {kind flaw delimiter}, delimiter ≠ ('\\' : CodePoint) →
      Lexeme.delimited kind flaw delimiter c rest = .ok l →
        ∃ body, Guarded delimiter body ∧ l.kind = some kind ∧
          l.text = c :: (body ++ [delimiter]) := by
    intro kind flaw delimiter ne h
    unfold Lexeme.delimited at h
    split at h
    next cut =>
      cases h
      obtain ⟨body, guarded, rfl, -⟩ := (throughDelimiter_eq_some_iff ne).mp cut
      exact ⟨body, guarded, rfl, rfl⟩
    next => cases h
  unfold Lexeme.first at h
  repeat' split at h
  next blank =>
    cases h
    exact .blanks (List.forall_mem_cons.mpr ⟨blank, run⟩)
  next hash =>
    cases h
    cases hash
    exact .line run
  next opens =>
    obtain ⟨rfl, asterisk⟩ := opensComment_iff.mp opens
    obtain ⟨more, rfl⟩ := List.head?_eq_some_iff.mp asterisk
    unfold Lexeme.blockComment at h
    split at h
    next cut =>
      cases h
      obtain ⟨body, closed, rfl, -⟩ := exists_body_of_throughCommentEnd cut
      exact .block closed
    next => cases h
  next arrow =>
    cases h
    exact .arrow (isArrow_iff.mp arrow)
  next =>
    cases h
    exact .identifier (named rfl)
  next quote =>
    have ne : c ≠ '\\' := by rcases quote with rfl | rfl <;> decide
    obtain ⟨body, guarded, kind, text⟩ := delimited ne h
    rw [kind, text]
    exact .literal quote guarded
  next bracket =>
    obtain ⟨body, guarded, kind, text⟩ := delimited (by decide) h
    rw [kind, text, bracket]
    exact .charClass guarded
  next operator =>
    cases h
    exact .operator (List.contains_iff_mem.mp operator)
  next => cases h

/-- The first lexeme of a source ends where what is left begins. -/
theorem Lexeme.endsBefore {c : CodePoint} {rest : Text} {l : Lexeme}
    (h : Lexeme.first c rest = .ok l) : EndsBefore l.kind l.text l.rest := by
  obtain ⟨more, text, whole⟩ := Lexeme.split_of_first h
  refine ⟨?_, ?_, ?_⟩
  · intro kind d mem
    unfold Lexeme.first Lexeme.blockComment Lexeme.delimited at h
    repeat' split at h
    all_goals
      cases h
      try cases kind
    exact not_of_mem_head?_dropWhile mem
  · intro hash d mem
    obtain rfl : c = '#' := by
      rw [text] at hash
      exact Option.some.inj hash
    have run : Lexeme.first '#' rest = .ok (Lexeme.run none (·.isWithinLine) '#' rest) := rfl
    cases run.symm.trans h
    exact not_of_mem_head?_dropWhile mem
  · intro slash d mem asterisk
    obtain ⟨rfl, rfl⟩ := List.cons.inj (text.symm.trans slash)
    -- with an asterisk behind the slash the lexeme would be a comment
    obtain ⟨more, rfl⟩ : ∃ more, rest = ('*' : CodePoint) :: more :=
      List.head?_eq_some_iff.mp (by rw [← whole]; exact mem.trans (congrArg some asterisk))
    have comment : Lexeme.first '/' (('*' : CodePoint) :: more) =
        Lexeme.blockComment '/' (('*' : CodePoint) :: more) := rfl
    rw [comment, Lexeme.blockComment] at h
    split at h
    next => cases h; cases text
    next => cases h

/-! ## Cutting lexemes -/

theorem cutInto_blanks {text : Text} (blank : ∀ c ∈ text, c.isBlank = true) (offset : Nat)
    (rest : Text) : CutInto text offset [] rest := by
  induction text generalizing offset with
  | nil => exact .nil offset rest
  | cons c text ih =>
      obtain ⟨first, others⟩ := List.forall_mem_cons.mp blank
      exact (cutInto_blank first offset (text ++ rest)).append (ih others (offset + 1))

theorem cutInto_delimited {kind : TokenKind} {flaw : Flaw} {delimiter c : CodePoint}
    (first : ∀ src, Lexeme.first c src = Lexeme.delimited kind flaw delimiter c src)
    (ne : delimiter ≠ '\\') {body : Text} (guarded : Guarded delimiter body) (offset : Nat)
    (rest : Text) :
    CutInto (c :: (body ++ [delimiter])) offset [⟨kind, c :: (body ++ [delimiter]), offset⟩]
      rest := by
  refine .token offset ?_
  have close := (guarded.passedOver ne).throughDelimiter_eq rest
  rw [first, Lexeme.delimited, List.append_assoc, List.singleton_append, close]

/-- A lexeme is cut off in front of whatever it ends before. -/
theorem IsLexeme.cutInto {kind : Option TokenKind} {text : Text} (h : IsLexeme kind text)
    (offset : Nat) {rest : Text} (ends : EndsBefore kind text rest) :
    CutInto text offset (kind.toList.map (⟨·, text, offset⟩)) rest := by
  cases h with
  | blanks blank => exact cutInto_blanks blank offset rest
  | line within => exact cutInto_comment within (ends.line rfl) offset
  | block closed => exact cutInto_blockComment closed offset rest
  | arrow spelling =>
      obtain rfl | rfl := spelling
      · exact cutInto_arrow offset rest
      · have arrow : Lexeme.isArrow ':' (('=' : CodePoint) :: rest) = true := rfl
        exact .token offset (first_of_isArrow arrow)
  | identifier name => exact cutInto_identifier name offset (ends.identifier rfl)
  | @literal q quote body guarded =>
      have ne : q ≠ '\\' := by rcases quote with rfl | rfl <;> decide
      exact cutInto_delimited (first_of_isQuote quote) ne guarded offset rest
  | charClass guarded => exact cutInto_delimited first_bracket (by decide) guarded offset rest
  | @operator c operator =>
      refine cutInto_operator operator offset (Bool.eq_false_iff.mpr fun opens ↦ ?_)
      obtain ⟨rfl, asterisk⟩ := opensComment_iff.mp opens
      exact ends.slash rfl '*' asterisk rfl

/-- The second text is empty or begins with a line feed or as the first one. -/
def BeginsLike (rest rest' : Text) : Prop :=
  ∀ c ∈ rest'.head?, c ∈ rest.head? ∨ c = '\n'

theorem EndsBefore.of_beginsLike {kind : Option TokenKind} {text rest rest' : Text}
    (h : EndsBefore kind text rest) (like : BeginsLike rest rest') :
    EndsBefore kind text rest' := by
  refine ⟨fun identifier c mem ↦ ?_, fun hash c mem ↦ ?_, fun slash c mem ↦ ?_⟩
  · obtain same | rfl := like c mem
    · exact h.identifier identifier c same
    · decide
  · obtain same | rfl := like c mem
    · exact h.line hash c same
    · decide
  · obtain same | rfl := like c mem
    · exact h.slash slash c same
    · decide

/-! ## Runs -/

/-- The token that a lexeme is, if it is one. -/
def Lexeme.tokens (l : Lexeme) (offset : Nat) : List Token :=
  l.kind.toList.map (⟨·, l.text, offset⟩)

/-- A source that begins at an offset is cut into lexemes, some of them tokens, up to what is left.
-/
inductive Scans : Nat → Text → List Token → Text → Prop where
  /-- Nothing is cut off. -/
  | nil (offset : Nat) (src : Text) : Scans offset src [] src
  /-- The first lexeme is cut off, and others behind it. -/
  | cons {offset : Nat} {c : CodePoint} {rest : Text} {l : Lexeme} {row : List Token} {left : Text}
      (first : Lexeme.first c rest = .ok l)
      (others : Scans (offset + l.text.length) l.rest row left) :
      Scans offset (c :: rest) (l.tokens offset ++ row) left

/-- Every source is cut up to its end or to a flaw. -/
theorem exists_scans (offset : Nat) (src : Text) :
    ∃ row left, Scans offset src row left ∧
      ∀ c rest, left = c :: rest → ∃ flaw, Lexeme.first c rest = .error flaw := by
  induction n : src.length using Nat.strongRecOn generalizing offset src with
  | ind n ih =>
      subst n
      cases src with
      | nil => exact ⟨[], [], .nil offset [], nofun⟩
      | cons c rest =>
          cases first : Lexeme.first c rest with
          | error flaw =>
              refine ⟨[], c :: rest, .nil offset _, ?_⟩
              rintro _ _ ⟨⟩
              exact ⟨flaw, first⟩
          | ok l =>
              obtain ⟨more, -, whole⟩ := Lexeme.split_of_first first
              have shorter : l.rest.length < (c :: rest).length := by
                rw [← whole, List.length_cons, List.length_append]
                omega
              obtain ⟨row, left, others, stops⟩ :=
                ih _ shorter (offset + l.text.length) l.rest rfl
              exact ⟨_, left, .cons first others, stops⟩

namespace Scans

variable {offset : Nat} {src left : Text} {row : List Token}

/-- What is cut off is cut into the same tokens before everything that begins like what is left. -/
theorem exists_cutInto (h : Scans offset src row left) :
    ∃ text, src = text ++ left ∧
      ∀ left', BeginsLike left left' → CutInto text offset row left' := by
  induction h with
  | nil offset src => exact ⟨[], rfl, fun left' _ ↦ .nil offset left'⟩
  | @cons offset c rest l row left first _ ih =>
      obtain ⟨text, whole, cut⟩ := ih
      refine ⟨l.text ++ text, ?_, fun left' like ↦ ?_⟩
      · obtain ⟨more, same, whole'⟩ := Lexeme.split_of_first first
        rw [← whole', same, whole, List.append_assoc, List.cons_append]
      · have behind : BeginsLike l.rest (text ++ left') := by
          rw [whole]
          cases text with
          | nil => exact like
          | cons d text => exact fun c mem ↦ .inl mem
        have ends := (Lexeme.endsBefore first).of_beginsLike behind
        exact ((Lexeme.isLexeme first).cutInto offset ends).append (cut left' like)

/-- Where a token stands in the source, and that it ends there. -/
theorem exists_place (h : Scans offset src row left) :
    ∀ t ∈ row, ∃ before after, src = before ++ t.text ++ after ∧ t.offset = offset + before.length ∧
      IsLexeme (some t.kind) t.text ∧ EndsBefore (some t.kind) t.text after := by
  induction h with
  | nil => exact nofun
  | @cons offset c rest l row left first _ ih =>
      obtain ⟨more, text, whole⟩ := Lexeme.split_of_first first
      intro t mem
      rcases List.mem_append.mp mem with here | later
      · obtain ⟨kind, same, rfl⟩ := List.mem_map.mp here
        have same : l.kind = some kind := Option.mem_toList.mp same
        refine ⟨[], l.rest, ?_, rfl, ?_, ?_⟩
        · rw [List.nil_append, text, List.cons_append, whole]
        · rw [← same]
          exact Lexeme.isLexeme first
        · rw [← same]
          exact Lexeme.endsBefore first
      · obtain ⟨before, after, place, start, shape, ends⟩ := ih t later
        refine ⟨l.text ++ before, after, ?_, ?_, shape, ends⟩
        · rw [text, List.append_assoc, List.append_assoc, ← List.append_assoc before, ← place,
            List.cons_append, whole]
        · rw [start, List.length_append, Nat.add_assoc]

/-- The tokens come one behind the other. -/
theorem ordered (h : Scans offset src row left) :
    row.Pairwise fun t t' ↦ t.offset + t.text.length ≤ t'.offset := by
  induction h with
  | nil => exact .nil
  | @cons offset c rest l row left first others ih =>
      refine List.pairwise_append.mpr ⟨?_, ih, ?_⟩
      · unfold Lexeme.tokens
        cases l.kind with
        | none => exact .nil
        | some kind => exact List.pairwise_singleton _ _
      · intro t here t' later
        obtain ⟨kind, -, rfl⟩ := List.mem_map.mp here
        obtain ⟨before, -, -, start, -⟩ := others.exists_place t' later
        rw [start]
        exact Nat.le_add_right _ _

end Scans

/-! ## Gaps -/

/-- Layout behind layout is layout. -/
theorem Layout.append {text text' : Text} (h : Layout text) (h' : Layout text') :
    Layout (text ++ text') := by
  induction h with
  | nil => exact h'
  | blank blank _ ih => exact .blank blank ih
  | line within _ ih =>
      rw [List.append_assoc]
      exact .line within ih
  | block closed _ ih =>
      rw [List.append_assoc]
      exact .block closed ih

/-- The last layout behind layout is the last layout. -/
theorem LastLayout.append {text text' : Text} (h : Layout text) (h' : LastLayout text') :
    LastLayout (text ++ text') := by
  cases h' with
  | closed h' => exact .closed (h.append h')
  | line h' within =>
      rw [← List.append_assoc]
      exact .line (h.append h') within

theorem Layout.of_lineFeed {rest : Text} (h : Layout ('\n' :: rest)) : Layout rest := by
  generalize whole : ('\n' :: rest : Text) = text at h
  cases h with
  | nil => cases whole
  | blank _ others =>
      cases whole
      exact others
  | line => cases whole
  | block => cases whole

/-- The last layout goes on behind a line feed. -/
theorem LastLayout.of_lineFeed {rest : Text} (h : LastLayout ('\n' :: rest)) : LastLayout rest := by
  generalize whole : ('\n' :: rest : Text) = text at h
  cases h with
  | closed h =>
      subst whole
      exact .closed h.of_lineFeed
  | @line text h body within =>
      cases text with
      | nil => cases whole
      | cons c text =>
          cases whole
          exact .line h.of_lineFeed within

theorem Layout.of_line {body : Text} (within : ∀ c ∈ body, c.isWithinLine = true) :
    Layout (('#' : CodePoint) :: body ++ (['\n'] : Text)) := by
  have whole := Layout.line within .nil
  rw [List.append_nil] at whole
  exact whole

theorem Layout.of_blanks {text : Text} (blank : ∀ c ∈ text, c.isBlank = true) : Layout text := by
  induction text with
  | nil => exact .nil
  | cons c text ih =>
      obtain ⟨first, others⟩ := List.forall_mem_cons.mp blank
      exact .blank first (ih others)

/-- A blank run or a closed comment is layout; a comment in a line is the last layout. -/
theorem IsLexeme.layout {text : Text} (h : IsLexeme none text) :
    Layout text ∨
      ∃ body : Text, text = ('#' : CodePoint) :: body ∧ ∀ c ∈ body, c.isWithinLine = true := by
  cases h with
  | blanks blank => exact .inl (Layout.of_blanks blank)
  | line within => exact .inr ⟨_, rfl, within⟩
  | @block body closed =>
      have whole := Layout.block closed .nil
      rw [List.append_nil] at whole
      exact .inl whole

theorem eq_lineFeed {c : CodePoint} (h : c.isWithinLine = false) : c = '\n' := by
  simpa [CodePoint.isWithinLine] using h

theorem Layout.of_isLexeme {text gap : Text} (lexeme : IsLexeme none text) (h : Layout gap)
    {c : CodePoint} {rest : Text} (token : c ≠ '\n')
    (ends : EndsBefore none text (gap ++ c :: rest)) : Layout (text ++ gap) := by
  obtain layout | ⟨body, rfl, within⟩ := lexeme.layout
  · exact layout.append h
  · cases gap with
    | nil => exact absurd (eq_lineFeed (ends.line rfl c rfl)) token
    | cons d gap =>
        obtain rfl := eq_lineFeed (ends.line rfl d rfl)
        rw [List.append_cons]
        exact (Layout.of_line within).append h.of_lineFeed

/-- Layout that begins in front of the last layout is the last layout with it. -/
theorem LastLayout.of_isLexeme {text last : Text} (lexeme : IsLexeme none text)
    (h : LastLayout last) (ends : EndsBefore none text last) : LastLayout (text ++ last) := by
  obtain layout | ⟨body, rfl, within⟩ := lexeme.layout
  · exact LastLayout.append layout h
  · cases last with
    | nil =>
        rw [List.append_nil]
        exact .line .nil within
    | cons d last =>
        obtain rfl := eq_lineFeed (ends.line rfl d rfl)
        rw [List.append_cons]
        exact LastLayout.append (Layout.of_line within) h.of_lineFeed

/-- A token does not begin with a line feed. -/
theorem IsLexeme.exists_cons {kind : TokenKind} {text : Text} (h : IsLexeme (some kind) text) :
    ∃ c more, text = c :: more ∧ c ≠ '\n' := by
  cases h with
  | arrow spelling => rcases spelling with rfl | rfl <;> exact ⟨_, _, rfl, by decide⟩
  | identifier identifier =>
      cases text with
      | nil => exact identifier.elim
      | cons c more =>
          refine ⟨c, more, rfl, ?_⟩
          rintro rfl
          exact absurd identifier.1 (by decide)
  | literal quote => rcases quote with rfl | rfl <;> exact ⟨_, _, rfl, by decide⟩
  | charClass => exact ⟨_, _, rfl, by decide⟩
  | @operator c operator =>
      refine ⟨c, [], rfl, ?_⟩
      rintro rfl
      exact absurd operator (by decide)

/-- The tokens of a source that is cut up to its end have layout around them. -/
theorem Scans.exists_spaced {offset : Nat} {src left : Text} {row : List Token}
    (h : Scans offset src row left) (all : left = []) :
    ∃ spaced last, row = spaced.map Prod.snd ∧ src = spread spaced last ∧
      (∀ entry ∈ spaced, Layout entry.1 ∧ IsLexeme (some entry.2.kind) entry.2.text) ∧
      LastLayout last ∧
      row ++ [⟨.ending, [], offset + src.length⟩] = placed offset spaced last := by
  induction h with
  | nil offset src => exact ⟨[], src, rfl, rfl, nofun, all ▸ .closed .nil, rfl⟩
  | @cons offset c rest l row left first _ ih =>
      obtain ⟨spaced, last, rfl, src, laid, lastLaid, place⟩ := ih all
      have lexeme := Lexeme.isLexeme first
      have ends := Lexeme.endsBefore first
      have whole : c :: rest = l.text ++ l.rest := by
        obtain ⟨more, text, whole⟩ := Lexeme.split_of_first first
        rw [text, List.cons_append, whole]
      have length : offset + (c :: rest).length = offset + l.text.length + l.rest.length := by
        rw [whole, List.length_append, Nat.add_assoc]
      unfold Lexeme.tokens
      cases kind : l.kind with
      | some kind' =>
          rw [kind] at lexeme
          refine ⟨([], ⟨kind', l.text, offset⟩) :: spaced, last, rfl, ?_, ?_, lastLaid, ?_⟩
          · rw [whole, src]
            rfl
          · exact List.forall_mem_cons.mpr ⟨⟨.nil, lexeme⟩, laid⟩
          · rw [length, placed]
            exact congrArg _ place
      | none =>
          rw [kind] at lexeme ends
          cases spaced with
          | nil =>
              rw [src] at ends
              refine ⟨[], l.text ++ last, rfl, by rw [whole, src]; rfl, nofun,
                lastLaid.of_isLexeme lexeme ends, ?_⟩
              rw [length, src, placed, List.length_append, ← Nat.add_assoc]
              rfl
          | cons entry spaced =>
              obtain ⟨gap, t⟩ := entry
              obtain ⟨⟨layout, shape⟩, others⟩ := List.forall_mem_cons.mp laid
              obtain ⟨d, more, text, other⟩ := shape.exists_cons
              refine ⟨(l.text ++ gap, t) :: spaced, last, rfl, ?_, ?_, lastLaid, ?_⟩
              · rw [whole, src, spread, spread, List.append_assoc, List.append_assoc,
                  List.append_assoc]
              · rw [src, spread, List.append_assoc] at ends
                dsimp only at shape text
                rw [text] at ends
                have laid := layout.of_isLexeme lexeme other ends
                exact List.forall_mem_cons.mpr ⟨⟨laid, shape⟩, others⟩
              · rw [placed] at place ⊢
                rw [length, List.length_append, ← Nat.add_assoc]
                exact place

/-! ## Flaws -/

/-- What stands in the way of scanning a source any further, by the flaw that is reported. -/
inductive Obstacle : Flaw → Text → Prop where
  /-- A block comment without its end. -/
  | unclosedComment {rest : Text} (h : ¬ ("*/" : Text) <:+: rest) :
      Obstacle .unclosedComment (("/*" : Text) ++ rest)
  /-- A quote, and no other one behind it that is not escaped. -/
  | unterminatedString {quote : CodePoint} (isQuote : quote = '\'' ∨ quote = '"') {rest : Text}
      (h : ∀ body after, Guarded quote body → rest ≠ body ++ quote :: after) :
      Obstacle .unterminatedString (quote :: rest)
  /-- A bracket, and no closing one behind it that is not escaped. -/
  | unterminatedClass {rest : Text}
      (h : ∀ body after : Text, Guarded ']' body → rest ≠ body ++ (']' : CodePoint) :: after) :
      Obstacle .unterminatedClass ('[' :: rest)
  /-- A character with which no lexeme begins, not even one that is not closed. -/
  | unexpectedCharacter {c : CodePoint} {rest : Text}
      (opening : c ≠ '\'' ∧ c ≠ '"' ∧ c ≠ '[')
      (h : ∀ kind text, IsLexeme kind text → ¬ text <+: c :: rest) :
      Obstacle (.unexpectedCharacter c) (c :: rest)

/-- Where a source has no first lexeme there is an obstacle. -/
theorem Lexeme.obstacle {c : CodePoint} {rest : Text} {flaw : Flaw}
    (h : Lexeme.first c rest = .error flaw) : Obstacle flaw (c :: rest) := by
  have unguarded : ∀ {delimiter : CodePoint}, delimiter ≠ '\\' →
      throughDelimiter delimiter rest = none →
        ∀ body after, Guarded delimiter body → rest ≠ body ++ delimiter :: after := by
    intro delimiter ne none body after guarded whole
    have cut := (throughDelimiter_eq_some_iff ne).mpr ⟨body, guarded, rfl, whole⟩
    cases none.symm.trans cut
  unfold Lexeme.first Lexeme.blockComment Lexeme.delimited at h
  repeat' split at h
  all_goals try cases h
  next opens _ none =>
    obtain ⟨rfl, asterisk⟩ := opensComment_iff.mp opens
    obtain ⟨more, rfl⟩ := List.head?_eq_some_iff.mp asterisk
    exact .unclosedComment (throughCommentEnd_eq_none none)
  next quote _ none =>
    have ne : c ≠ '\\' := by rcases quote with rfl | rfl <;> decide
    exact .unterminatedString quote (unguarded ne none)
  next bracket _ none =>
    subst bracket
    exact .unterminatedClass (unguarded (by decide) none)
  next blank hash opens arrow start quote bracket operator =>
    obtain ⟨single, double⟩ := not_or.mp quote
    refine .unexpectedCharacter ⟨single, double, bracket⟩ ?_
    rintro kind text lexeme ⟨after, whole⟩
    cases lexeme with
    | blanks h =>
        cases whole
        exact blank (h _ List.mem_cons_self)
    | line =>
        cases whole
        exact hash rfl
    | block =>
        cases whole
        exact opens rfl
    | arrow spelling =>
        refine arrow (isArrow_iff.mpr ?_)
        rcases spelling with rfl | rfl
        · cases whole
          exact .inl rfl
        · cases whole
          exact .inr rfl
    | identifier identifier =>
        cases text with
        | nil => exact identifier
        | cons d more =>
            cases whole
            exact start identifier.1
    | literal isQuote =>
        cases whole
        exact quote isQuote
    | charClass =>
        cases whole
        exact bracket rfl
    | operator mem =>
        cases whole
        exact operator (List.contains_iff_mem.mpr mem)

/-! ## Sources -/

/-- The tokens of a source, its ending aside, stand in it with nothing but layout around them. -/
structure Lossless (src : Text) (row : List Token) : Prop where
  /-- None of them is the ending. -/
  ne_ending : ∀ t ∈ row, t.kind ≠ .ending
  /-- Each of them is some text that stands at its offset. -/
  stands : ∀ t ∈ row, t.text ≠ [] ∧ (src.drop t.offset).take t.text.length = t.text
  /-- Each of them begins behind the ones before it. -/
  ordered : row.Pairwise fun t t' ↦ t.offset + t.text.length ≤ t'.offset
  /-- Before the first one, between any two and behind the last one there is layout. -/
  gaps : ∃ spaced last, row = spaced.map Prod.snd ∧ src = spread spaced last ∧
    (∀ entry ∈ spaced, Layout entry.1) ∧ LastLayout last ∧
    row ++ [⟨.ending, [], src.length⟩] = placed 0 spaced last
  /-- Each of them has the shape of its kind; what is delimited ends at its first delimiter. -/
  shape : ∀ t ∈ row, IsLexeme (some t.kind) t.text
  /-- No name is continued behind it. -/
  maximal : ∀ t ∈ row, t.kind = .identifier → EndsIdentifier (src.drop (t.offset + t.text.length))

/-- A source that is cut up to its end is not lost. -/
theorem Scans.lossless {src : Text} {row : List Token} (h : Scans 0 src row []) :
    Lossless src row where
  ne_ending t mem ending := by
    obtain ⟨-, -, -, -, shape, -⟩ := h.exists_place t mem
    rw [ending] at shape
    cases shape
  stands t mem := by
    obtain ⟨before, after, whole, start, shape, -⟩ := h.exists_place t mem
    obtain ⟨c, more, text, -⟩ := shape.exists_cons
    refine ⟨by rw [text]; exact List.cons_ne_nil c more, ?_⟩
    rw [start, Nat.zero_add, whole, List.append_assoc, List.drop_left, List.take_left]
  ordered := h.ordered
  gaps := by
    obtain ⟨spaced, last, tokens, whole, laid, lastLaid, place⟩ := h.exists_spaced rfl
    rw [Nat.zero_add] at place
    exact ⟨spaced, last, tokens, whole, fun entry mem ↦ (laid entry mem).1, lastLaid, place⟩
  shape t mem := by
    obtain ⟨-, -, -, -, shape, -⟩ := h.exists_place t mem
    exact shape
  maximal t mem kind := by
    obtain ⟨before, after, whole, start, -, ends⟩ := h.exists_place t mem
    rw [start, Nat.zero_add, whole, ← List.length_append, List.drop_left]
    exact ends.identifier (congrArg some kind)

/-- The tokens of a source are those of its run and the ending. -/
theorem exists_scans_of_tokensFrom {offset : Nat} {src : Text} {tokens : List Token}
    (h : tokensFrom 0 offset src = .ok tokens) :
    ∃ row, Scans offset src row [] ∧ tokens = row ++ [⟨.ending, [], offset + src.length⟩] := by
  obtain ⟨row, left, scans, stops⟩ := exists_scans offset src
  obtain ⟨text, rfl, cut⟩ := scans.exists_cutInto
  rw [cut left fun c mem ↦ .inl mem] at h
  cases left with
  | nil =>
      rw [tokensFrom_nil] at h
      cases h
      exact ⟨row, scans, by rw [List.append_nil]⟩
  | cons c rest =>
      obtain ⟨flaw, first⟩ := stops c rest rfl
      rw [tokensFrom_of_error first] at h
      cases h

/-- Where scanning a source stops before its end there is an obstacle, and what stands before that
is scanned without it. -/
theorem exists_obstacle_of_tokensFrom {offset : Nat} {src : Text} {e : Error}
    (h : tokensFrom 0 offset src = .error e) :
    ∃ text left, src = text ++ left ∧ e.offset = offset + text.length ∧ Obstacle e.flaw left ∧
      left ≠ [] ∧ ∃ tokens, tokensFrom 0 offset text = .ok tokens := by
  obtain ⟨row, left, scans, stops⟩ := exists_scans offset src
  obtain ⟨text, rfl, cut⟩ := scans.exists_cutInto
  rw [cut left fun c mem ↦ .inl mem] at h
  cases left with
  | nil =>
      rw [tokensFrom_nil] at h
      cases h
  | cons c rest =>
      obtain ⟨flaw, first⟩ := stops c rest rfl
      rw [tokensFrom_of_error first] at h
      cases h
      have before := (cut [] nofun).tokensFrom_eq
      exact ⟨text, c :: rest, rfl, rfl, Lexeme.obstacle first, List.cons_ne_nil c rest, _, before⟩

/-- A source is cut into its tokens without loss, or what is reported is the offset of an obstacle:
what stands before it is cut into tokens, and no further lexeme begins there. -/
theorem tokenize_lossless (src : Text) :
    (∀ tokens, tokenize src = .ok tokens →
      ∃ row, tokens = row ++ [⟨.ending, [], src.length⟩] ∧ Lossless src row) ∧
    ∀ e, tokenize src = .error e →
      e.offset < src.length ∧ (∃ tokens, tokenize (src.take e.offset) = .ok tokens) ∧
        Obstacle e.flaw (src.drop e.offset) := by
  constructor
  · intro tokens tokenized
    obtain ⟨row, scans, rfl⟩ := exists_scans_of_tokensFrom tokenized
    exact ⟨row, by rw [Nat.zero_add], scans.lossless⟩
  · intro e flawed
    obtain ⟨text, left, rfl, start, obstacle, some, before⟩ := exists_obstacle_of_tokensFrom flawed
    rw [Nat.zero_add] at start
    rw [start, List.take_left, List.drop_left, List.length_append]
    exact ⟨Nat.lt_add_of_pos_right (List.length_pos_iff.mpr some), before, obstacle⟩

/-- A slash before a comment, a quote inside one and a quote behind a backslash are told apart; a
quote whose only partner is behind a backslash is an obstacle. -/
theorem tokenize_lossless_quotes :
    (∃ row, tokenize "a/ /*'*/'\\''#[" = .ok (row ++ [⟨.ending, [], 14⟩]) ∧
      Lossless "a/ /*'*/'\\''#[" row) ∧
    tokenize "a '\\'" = .error ⟨2, .unterminatedString⟩ ∧
      Obstacle .unterminatedString "'\\'" := by
  have tokenizes : (tokenize "a/ /*'*/'\\''#[").isOk = true := by decide +kernel
  have flawed : tokenize "a '\\'" = .error ⟨2, .unterminatedString⟩ := by decide +kernel
  obtain ⟨tokens, tokenized⟩ := Except.exists_eq_ok tokenizes
  obtain ⟨row, rfl, lossless⟩ := (tokenize_lossless _).1 tokens tokenized
  exact ⟨⟨row, tokenized, lossless⟩, flawed, ((tokenize_lossless _).2 _ flawed).2.2⟩

end Peg.Notation
