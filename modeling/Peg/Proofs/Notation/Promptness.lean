import Peg.Proofs.Notation.Mending

/-!
# Flaws are found in time

A source that is cut into tokens but cannot be read is told to be flawed at a place up to which it
could have gone on: what stands in front of that place, with some text behind it, is read, unless
the name of a rule in front of it is taken. A name is told to be taken at the first rule of which
that is so.

The text behind is a closing delimiter, if the place is inside of a literal or a class, and the
tokens by which the flaw is mended, one on each line.
-/

namespace Peg

open Except

namespace Notation

/-! ## Names that are taken -/

/-- The head is the first one with the name of a head before it. -/
def FirstTaken (heads : List Token) (head : Token) : Prop :=
  ∃ earlier later, heads = earlier ++ head :: later ∧ (earlier.map (·.text)).Nodup ∧
    head.text ∈ earlier.map (·.text)

/-- The first rule with a name that is taken has the first head of which that is so. -/
theorem Taken.firstTaken {earlier : List RuleTree} {r : RuleTree} (h : Taken [] earlier r)
    (rest : List Token) :
    FirstTaken (ruleHeads (earlier.flatMap RuleTree.tokens ++ r.name.val :: r.arrow.val :: rest))
      r.name.val := by
  have next : ∀ t ∈ (r.name.val :: r.arrow.val :: rest).head?, t.kind ≠ .arrow := by
    rintro _ ⟨⟩
    exact r.name.kind_ne (by simp)
  have names : (earlier.map (·.name.val)).map (·.text) = earlier.map (·.name.val.text) :=
    List.map_map
  refine ⟨earlier.map (·.name.val), ruleHeads (r.arrow.val :: rest), ?_, ?_, ?_⟩
  · rw [ruleHeads_rules_append earlier next, ruleHeads,
      if_pos ⟨r.name.property, by simp [r.arrow.property]⟩]
  · rw [names]
    exact h.new.nodup
  · rw [names]
    simpa using h.mem

/-! ## The source in front of a token -/

/-- A run is cut in front of any of its tokens. -/
theorem Scans.exists_front {offset : Nat} {src left : Text} {row before after : List Token}
    {t : Token} (h : Scans offset src row left) (whole : row = before ++ t :: after) :
    ∃ rest, Scans offset src before (t.text ++ rest) ∧
      offset + src.length = t.offset + (t.text ++ rest).length := by
  induction h generalizing before with
  | nil => exact absurd whole (by simp)
  | @cons offset c rest l row left first others ih =>
      have length : offset + (c :: rest).length = offset + l.text.length + l.rest.length := by
        obtain ⟨more, text, same⟩ := Lexeme.split_of_first first
        rw [← same, text, List.length_cons, List.length_cons, List.length_append]
        omega
      cases kind : l.kind with
      | none =>
          have none : l.tokens offset = [] := by rw [Lexeme.tokens, kind]; rfl
          rw [none] at whole
          obtain ⟨rest', front, place⟩ := ih whole
          refine ⟨rest', ?_, length.trans place⟩
          have scans := Scans.cons first front
          rwa [none] at scans
      | some kind' =>
          have one : l.tokens offset = [⟨kind', l.text, offset⟩] := by rw [Lexeme.tokens, kind]; rfl
          rw [one] at whole
          cases before with
          | nil =>
              cases whole
              obtain ⟨more, text, same⟩ := Lexeme.split_of_first first
              have source : l.text ++ l.rest = c :: rest := by rw [text, List.cons_append, same]
              refine ⟨l.rest, ?_, by rw [source]⟩
              rw [source]
              exact .nil offset _
          | cons t' before =>
              cases whole
              obtain ⟨rest', front, place⟩ := ih rfl
              refine ⟨rest', ?_, length.trans place⟩
              have scans := Scans.cons first front
              rwa [one] at scans

/-- What stands in front of a token of a source is cut into the tokens before that one, even if
something else begins there in the same way, or a new line. -/
theorem exists_front_of_tokenize {src : Text} {before after : List Token} {t : Token}
    (h : tokenize src = .ok (before ++ t :: after)) :
    ∃ text rest, src = text ++ (t.text ++ rest) ∧ t.offset = text.length ∧
      ∀ left, BeginsLike (t.text ++ rest) left → CutInto text 0 before left := by
  obtain ⟨row, scans, whole⟩ := exists_scans_of_tokensFrom h
  rw [Nat.zero_add] at whole
  obtain rfl | ⟨after, last, rfl⟩ := List.eq_nil_or_concat' after
  · -- the ending is at the end of the source
    obtain ⟨rfl, same⟩ := List.append_inj' whole rfl
    cases same
    obtain ⟨text, rfl, cut⟩ := scans.exists_cutInto
    exact ⟨text, [], rfl, by rw [List.append_nil], cut⟩
  · rw [← List.cons_append, ← List.append_assoc] at whole
    obtain ⟨rest, front, length⟩ := scans.exists_front (List.append_inj' whole rfl).1.symm
    obtain ⟨text, rfl, cut⟩ := front.exists_cutInto
    rw [List.length_append] at length
    exact ⟨text, rest, rfl, by omega, cut⟩

theorem CutInto.offset_lt {text : Text} {row : List Token} (h : CutInto text 0 row []) :
    ∀ t ∈ row, t.offset < text.length := by
  obtain ⟨row', scans, whole⟩ := exists_scans_of_tokensFrom h.tokensFrom_eq
  obtain ⟨rfl, -⟩ := List.append_inj' whole rfl
  intro t mem
  obtain ⟨front, after, rfl, place, shape, -⟩ := scans.exists_place t mem
  obtain ⟨c, more, text, -⟩ := shape.exists_cons
  rw [place, text, List.length_append, List.length_append, List.length_cons]
  omega

/-! ## What is written behind it -/

theorem endsBefore_lineFeed (kind : Option TokenKind) (text rest : Text) :
    EndsBefore kind text (('\n' : CodePoint) :: rest) := by
  refine ⟨fun _ ↦ ?_, fun _ ↦ ?_, fun _ ↦ ?_⟩
  all_goals
    rintro _ ⟨⟩
    decide

/-- What is left of a token is what stands in front of the flaw, closed. -/
theorem LeftOf.exists_closing {t : Token} {e : Error} {left before : List Token} {text rest : Text}
    (h : LeftOf t e left) (place : t.offset = text.length)
    (front : ∀ left, BeginsLike (t.text ++ rest) left → CutInto text 0 before left) :
    ∃ inside behind closing, t.text = inside ++ behind ∧ e.offset = text.length + inside.length ∧
      ∀ more, CutInto (text ++ (inside ++ closing)) 0 (before ++ left)
        (('\n' : CodePoint) :: more) := by
  cases h with
  | none here =>
      refine ⟨[], t.text, [], rfl, here.trans place, fun more ↦ ?_⟩
      rw [List.append_nil, List.append_nil, List.append_nil]
      refine front _ ?_
      rintro _ ⟨⟩
      exact .inr rfl
  | @closed opening closing row behind quoting whole inside =>
      refine ⟨opening :: written row, behind, [closing], whole, ?_, fun more ↦ ?_⟩
      · rw [inside, place, List.length_cons]
        omega
      · have lexeme := quoting.isLexeme (guarded_written quoting.isDigit_closing row)
        have like : BeginsLike (t.text ++ rest)
            (opening :: (written row ++ [closing]) ++ ('\n' : CodePoint) :: more) := by
          rintro _ ⟨⟩
          rw [whole]
          exact .inl rfl
        rw [place, ← Nat.zero_add text.length]
        exact (front _ like).append (lexeme.cutInto _ (endsBefore_lineFeed _ _ more))

def inLines (pieces : List (TokenKind × Text)) : Text := pieces.flatMap fun p ↦ p.2 ++ "\n"

theorem exists_row_of_inLines {pieces : List (TokenKind × Text)}
    (lexemes : ∀ p ∈ pieces, IsLexeme (some p.1) p.2) (offset : Nat) (rest : Text) :
    ∃ row, row.map Token.piece = pieces ∧ CutInto (inLines pieces) offset row rest := by
  induction pieces generalizing offset with
  | nil => exact ⟨[], rfl, .nil offset rest⟩
  | cons p pieces ih =>
      obtain ⟨first, others⟩ := List.forall_mem_cons.mp lexemes
      obtain ⟨row, same, cut⟩ := ih others (offset + (p.2 ++ ("\n" : Text)).length)
      refine ⟨⟨p.1, p.2, offset⟩ :: row, by rw [List.map_cons, same]; rfl, ?_⟩
      have token := first.cutInto offset (endsBefore_lineFeed _ _ (inLines pieces ++ rest))
      exact (token.append (cutInto_lineFeed _ _)).append cut

/-- Where a flaw can be mended, what stands in front of it is completed by some text to one that is
cut into good tokens. -/
theorem Mendable.exists_completion {src : Text} {tokens : List Token} {e : Error}
    {good : List Token → List Token → Prop} (tokenized : tokenize src = .ok tokens)
    (h : Mendable tokens e good) :
    e.offset ≤ src.length ∧ ∃ (w : Text) (before rest row : List Token) (ending : TokenOf .ending),
      tokens = before ++ rest ∧ (∀ t ∈ before, t.offset < e.offset) ∧
      tokenize (src.take e.offset ++ w) = .ok (row ++ [ending.val]) ∧ good before row := by
  obtain ⟨before, pieces, rfl, leftOf, lexemes, -, mended⟩ := h
  obtain ⟨text, rest, rfl, place, front⟩ := exists_front_of_tokenize tokenized
  obtain ⟨inside, behind, closing, split, here, closed⟩ := leftOf.exists_closing place front
  obtain ⟨row, same, lines⟩ := exists_row_of_inLines lexemes
    (0 + (text ++ (inside ++ closing)).length + 1) []
  have whole := ((closed _).append ((cutInto_lineFeed _ _).append lines)).tokensFrom_eq
  rw [← List.append_assoc text, List.append_assoc (text ++ inside)] at whole
  have take : (text ++ (inside ++ behind ++ rest)).take e.offset = text ++ inside := by
    rw [List.append_assoc, ← List.append_assoc text, here, ← List.length_append, List.take_left]
  rw [split, take]
  refine ⟨?_, _, before, _, _, ⟨⟨.ending, [], _⟩, rfl⟩, rfl, ?_, whole, mended row same⟩
  · rw [here]
    simp only [List.length_append]
    omega
  · intro t' mem
    have := (front [] nofun).offset_lt t' mem
    omega

/-! ## Sources -/

theorem shaped_of_tokenize {src : Text} {tokens : List Token} (h : tokenize src = .ok tokens) :
    Shaped tokens := by
  obtain ⟨row, scans, rfl⟩ := exists_scans_of_tokensFrom h
  intro t mem
  rcases List.mem_append.mp mem with token | last
  · obtain ⟨-, -, -, -, shape, -⟩ := scans.exists_place t token
    exact .inr shape
  · rw [List.mem_singleton.mp last]
    exact .inl rfl

/-- A source of new rules is read. A source of rules of which only the last one has a name that is
taken is read but for that name. -/
theorem Begun.rulesOf_eq {src : Text} {before row : List Token} {ending : TokenOf .ending}
    (h : Begun [] before row) (tokenized : tokenize src = .ok (row ++ [ending.val])) :
    (∃ table, ∀ frames, 5 * nesting 0 (row ++ [ending.val]) + 5 ≤ frames →
        Source.rulesOf frames src = .ok table) ∨
      ∃ head ∈ before, (∀ rest, FirstTaken (ruleHeads (before ++ rest)) head) ∧
        ∀ frames, 5 * nesting 0 (row ++ [ending.val]) + 5 ≤ frames →
          Source.rulesOf frames src = .error (.flawed ⟨head.offset, .duplicateRule head.text⟩) := by
  cases h with
  | @new rules entries tokens images some new =>
      subst tokens
      have derives : GrammarTree.Derives ⟨rules, some rfl⟩
          (rules.flatMap RuleTree.tokens ++ [ending.val]) := ⟨ending, rfl⟩
      exact .inl ⟨entries, fun frames enough ↦ Source.rulesOf_of_readsAs tokenized enough
        (derives.readRules_eq new.nodup images frames)⟩
  | @taken earlier r entries left tokens images taken head =>
      subst tokens head
      refine .inr ⟨r.name.val, by simp, fun rest ↦ ?_, fun frames enough ↦ ?_⟩
      · rw [List.append_assoc]
        exact taken.firstTaken (left ++ rest)
      · exact Source.rulesOf_of_failsAs tokenized enough
          (failsAs_readRules ending frames images taken)

end Notation

open Notation

/-- A source that is cut into tokens is not told to be flawed too late. What stands in front of the
flaw can be completed to a source that is read, but for the name of a rule in front of the flaw that
is taken. A flaw that is itself a name that is taken is at the first head of a rule of which that is
so. -/
theorem Source.flawed_in_time {src : Text} {tokens : List Token} {frames : Nat} {e : Error}
    (tokenized : tokenize src = .ok tokens) (flawed : rulesOf frames src = .error (.flawed e)) :
    ((∀ name, e.flaw ≠ .duplicateRule name) →
      e.offset ≤ src.length ∧ ∃ (w : Text) (limit : Nat),
        (∃ tokens', tokenize (src.take e.offset ++ w) = .ok tokens') ∧
        ((∃ table, ∀ frames', limit ≤ frames' →
            rulesOf frames' (src.take e.offset ++ w) = .ok table) ∨
          ∃ head, FirstTaken (ruleHeads tokens) head ∧ head.offset < e.offset ∧
            ∀ frames', limit ≤ frames' → rulesOf frames' (src.take e.offset ++ w) =
              .error (.flawed ⟨head.offset, .duplicateRule head.text⟩))) ∧
    ∀ name, e.flaw = .duplicateRule name →
      ∃ head, FirstTaken (ruleHeads tokens) head ∧ head.offset = e.offset ∧ head.text = name := by
  have stops : readRules frames tokens = .error (.flawed e) := by
    rw [rulesOf, tokenized] at flawed
    exact flawed
  obtain mendable | ⟨earlier, r, rest, rfl, taken, rfl⟩ :=
    mendable_or_takenAt_of_readRules (shaped_of_tokenize tokenized) stops
  · refine ⟨fun _ ↦ ?_, fun name same ↦ absurd same (mendable.ne_duplicateRule name)⟩
    obtain ⟨inside, w, before, rest, row, ending, rfl, front, completed, begun⟩ :=
      mendable.exists_completion tokenized
    refine ⟨inside, w, _, ⟨_, completed⟩, (begun.rulesOf_eq completed).imp_right ?_⟩
    rintro ⟨head, mem, firstTaken, reported⟩
    exact ⟨head, firstTaken rest, front head mem, reported⟩
  · refine ⟨fun other ↦ absurd rfl (other _), ?_⟩
    rintro _ ⟨⟩
    exact ⟨r.name.val, taken.firstTaken rest, rfl, rfl⟩

/-- A literal in parentheses is closed in front of its malformed escape, and then the parentheses
are; a name that is taken is found at the second rule of that name. -/
theorem Source.flawed_in_time_escape :
    (rulesOf 10 "a<-('b\\x4')").failure? = some (.flawed ⟨6, .invalidEscape 'x'⟩) ∧
    (∃ w limit table, ∀ frames, limit ≤ frames → rulesOf frames ("a<-('b" ++ w) = .ok table) ∧
    (rulesOf 10 "a<-b a<-c b<-.").failure? = some (.flawed ⟨5, .duplicateRule "a"⟩) ∧
    ∃ tokens head, tokenize "a<-b a<-c b<-." = .ok tokens ∧
      FirstTaken (ruleHeads tokens) head ∧ head.offset = 5 ∧ head.text = "a" := by
  have escape : (rulesOf 10 "a<-('b\\x4')").failure? =
      some (.flawed ⟨6, .invalidEscape 'x'⟩) := by decide +kernel
  have repeated : (rulesOf 10 "a<-b a<-c b<-.").failure? =
      some (.flawed ⟨5, .duplicateRule "a"⟩) := by decide +kernel
  refine ⟨escape, ?_, repeated, ?_⟩
  · have tokenized : tokenize "a<-('b\\x4')" =
        .ok [⟨.identifier, "a", 0⟩, ⟨.arrow, "<-", 1⟩, ⟨.operator, "(", 3⟩,
          ⟨.literal, "'b\\x4'", 4⟩, ⟨.operator, ")", 10⟩, ⟨.ending, [], 11⟩] := by
      decide +kernel
    obtain ⟨inTime, -⟩ := flawed_in_time tokenized (failure?_eq_some_iff.mp escape)
    obtain ⟨-, w, limit, -, ⟨table, read⟩ | ⟨head, ⟨earlier, later, heads, -, mem⟩, -⟩⟩ :=
      inTime nofun
    · have front : ("a<-('b\\x4')" : Text).take 6 = "a<-('b" := by decide +kernel
      dsimp only at read
      rw [front] at read
      exact ⟨w, limit, table, read⟩
    · -- there is no head before the only one
      cases earlier with
      | nil => cases mem
      | cons first earlier =>
          have length := congrArg List.length heads
          simp [ruleHeads] at length
  · obtain ⟨tokens, tokenized⟩ :
        ∃ tokens, tokenize "a<-b a<-c b<-." = .ok tokens := exists_eq_ok (by decide +kernel)
    obtain ⟨-, atHead⟩ := flawed_in_time tokenized (failure?_eq_some_iff.mp repeated)
    obtain ⟨head, first, place, name⟩ := atHead _ rfl
    exact ⟨tokens, head, tokenized, first, place, name⟩

end Peg
