import Peg.CommandLine.Run
import Peg.Proofs.Grammar.History
import Peg.Proofs.Notation.Frames

/-!
# Loading grammars and texts

Before anything is matched three things are done: the grammar file is read, its text is made a
grammar, and the text to match is read. Each of them can fail, and the first failure is the one that
counts. It is shown here which failures are reported and that there are no other ones where paths
are paths, and that the start rule of a grammar that was loaded can be looked up and is halted for
nothing but want of frames.
-/

namespace Peg.CommandLine

open Except

/-! ## What the library gives -/

/-- A failure is reported in the given lines if the system refuses a file, if a file holds no text,
if a grammar is flawed, or if it cannot be linked. -/
inductive Failure.Reported : Failure → List Text → Prop where
  /-- The system does not open a file. -/
  | refused (path : Text) (fault : FileFault) :
      Reported (.unopened (.refused path fault)) [("[ERROR] " : Text) ++ fault.report path]
  /-- A file is not UTF-8. -/
  | undecodable (e : Source.Utf8Error) :
      Reported (.unsound (.undecodable e)) [("[ERROR] UnicodeDecodeError " : Text) ++ e.message]
  /-- A grammar is not in the notation. -/
  | flawed (e : Notation.Error) :
      Reported (.unsound (.unreadable (.flawed e))) ["[SYNTAX ERROR]", e.message]
  /-- The rules of a grammar make none, or the start rule is not one of them. -/
  | undefined (e : DefinitionError) (keyable : ∀ typeName, e ≠ .unkeyable typeName) :
      Reported (.unsound (.undefined e)) [("[CONFIG ERROR] " : Text) ++ e.message]

/-- The grammar in a file: the file is read, and then its text. -/
def grammarIn (frames : Nat) (files : Files) (path : Text) (start : Value) :
    Except Failure Grammar := do
  let src ← readText files (Path.normalize path)
  (Grammar.ofSource frames 0 src start).mapError .unsound

/-- The grammar in a file, and then what is to be matched against it. -/
def matchIn (frames : Nat) (files : Files) (path : Text) (rule : Option Given) (input : InputText) :
    Except Failure (Grammar × Given) := do
  let g ← grammarIn frames files path (startOf rule)
  let given ← inputText files input
  return (g, given)

/-- What the start rule of a grammar consumes of what is given. -/
def consumed (frames : Nat) (all : Bool) (g : Grammar) : Given → Except MatchError Span
  | .text t => if all then g.parseAll frames t else g.parse frames t
  | .nothing => if all then g.barLiterals.parseAll frames [] else g.barLiterals.parse frames []

def shown : Given → Span → Text
  | .text _, span => span.value
  | .nothing, _ => "[]"

/-! ## Failures -/

/-- The lines of a report are those of its kind of failure. -/
theorem Failure.report_eq_ok_iff {f : Failure} {lines : List Text} :
    f.report = .ok lines ↔ f.Reported lines := by
  constructor
  · intro h
    unfold report at h
    split at h
    · cases h
    · cases h
    · cases h
      exact .refused _ _
    · cases h
      exact .undecodable _
    · cases h
      exact .flawed _
    · cases h
    · cases h
    · next keyable =>
        cases h
        exact .undefined _ keyable
  · rintro (_ | _ | _ | ⟨e, keyable⟩)
    · rfl
    · rfl
    · rfl
    · cases e with
      | unkeyable typeName => exact absurd rfl (keyable typeName)
      | _ => rfl

/-- A failure is reported in one way. -/
theorem Failure.Reported.unique {f : Failure} {lines lines' : List Text} (h : f.Reported lines)
    (h' : f.Reported lines') : lines = lines' :=
  Except.ok.inj ((report_eq_ok_iff.mpr h).symm.trans (report_eq_ok_iff.mpr h'))

/-! ## Grammars that are loaded -/

section Grammars

variable {frames : Nat} {files : Files} {path : Text} {start : Value} {g : Grammar}

theorem history_of_grammarIn (symbols : Text → Prop)
    (h : grammarIn frames files path start = .ok g) : History symbols [g] := by
  obtain ⟨src, -, built⟩ := bind_eq_ok_iff.mp h
  exact .source .empty (mapError_eq_ok_iff.mp built)

theorem rule_start_of_grammarIn (h : grammarIn frames files path start = .ok g) :
    g.rule (.text g.start) = .ok g.startRule := by
  have closed := (history_of_grammarIn (fun _ ↦ False) h).closed_newest nofun
  exact Grammar.rule_start closed.start_mem

/-- The start rule of a grammar in a file is halted only for want of frames. -/
theorem outOfFrames_of_consumed (h : grammarIn frames files path start = .ok g) {all : Bool}
    {t : Text} {halt : Halt} (halts : consumed frames all g (.text t) = .error (.halted halt)) :
    halt = .outOfFrames := by
  have history : History (fun _ ↦ False) ([] ++ [g]) := history_of_grammarIn _ h
  obtain ⟨parse, parseAll, -⟩ := history.closed_and_safe.2.2 frames t (.halted halt)
  have tolerated : MatchError.halted halt = .noMatch ∨
      (MatchError.halted halt).Tolerated fun _ ↦ False := by
    cases all with
    | true => exact parseAll halts
    | false => exact parse halts
  cases halt with
  | outOfFrames => rfl
  | unresolved | missingSlot | unknownQuantifier =>
      rcases tolerated with impossible | impossible
      · cases impossible
      · exact impossible.elim

/-- At the beginning of a text no position lies outside of it. -/
theorem ne_positionOutside_of_consumed {all : Bool} {given : Given} {e : MatchError}
    (h : consumed frames all g given = .error e) (pos : Int) (length : Nat) :
    e ≠ .positionOutside pos length := by
  have evaluated : ∀ {r : Rule} {text : Text}, r.evaluate frames text 0 = .error e →
      e ≠ .positionOutside pos length := by
    intro r text fails
    rw [show r.evaluate frames text 0 = _ from
      Rule.evaluate_natCast frames r (Nat.zero_le text.length)] at fails
    rintro rfl
    cases ran : eval text.toArray frames none r 0 with
    | error halt =>
        rw [ran] at fails
        cases fails
    | ok found =>
        rw [ran] at fails
        cases fails
  have parsed : ∀ {g : Grammar} {text : Text},
      (if all then g.parseAll frames text else g.parse frames text) = .error e →
      e ≠ .positionOutside pos length := by
    intro g text fails
    cases all with
    | true =>
        rcases Rule.evaluate_of_parseAll fails with rfl | fails
        · simp
        · exact evaluated fails
    | false =>
        rcases Rule.evaluate_of_parse fails with rfl | fails
        · simp
        · exact evaluated fails
  cases given with
  | text t => exact parsed h
  | nothing => exact parsed h

end Grammars

/-! ## Failures that are reported -/

section Failures

variable {frames : Nat} {files : Files} {path : Text} {start : Value} {f : Failure}

/-- If a file cannot be read, this is reported, unless its path is none. -/
theorem exists_reported_of_readText (sound : ∀ flaw, files path ≠ .error (.flawed flaw))
    (h : readText files path = .error f) : ∃ lines, f.Reported lines := by
  rcases bind_eq_error_iff.mp h with unopened | ⟨bytes, -, undecoded⟩
  · obtain ⟨e, fails, rfl⟩ := mapError_eq_error_iff.mp unopened
    cases e with
    | flawed flaw => exact absurd fails (sound flaw)
    | refused path fault => exact ⟨_, .refused path fault⟩
  · obtain ⟨e, -, rfl⟩ := mapError_eq_error_iff.mp undecoded
    exact ⟨_, .undecodable e⟩

/-- If a source cannot be read though the frames do not run out, it has a flaw. -/
theorem exists_flaw_of_rulesOf {src : Text} {e : Notation.ReadError}
    (depth : Source.rulesOf frames src ≠ .error .outOfFrames)
    (h : Source.rulesOf frames src = .error e) : ∃ flaw, e = .flawed flaw := by
  rcases bind_eq_error_iff.mp h with untokenized | ⟨tokens, tokenized, unread⟩
  · obtain ⟨flaw, -, rfl⟩ := mapError_eq_error_iff.mp untokenized
    exact ⟨flaw, rfl⟩
  · replace tokenized := mapError_eq_ok_iff.mp tokenized
    have enough : Notation.readRules frames tokens ≠ .error .outOfFrames := by
      rintro out
      cases out.symm.trans unread
      exact depth h
    -- With more frames the same would come out, and then it is known to be a flaw.
    have settles := Notation.settles_readRules_of_ne
      (Notation.terminated_of_tokenize tokenized) enough
    rw [unread] at settles
    cases settles
    exact ⟨_, rfl⟩

/-- If a grammar cannot be loaded, this is reported, unless the path is none, the source nests too
deeply, or what is given for the start rule cannot be looked up. -/
theorem exists_reported_of_grammarIn
    (sound : ∀ flaw, files (Path.normalize path) ≠ .error (.flawed flaw))
    (depth : ∀ src, readText files (Path.normalize path) = .ok src →
      ¬ Source.TooDeep frames 0 src start)
    (keyable : start.unkeyable? = none) (h : grammarIn frames files path start = .error f) :
    ∃ lines, f.Reported lines := by
  rcases bind_eq_error_iff.mp h with unread | ⟨src, read, unbuilt⟩
  · exact exists_reported_of_readText sound unread
  · obtain ⟨e, fails, rfl⟩ := mapError_eq_error_iff.mp unbuilt
    have enough := depth src read
    rcases bind_eq_error_iff.mp fails with noRules | ⟨rules, rulesRead, noGrammar⟩
    · obtain ⟨e, unread, rfl⟩ := mapError_eq_error_iff.mp noRules
      obtain ⟨flaw, rfl⟩ := exists_flaw_of_rulesOf (fun out ↦ enough (.inl out)) unread
      exact ⟨_, .flawed flaw⟩
    · obtain ⟨e, unlinked, rfl⟩ := mapError_eq_error_iff.mp noGrammar
      cases e with
      | outOfFrames =>
          exact absurd (.inr ⟨rules, mapError_eq_ok_iff.mp rulesRead, unlinked⟩) enough
      | undefined e =>
          refine ⟨_, .undefined e ?_⟩
          rintro typeName rfl
          cases keyable.symm.trans
            (Grammar.unkeyable_of_build (Grammar.build_eq_error_of_buildWithin unlinked))

/-- If what is to be matched cannot be had, this is reported, unless the path is none. -/
theorem exists_reported_of_inputText {input : InputText}
    (sound : ∀ path, input = .file (.text path) → ∀ flaw, files path ≠ .error (.flawed flaw))
    (named : input ≠ .file .nothing) (h : inputText files input = .error f) :
    ∃ lines, f.Reported lines := by
  cases input with
  | given g => cases h
  | file given =>
      cases given with
      | text path =>
          rcases bind_eq_error_iff.mp h with unread | ⟨_, -, impossible⟩
          · exact exists_reported_of_readText (sound path rfl) unread
          · cases impossible
      | nothing => exact absurd rfl named

/-- The name of a start rule can be looked up. -/
theorem keyable_startOf {rule : Option Given} (named : rule ≠ some .nothing) :
    (startOf rule).unkeyable? = none := by
  rcases rule with _ | _ | _
  · rfl
  · rfl
  · exact absurd rfl named

end Failures

end Peg.CommandLine
