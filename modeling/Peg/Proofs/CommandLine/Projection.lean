import Peg.Proofs.CommandLine.Loading

/-!
# The program is what the library gives

The program adds nothing to what the library makes of the files: its exit code and its answer tell
whether there is a grammar, whether there is a text, and what the start rule consumes of it. Only
what it says on the way depends on being asked to report every step.

Two of its steps stand where no error is expected. The start rule is looked up after the grammar was
loaded, and it runs where only running out of frames is reported. Neither can go wrong, since a
grammar that was loaded is closed.
-/

namespace Peg.CommandLine

open Except

/-! ## What the program says -/

/-- Lines that report single steps; there are none unless they are asked for. -/
def StepReports (debug : Bool) (said : List Text) : Prop :=
  (debug = false → said = []) ∧ ∀ line ∈ said, ("[DEBUG] " : Text) <+: line

/-- The program ends with a code, an answer, and other lines behind the reports of single steps. -/
def Ending.Says (debug : Bool) (code : Nat) (answer others : List Text) (ending : Ending) : Prop :=
  ∃ said, StepReports debug said ∧ ending = .exit code (linesOf answer) (linesOf (said ++ others))

/-- How a check ends that gives a grammar or not. -/
structure CheckAnswer (debug : Bool) (loaded : Except Failure Grammar) (ending : Ending) :
    Prop where
  /-- The code is 0 if there is a grammar, and then the answer says how many rules it has and with
  which one it starts. -/
  zero_iff : ∀ answer, (∃ others, ending = .exit 0 answer others) ↔
    ∃ g, loaded = .ok g ∧ answer = linesOf [("[CHECK OK] rules=" : Text) ++ Text.ofNat g.size ++
      " start=" ++ g.start]
  /-- The code is 2 if there is a failure that is reported. -/
  two_iff : (∃ others, ending = .exit 2 [] others) ↔
    ∃ f lines, loaded = .error f ∧ f.Reported lines
  /-- A failure is reported in its lines. -/
  reports : ∀ f lines, loaded = .error f → f.Reported lines → ending.Says debug 2 [] lines
  /-- There is no other code, and no answer without a grammar. -/
  codes : ∀ code answer others, ending = .exit code answer others →
    code = 0 ∨ code = 2 ∧ answer = []

/-- How a match ends that gives a grammar and something to match or not, if the given function says
what is consumed of it. -/
structure MatchAnswer (debug : Bool) (loaded : Except Failure (Grammar × Given))
    (consumes : Grammar → Given → Except MatchError Span) (ending : Ending) : Prop where
  /-- The code is 2 if there is a failure that is reported, or if the frames run out. -/
  two_iff : (∃ others, ending = .exit 2 [] others) ↔
    (∃ f lines, loaded = .error f ∧ f.Reported lines) ∨
      ∃ g given, loaded = .ok (g, given) ∧ consumes g given = .error (.halted .outOfFrames)
  /-- A failure is reported in its lines. -/
  reports : ∀ f lines, loaded = .error f → f.Reported lines → ending.Says debug 2 [] lines
  /-- That the frames run out is reported. -/
  reports_depth : ∀ g given, loaded = .ok (g, given) →
    consumes g given = .error (.halted .outOfFrames) → ending.Says debug 2 [] [tooDeepLine]
  /-- The code is 1 if there is no match, and then the answer says of which rule. -/
  one_iff : ∀ answer, (∃ others, ending = .exit 1 answer others) ↔
    ∃ g given, loaded = .ok (g, given) ∧ consumes g given = .error .noMatch ∧
      answer = linesOf [("[NO MATCH] rule=" : Text) ++ g.start]
  /-- The code is 0 if something is consumed, and then the answer says where it is and what. -/
  zero_iff : ∀ answer, (∃ others, ending = .exit 0 answer others) ↔
    ∃ g given span, loaded = .ok (g, given) ∧ consumes g given = .ok span ∧
      answer = linesOf [("[MATCH] " : Text) ++ Text.ofNat span.start ++ ".." ++
        Text.ofNat span.stop, shown given span]
  /-- There is no other code, and no answer with code 2. -/
  codes : ∀ code answer others, ending = .exit code answer others →
    code = 0 ∨ code = 1 ∨ code = 2 ∧ answer = []
  /-- With another code than 2 nothing but steps is reported. -/
  quiet : ∀ code answer others, ending = .exit code answer others → code ≠ 2 →
    ∃ said, StepReports debug said ∧ others = linesOf said

/-- What the library makes of the files of a request is what the program answers. -/
def Request.AnsweredBy (frames : Nat) (files : Files) (ending : Ending) : Request → Prop
  | .check path debug => CheckAnswer debug (grammarIn frames files path .null) ending
  | .matching path rule all input debug =>
      MatchAnswer debug (matchIn frames files path rule input) (consumed frames all) ending

def Request.grammarPath : Request → Text
  | .check path _ => Path.normalize path
  | .matching path _ _ _ _ => Path.normalize path

def Request.start : Request → Value
  | .check _ _ => .null
  | .matching _ rule _ _ _ => startOf rule

/-- The grammar of a request nests too deeply to be read, or to be linked. -/
def Request.GrammarTooDeep (frames : Nat) (files : Files) (request : Request) : Prop :=
  ∃ src, readText files request.grammarPath = .ok src ∧
    Source.TooDeep frames 0 src request.start

/-- What the program is asked for in the ordinary way: no path is flawed, the grammar does not nest
too deeply, and no option is given nothing. -/
structure Request.Ordinary (frames : Nat) (files : Files) (request : Request) : Prop where
  /-- The files can be asked for. -/
  paths : ∀ path ∈ request.paths, ∀ flaw, files path ≠ .error (.flawed flaw)
  /-- The frames do not run out while the grammar is read and linked. -/
  depth : ¬ request.GrammarTooDeep frames files
  /-- Texts are given wherever something is. -/
  texts : ∀ path rule all input debug, request = .matching path rule all input debug →
    rule ≠ some .nothing ∧ input ≠ .given .nothing ∧ input ≠ .file .nothing

/-! ## Endings of failures -/

section Endings

variable {debug : Bool} {f : Failure} {said : List Text}

/-- A failure that is reported ends the program with its lines. -/
theorem Failure.Reported.says {lines : List Text} (h : f.Reported lines)
    (steps : StepReports debug said) : (f.ending said).Says debug 2 [] lines := by
  refine ⟨said, steps, ?_⟩
  rw [ending, report_eq_ok_iff.mpr h]
  rfl

/-- A failure that ends the program with a code is reported, and the code is 2. -/
theorem Failure.exists_reported_of_ending {code : Nat} {answer others : Text}
    (h : f.ending said = .exit code answer others) :
    code = 2 ∧ answer = [] ∧ ∃ lines, f.Reported lines := by
  rw [ending] at h
  cases report : f.report with
  | ok lines =>
      rw [report] at h
      cases h
      exact ⟨rfl, rfl, lines, report_eq_ok_iff.mp report⟩
  | error cause =>
      rw [report] at h
      cases h

end Endings

/-! ## Courses of a match -/

/-- The courses that a match can take, each with its ending. -/
inductive MatchCourse (debug : Bool) (loaded : Except Failure (Grammar × Given))
    (consumes : Grammar → Given → Except MatchError Span) : Ending → Prop where
  /-- Loading fails and this is reported. -/
  | failed {f : Failure} {lines said : List Text} (fails : loaded = .error f)
      (reported : f.Reported lines) (steps : StepReports debug said) :
      MatchCourse debug loaded consumes (.exit 2 [] (linesOf (said ++ lines)))
  /-- Loading fails and the program ends at once. -/
  | aborted {f : Failure} {cause : Abort} (fails : loaded = .error f)
      (aborts : f.report = .error cause) : MatchCourse debug loaded consumes (.abort cause)
  /-- The start rule consumes something. -/
  | accepted {g : Grammar} {given : Given} {span : Span} {said : List Text}
      (succeeds : loaded = .ok (g, given)) (result : consumes g given = .ok span)
      (steps : StepReports debug said) :
      MatchCourse debug loaded consumes (.exit 0 (linesOf [("[MATCH] " : Text) ++
        Text.ofNat span.start ++ ".." ++ Text.ofNat span.stop, shown given span]) (linesOf said))
  /-- The start rule fails. -/
  | rejected {g : Grammar} {given : Given} {said : List Text} (succeeds : loaded = .ok (g, given))
      (result : consumes g given = .error .noMatch) (steps : StepReports debug said) :
      MatchCourse debug loaded consumes
        (.exit 1 (linesOf [("[NO MATCH] rule=" : Text) ++ g.start]) (linesOf said))
  /-- The start rule runs out of frames. -/
  | tooDeep {g : Grammar} {given : Given} {said : List Text} (succeeds : loaded = .ok (g, given))
      (result : consumes g given = .error (.halted .outOfFrames))
      (steps : StepReports debug said) :
      MatchCourse debug loaded consumes (.exit 2 [] (linesOf (said ++ [tooDeepLine])))
  /-- The start rule is halted otherwise and the program ends at once. -/
  | halted {g : Grammar} {given : Given} {halt : Halt} {cause : Abort}
      (succeeds : loaded = .ok (g, given)) (result : consumes g given = .error (.halted halt))
      (other : halt ≠ .outOfFrames) : MatchCourse debug loaded consumes (.abort cause)

namespace MatchCourse

variable {debug : Bool} {loaded : Except Failure (Grammar × Given)}
  {consumes : Grammar → Given → Except MatchError Span} {ending : Ending} {g : Grammar}
  {given : Given}

/-- A match that fails to load says so. -/
theorem says_of_failed (h : MatchCourse debug loaded consumes ending) {f : Failure}
    {lines : List Text} (fails : loaded = .error f) (reported : f.Reported lines) :
    ending.Says debug 2 [] lines := by
  subst fails
  cases h with
  | @failed _ _ said fails reported' steps =>
      cases fails
      obtain rfl := reported.unique reported'
      exact ⟨said, steps, rfl⟩
  | aborted fails aborts =>
      cases fails
      rw [Failure.report_eq_ok_iff.mpr reported] at aborts
      cases aborts
  | accepted succeeds | rejected succeeds | tooDeep succeeds | halted succeeds => cases succeeds

theorem says_of_accepted (h : MatchCourse debug loaded consumes ending) {span : Span}
    (succeeds : loaded = .ok (g, given)) (result : consumes g given = .ok span) :
    ending.Says debug 0 [("[MATCH] " : Text) ++ Text.ofNat span.start ++ ".." ++
      Text.ofNat span.stop, shown given span] [] := by
  subst succeeds
  cases h with
  | failed fails | aborted fails => cases fails
  | @accepted _ _ _ said succeeds result' steps =>
      cases succeeds
      cases result.symm.trans result'
      exact ⟨said, steps, by rw [List.append_nil]⟩
  | rejected succeeds result' | tooDeep succeeds result' | halted succeeds result' =>
      cases succeeds
      cases result.symm.trans result'

theorem says_of_rejected (h : MatchCourse debug loaded consumes ending)
    (succeeds : loaded = .ok (g, given)) (result : consumes g given = .error .noMatch) :
    ending.Says debug 1 [("[NO MATCH] rule=" : Text) ++ g.start] [] := by
  subst succeeds
  cases h with
  | failed fails | aborted fails => cases fails
  | @rejected _ _ said succeeds _ steps =>
      cases succeeds
      exact ⟨said, steps, by rw [List.append_nil]⟩
  | accepted succeeds result' | tooDeep succeeds result' | halted succeeds result' =>
      cases succeeds
      cases result.symm.trans result'

/-- A match that runs out of frames says so. -/
theorem says_of_tooDeep (h : MatchCourse debug loaded consumes ending)
    (succeeds : loaded = .ok (g, given))
    (result : consumes g given = .error (.halted .outOfFrames)) :
    ending.Says debug 2 [] [tooDeepLine] := by
  subst succeeds
  cases h with
  | failed fails | aborted fails => cases fails
  | @tooDeep _ _ said succeeds _ steps =>
      cases succeeds
      exact ⟨said, steps, rfl⟩
  | accepted succeeds result' | rejected succeeds result' =>
      cases succeeds
      cases result.symm.trans result'
  | halted succeeds result' other =>
      cases succeeds
      cases result.symm.trans result'
      exact absurd rfl other

/-- Whatever course a match takes, it answers what the library gives. -/
theorem answer (h : MatchCourse debug loaded consumes ending) :
    MatchAnswer debug loaded consumes ending where
  two_iff := by
    constructor
    · rintro ⟨others, rfl⟩
      cases h with
      | failed fails reported => exact .inl ⟨_, _, fails, reported⟩
      | tooDeep succeeds result => exact .inr ⟨_, _, succeeds, result⟩
    · rintro (⟨f, lines, fails, reported⟩ | ⟨g, given, succeeds, result⟩)
      · obtain ⟨said, -, ends⟩ := h.says_of_failed fails reported
        exact ⟨_, ends⟩
      · obtain ⟨said, -, ends⟩ := h.says_of_tooDeep succeeds result
        exact ⟨_, ends⟩
  reports f lines := h.says_of_failed
  reports_depth g given := h.says_of_tooDeep
  one_iff answer := by
    constructor
    · rintro ⟨others, rfl⟩
      cases h with
      | rejected succeeds result => exact ⟨_, _, succeeds, result, rfl⟩
    · rintro ⟨g, given, succeeds, result, rfl⟩
      obtain ⟨said, -, ends⟩ := h.says_of_rejected succeeds result
      exact ⟨_, ends⟩
  zero_iff answer := by
    constructor
    · rintro ⟨others, rfl⟩
      cases h with
      | accepted succeeds result => exact ⟨_, _, _, succeeds, result, rfl⟩
    · rintro ⟨g, given, span, succeeds, result, rfl⟩
      obtain ⟨said, -, ends⟩ := h.says_of_accepted succeeds result
      exact ⟨_, ends⟩
  codes code answer others ends := by
    subst ends
    cases h with
    | failed | tooDeep => exact .inr (.inr ⟨rfl, rfl⟩)
    | accepted => exact .inl rfl
    | rejected => exact .inr (.inl rfl)
  quiet code answer others ends notTwo := by
    subst ends
    cases h with
    | failed | tooDeep => exact absurd rfl notTwo
    | accepted _ _ steps | rejected _ _ steps => exact ⟨_, steps, rfl⟩

end MatchCourse

/-! ## What the program goes through -/

/-- Nothing said is no report of a step. -/
theorem StepReports.nil (debug : Bool) : StepReports debug [] := ⟨fun _ ↦ rfl, by simp⟩

/-- What is said only if it is asked for reports steps. -/
theorem StepReports.saidIf (debug : Bool) {lines : List Text}
    (h : ∀ line ∈ lines, ("[DEBUG] " : Text) <+: line) :
    StepReports debug (CommandLine.saidIf debug lines) := by
  cases debug with
  | false => exact .nil false
  | true => exact ⟨nofun, h⟩

/-- Reports of steps after each other are reports of steps. -/
theorem StepReports.append {debug : Bool} {said more : List Text} (h : StepReports debug said)
    (h' : StepReports debug more) : StepReports debug (said ++ more) := by
  constructor
  · intro quiet
    rw [h.1 quiet, h'.1 quiet]
    rfl
  · intro line mem
    exact (List.mem_append.mp mem).elim (h.2 line) (h'.2 line)

/-- Loading gives the grammar in the file, and reports nothing but steps. -/
theorem exists_load_eq (frames : Nat) (files : Files) (path : Text) (start : Value)
    (debug : Bool) : ∃ said, StepReports debug said ∧
      load frames files path start debug = (said, grammarIn frames files path start) := by
  have loaded : ∀ src, ("[DEBUG] " : Text) <+: loadedLine src := fun src ↦
    ⟨("grammar text loaded | chars=" : Text) ++ Text.ofNat src.length, rfl⟩
  have linked : ∀ g, ("[DEBUG] " : Text) <+: linkedLine g := fun g ↦
    ⟨("grammar linked | " : Text) ++ summary g, rfl⟩
  rw [load, grammarIn, readSource_eq_readText]
  cases readText files (Path.normalize path) with
  | error f => exact ⟨[], .nil debug, rfl⟩
  | ok src =>
      cases built : Grammar.ofSource frames 0 src start with
      | error e =>
          refine ⟨saidIf debug [loadedLine src], .saidIf debug (by simpa using loaded src), ?_⟩
          simp only [built, ok_bind]
          rfl
      | ok g =>
          refine ⟨saidIf debug [loadedLine src, linkedLine g],
            .saidIf debug (by simpa using ⟨loaded src, linked g⟩), ?_⟩
          simp only [built, ok_bind]
          rfl

namespace MatchCourse

variable {debug : Bool} {loaded : Except Failure (Grammar × Given)}
  {consumes : Grammar → Given → Except MatchError Span} {g : Grammar} {given : Given}
  {said : List Text}

theorem of_failure {f : Failure} (fails : loaded = .error f) (steps : StepReports debug said) :
    MatchCourse debug loaded consumes (f.ending said) := by
  rw [Failure.ending]
  cases report : f.report with
  | ok lines => exact .failed fails (Failure.report_eq_ok_iff.mp report) steps
  | error cause => exact .aborted fails report

/-- A result that is reported is a course. -/
theorem of_reported (succeeds : loaded = .ok (g, given)) (steps : StepReports debug said)
    {value : Span → Text} (values : ∀ span, value span = shown given span)
    (inside : ∀ pos length, consumes g given ≠ .error (.positionOutside pos length)) :
    MatchCourse debug loaded consumes (reported g said value (consumes g given)) := by
  cases result : consumes g given with
  | ok span =>
      rw [reported, values]
      exact .accepted succeeds result steps
  | error e =>
      cases e with
      | positionOutside pos length => exact absurd result (inside pos length)
      | noMatch => exact .rejected succeeds result steps
      | halted halt =>
          by_cases out : halt = .outOfFrames
          · subst out
            exact .tooDeep succeeds result steps
          · have aborts :
                reported g said value (.error (.halted halt)) = .abort (.halted halt) := by
              cases halt with
              | outOfFrames => exact absurd rfl out
              | unresolved | unknownQuantifier | missingSlot => rfl
            rw [aborts]
            exact .halted succeeds result out

/-- Matching against a grammar whose start rule can be looked up is a course. -/
theorem of_matched {frames : Nat} {all : Bool} (succeeds : loaded = .ok (g, given))
    (steps : StepReports debug said) (found : g.rule (.text g.start) = .ok g.startRule) :
    MatchCourse debug loaded (consumed frames all) (matched frames g given all debug said) := by
  have matching : ("[DEBUG] " : Text) <+: matchingLine g given.content all :=
    ⟨("rule=" : Text) ++ g.start ++ " all=" ++ truth all ++ " chars=" ++
      Text.ofNat given.content.length, rfl⟩
  have steps := steps.append (.saidIf debug (List.forall_mem_singleton.mpr matching))
  have inside : ∀ pos length,
      consumed frames all g given ≠ .error (.positionOutside pos length) :=
    fun pos length outside ↦ ne_positionOutside_of_consumed outside pos length rfl
  rw [matched, found]
  cases given with
  | text t =>
      have same : (if all then g.startRule.parseAll else g.startRule.parse) frames t =
          consumed frames all g (.text t) := by
        cases all <;> rfl
      dsimp only
      rw [same]
      exact of_reported succeeds steps (fun _ ↦ rfl) inside
  | nothing =>
      have same : (if all then g.barLiterals.parseAll else g.barLiterals.parse) frames [] =
          consumed frames all g .nothing := by
        cases all <;> rfl
      dsimp only
      rw [same]
      -- A literal that is reached ends the program at once; all else is reported as for a text.
      split
      next name result => exact .halted succeeds result (by simp)
      next => exact of_reported succeeds steps (fun _ ↦ rfl) inside

end MatchCourse

/-! ## Checks -/

section Check

variable {debug : Bool} {loaded : Except Failure Grammar} {said : List Text}

/-- A check without a grammar answers its failure. -/
theorem checkAnswer_of_failure {f : Failure} (fails : loaded = .error f)
    (steps : StepReports debug said) : CheckAnswer debug loaded (f.ending said) := by
  subst fails
  refine ⟨?_, ?_, ?_, ?_⟩
  · intro answer
    constructor
    · rintro ⟨others, ends⟩
      obtain ⟨code, -⟩ := Failure.exists_reported_of_ending ends
      cases code
    · rintro ⟨g, succeeds, -⟩
      cases succeeds
  · constructor
    · rintro ⟨others, ends⟩
      obtain ⟨-, -, lines, reported⟩ := Failure.exists_reported_of_ending ends
      exact ⟨f, lines, rfl, reported⟩
    · rintro ⟨f', lines, fails, reported⟩
      cases fails
      obtain ⟨said, -, ends⟩ := reported.says steps
      exact ⟨_, ends⟩
  · intro f' lines fails reported
    cases fails
    exact reported.says steps
  · intro code answer others ends
    obtain ⟨rfl, rfl, -⟩ := Failure.exists_reported_of_ending ends
    exact .inr ⟨rfl, rfl⟩

/-- A check with a grammar answers what it consists of. -/
theorem checkAnswer_of_loaded {g : Grammar} (succeeds : loaded = .ok g) (said : List Text) :
    CheckAnswer debug loaded (checked g debug said) := by
  subst succeeds
  refine ⟨?_, ?_, ?_, ?_⟩
  · intro answer
    constructor
    · rintro ⟨others, ends⟩
      cases ends
      exact ⟨g, rfl, rfl⟩
    · rintro ⟨g', succeeds, rfl⟩
      cases succeeds
      exact ⟨_, rfl⟩
  · constructor
    · rintro ⟨others, ends⟩
      cases ends
    · rintro ⟨f, lines, fails, -⟩
      cases fails
  · intro f lines fails
    cases fails
  · intro code answer others ends
    cases ends
    exact .inl rfl

end Check

/-! ## Requests -/

section Requests

variable {frames : Nat} {files : Files}

/-- A match takes one of the courses. -/
theorem matchCourse_run (frames : Nat) (files : Files) (path : Text) (rule : Option Given)
    (all : Bool) (input : InputText) (debug : Bool) :
    MatchCourse debug (matchIn frames files path rule input) (consumed frames all)
      ((Request.matching path rule all input debug).run frames files) := by
  obtain ⟨said, steps, load⟩ := exists_load_eq frames files path (startOf rule) debug
  rw [Request.run, load, matchIn]
  cases loaded : grammarIn frames files path (startOf rule) with
  | error f => exact .of_failure rfl steps
  | ok g =>
      simp only [ok_bind]
      cases inputText files input with
      | error f => exact .of_failure rfl steps
      | ok given => exact .of_matched rfl steps (rule_start_of_grammarIn loaded)

/-- Every request is answered by what the library makes of its files. -/
theorem Request.answeredBy_run (request : Request) (frames : Nat) (files : Files) :
    request.AnsweredBy frames files (request.run frames files) := by
  cases request with
  | check path debug =>
      obtain ⟨said, steps, load⟩ := exists_load_eq frames files path .null debug
      rw [Request.run, load]
      show CheckAnswer debug (grammarIn frames files path .null) _
      cases loaded : grammarIn frames files path .null with
      | error f => exact checkAnswer_of_failure rfl steps
      | ok g => exact checkAnswer_of_loaded rfl said
  | matching path rule all input debug =>
      exact (matchCourse_run frames files path rule all input debug).answer

theorem Request.grammarPath_mem_paths (request : Request) :
    request.grammarPath ∈ request.paths := by
  cases request with
  | check path debug => exact List.mem_cons_self
  | matching path rule all input debug =>
      rcases input with _ | _ | _
      · exact List.mem_cons_self
      · exact List.mem_cons_self
      · exact List.mem_cons_self

namespace Request.Ordinary

variable {path : Text} {rule : Option Given} {all debug : Bool} {input : InputText}

theorem exists_reported {request : Request} (h : request.Ordinary frames files) {path : Text}
    (same : request.grammarPath = Path.normalize path) (keyable : request.start.unkeyable? = none)
    {f : Failure} (fails : grammarIn frames files path request.start = .error f) :
    ∃ lines, f.Reported lines := by
  have sound := h.paths _ request.grammarPath_mem_paths
  rw [same] at sound
  refine exists_reported_of_grammarIn sound (fun src read tooDeep ↦ ?_) keyable fails
  exact h.depth ⟨src, same ▸ read, tooDeep⟩

theorem exists_reported_of_matchIn
    (h : (Request.matching path rule all input debug).Ordinary frames files) {f : Failure}
    (fails : matchIn frames files path rule input = .error f) : ∃ lines, f.Reported lines := by
  obtain ⟨ruleNamed, -, inputNamed⟩ := h.texts path rule all input debug rfl
  rcases bind_eq_error_iff.mp fails with unloaded | ⟨g, -, fails⟩
  · exact h.exists_reported rfl (keyable_startOf ruleNamed) unloaded
  · rcases bind_eq_error_iff.mp fails with unread | ⟨given, -, impossible⟩
    · refine exists_reported_of_inputText ?_ inputNamed unread
      rintro path' rfl
      exact h.paths path' (List.mem_cons_of_mem _ List.mem_cons_self)
    · cases impossible

theorem exists_text_of_matchIn
    (h : (Request.matching path rule all input debug).Ordinary frames files) {g : Grammar}
    {given : Given} (succeeds : matchIn frames files path rule input = .ok (g, given)) :
    grammarIn frames files path (startOf rule) = .ok g ∧ ∃ t, given = .text t := by
  obtain ⟨-, inputGiven, inputNamed⟩ := h.texts path rule all input debug rfl
  obtain ⟨g', loaded, succeeds⟩ := bind_eq_ok_iff.mp succeeds
  obtain ⟨given', read, same⟩ := bind_eq_ok_iff.mp succeeds
  cases same
  refine ⟨loaded, ?_⟩
  rcases input with (t | _) | (path' | _)
  · cases read
    exact ⟨t, rfl⟩
  · exact absurd rfl inputGiven
  · obtain ⟨t, -, same⟩ := bind_eq_ok_iff.mp read
    cases same
    exact ⟨t, rfl⟩
  · exact absurd rfl inputNamed

/-- An ordinary request comes to an end with an exit code. -/
theorem exists_exit {request : Request} (h : request.Ordinary frames files) :
    ∃ code answer others, request.run frames files = .exit code answer others := by
  cases request with
  | check path debug =>
      obtain ⟨said, steps, load⟩ := exists_load_eq frames files path .null debug
      rw [Request.run, load]
      cases loaded : grammarIn frames files path .null with
      | error f =>
          obtain ⟨lines, reported⟩ := h.exists_reported rfl rfl loaded
          obtain ⟨said, -, ends⟩ := reported.says steps
          exact ⟨_, _, _, ends⟩
      | ok g => exact ⟨_, _, _, rfl⟩
  | matching path rule all input debug =>
      have course := matchCourse_run frames files path rule all input debug
      generalize (Request.matching path rule all input debug).run frames files = ending at course
      cases course with
      | failed | accepted | rejected | tooDeep => exact ⟨_, _, _, rfl⟩
      -- The two courses that end at once are ruled out: all failures are reported, and a start rule
      -- in a closed grammar is halted for want of frames only.
      | aborted fails aborts =>
          obtain ⟨lines, reported⟩ := h.exists_reported_of_matchIn fails
          cases (Failure.report_eq_ok_iff.mpr reported).symm.trans aborts
      | halted succeeds result other =>
          obtain ⟨loaded, t, rfl⟩ := h.exists_text_of_matchIn succeeds
          exact absurd (outOfFrames_of_consumed loaded result) other

end Request.Ordinary

end Requests

/-- The program is what the library gives. Of arguments that make a request, the exit code is 2 with
an empty answer if reading the grammar file, reading the grammar, or reading the input fails in a
way that is reported, the first of these in this order, or if the frames run out on the input;
otherwise it is 1 if the start rule does not match, and 0 with what it consumes if it does. A check
is 0 with a summary if there is a grammar, and 2 if not. Nothing else can happen to an ordinary
request: the start rule is found, and it has no other errors.

The endings are the texts that are printed. Both outputs are taken to be able to encode them; one
that cannot, such as UTF-8 for a surrogate in the stretch that was consumed, is not described. -/
theorem run_answers {arguments : List Text} {request : Request}
    (accepted : Request.ofArguments arguments = .ok request) (frames : Nat) (files : Files) :
    request.AnsweredBy frames files (run frames files arguments) ∧
      (request.Ordinary frames files →
        ∃ code answer others, run frames files arguments = .exit code answer others) := by
  have same : run frames files arguments = request.run frames files := by
    rw [run, accepted]
  rw [same]
  exact ⟨request.answeredBy_run frames files, fun ordinary ↦ ordinary.exists_exit⟩

/-- A directory with the grammar `s <- 'a'*` in it. -/
def lettersOnly : Directory := [("g.peg", [0x73, 0x20, 0x3C, 0x2D, 0x20, 0x27, 0x61, 0x27, 0x2A])]

/-- A text that holds other letters behind those of the grammar, all of which is to be matched. -/
theorem run_answers_all :
    Request.AnsweredBy 50 lettersOnly.open?
        (run 50 lettersOnly.open? ["match", "g.peg", "--text", "aab", "--all"])
        (.matching "g.peg" none true (.given (.text "aab")) false) ∧
      ∃ code answer others,
        run 50 lettersOnly.open? ["match", "g.peg", "--text", "aab", "--all"] =
          .exit code answer others := by
  have accepted : Request.ofArguments ["match", "g.peg", "--text", "aab", "--all"] =
      .ok (.matching "g.peg" none true (.given (.text "aab")) false) := rfl
  have content : readText lettersOnly.open? "g.peg" = .ok "s <- 'a'*" := rfl
  have loads : (Grammar.ofSource 50 0 "s <- 'a'*" .null).isOk = true := by decide +kernel
  have ordinary : Request.Ordinary 50 lettersOnly.open?
      (.matching "g.peg" none true (.given (.text "aab")) false) := by
    refine ⟨?_, ?_, ?_⟩
    · intro path mem flaw flawed
      obtain rfl : path = "g.peg" := List.mem_singleton.mp mem
      cases flawed
    · rintro ⟨src, read, tooDeep⟩
      obtain rfl : ("s <- 'a'*" : Text) = src := Except.ok.inj (content.symm.trans read)
      rw [show Grammar.ofSource 50 0 "s <- 'a'*" .null = _ from
        Grammar.ofSource_eq_outOfFrames_iff.mpr tooDeep] at loads
      cases loads
    · rintro _ _ _ _ _ ⟨⟩
      simp
  exact ⟨(run_answers accepted 50 lettersOnly.open?).1,
    (run_answers accepted 50 lettersOnly.open?).2 ordinary⟩

end Peg.CommandLine
