import Peg.Proofs.CommandLine.Projection
import Peg.Proofs.Notation.Nesting
import Peg.Proofs.Source.LineEnds

/-!
# Running out of frames

Frames can run out while the notation of a grammar is read, while its rules are linked, and while
the start rule runs. Only the last is reported; the other two end the program at once, whichever
command was given. And no limit is so high that it could not happen: for each there is a grammar
that nests too deeply to be read, and for each but the lowest there is one that is read but nests
too deeply to be linked.
-/

namespace Peg.CommandLine

open Except

/-! ## Where frames run out -/

def Request.debug : Request → Bool
  | .check _ debug => debug
  | .matching _ _ _ _ debug => debug

/-- The input of a request nests too deeply for the grammar; a check has no input. -/
def Request.InputTooDeep (frames : Nat) (files : Files) : Request → Prop
  | .check _ _ => False
  | .matching path rule all input _ => ∃ g given, matchIn frames files path rule input =
      .ok (g, given) ∧ consumed frames all g given = .error (.halted .outOfFrames)

/-- How a request ends when the frames run out. -/
structure DepthAnswer (frames : Nat) (files : Files) (request : Request) (ending : Ending) :
    Prop where
  /-- While the grammar is read or linked the program ends at once, with no exit code and nothing
  said; and it ends so for no other reason. -/
  loading_iff : ending = .abort (.unreadable .outOfFrames) ↔ request.GrammarTooDeep frames files
  /-- The tokens of a grammar never break off. -/
  ne_outOfTokens : ending ≠ .abort (.unreadable .outOfTokens)
  /-- While the start rule runs the exit code is 2, the answer is empty, and it is said that the
  frames ran out. -/
  matching : request.InputTooDeep frames files → ending.Says request.debug 2 [] [tooDeepLine]

/-! ## Loading -/

section Loading

variable {frames : Nat} {files : Files} {path : Text} {start : Value} {e : Notation.ReadError}

/-- A failure that ends the program because a grammar cannot be read is just that. -/
theorem Failure.eq_unreadable_of_report {f : Failure} (h : f.report = .error (.unreadable e)) :
    f = .unsound (.unreadable e) := by
  unfold report at h
  split at h
  all_goals cases h
  rfl

/-- The end of a failure because a grammar cannot be read is that of just that failure. -/
theorem Failure.eq_unreadable_of_ending {f : Failure} {said : List Text}
    (h : f.ending said = .abort (.unreadable e)) : f = .unsound (.unreadable e) := by
  rw [ending] at h
  split at h
  next => cases h
  next cause report =>
    cases h
    exact eq_unreadable_of_report report

theorem ne_unreadable_of_readText : readText files path ≠ .error (.unsound (.unreadable e)) := by
  intro h
  rcases bind_eq_error_iff.mp h with unopened | ⟨bytes, -, undecoded⟩
  · obtain ⟨_, -, impossible⟩ := mapError_eq_error_iff.mp unopened
    cases impossible
  · obtain ⟨_, -, impossible⟩ := mapError_eq_error_iff.mp undecoded
    cases impossible

theorem ofSource_ne_outOfTokens {id : Nat} {src : Text} :
    Grammar.ofSource frames id src start ≠ .error (.unreadable .outOfTokens) := by
  intro h
  rcases bind_eq_error_iff.mp h with unread | ⟨rules, -, unbuilt⟩
  · obtain ⟨e', unread, same⟩ := mapError_eq_error_iff.mp unread
    cases same
    obtain ⟨flaw, impossible⟩ := exists_flaw_of_rulesOf (by rw [unread]; simp) unread
    cases impossible
  · obtain ⟨_ | _, -, impossible⟩ := mapError_eq_error_iff.mp unbuilt
    · cases impossible
    · cases impossible

theorem ne_unreadable_of_inputText {input : InputText} :
    inputText files input ≠ .error (.unsound (.unreadable e)) := by
  intro h
  rcases input with given | (path | _)
  · cases h
  · rcases bind_eq_error_iff.mp h with unread | ⟨_, -, impossible⟩
    · exact ne_unreadable_of_readText unread
    · cases impossible
  · cases h

/-- Matching against a grammar never ends because a grammar cannot be read. -/
theorem matched_ne_unreadable {g : Grammar} {given : Given} {all debug : Bool} {said : List Text} :
    matched frames g given all debug said ≠ .abort (.unreadable e) := by
  have result : ∀ {said value} {found : Except MatchError Span},
      reported g said value found ≠ .abort (.unreadable e) := by
    intro said value found
    unfold reported
    split <;> simp
  rw [matched]
  split
  · simp
  · dsimp only
    split
    · exact result
    · split
      · simp
      · exact result

/-- The grammar that a request asks for. -/
def Request.grammarOf (frames : Nat) (files : Files) (request : Request) :
    Except Failure Grammar := do
  let src ← readText files request.grammarPath
  (Grammar.ofSource frames 0 src request.start).mapError .unsound

/-- The grammar of a request cannot be read or linked if that of the text in its file cannot. -/
theorem Request.grammarOf_eq_unreadable_iff {request : Request} :
    request.grammarOf frames files = .error (.unsound (.unreadable e)) ↔
      ∃ src, readText files request.grammarPath = .ok src ∧
        Grammar.ofSource frames 0 src request.start = .error (.unreadable e) := by
  constructor
  · intro h
    rcases bind_eq_error_iff.mp h with unread | ⟨src, read, unbuilt⟩
    · exact absurd unread ne_unreadable_of_readText
    · obtain ⟨e', fails, same⟩ := mapError_eq_error_iff.mp unbuilt
      cases same
      exact ⟨src, read, fails⟩
  · rintro ⟨src, read, fails⟩
    rw [grammarOf, read, ok_bind, fails]
    rfl

/-- A request without its grammar ends with the failure to load it. -/
theorem Request.exists_run_eq_ending {request : Request} {f : Failure}
    (fails : request.grammarOf frames files = .error f) :
    ∃ said, request.run frames files = f.ending said := by
  cases request with
  | check path debug =>
      obtain ⟨said, -, load⟩ := exists_load_eq frames files path .null debug
      replace fails : grammarIn frames files path .null = .error f := fails
      exact ⟨said, by rw [run, load, fails]⟩
  | matching path rule all input debug =>
      obtain ⟨said, -, load⟩ := exists_load_eq frames files path (startOf rule) debug
      replace fails : grammarIn frames files path (startOf rule) = .error f := fails
      exact ⟨said, by rw [run, load, fails]⟩

/-- A request with its grammar does not end because it cannot be read or linked. -/
theorem Request.run_ne_unreadable {request : Request} {g : Grammar}
    (loaded : request.grammarOf frames files = .ok g) :
    request.run frames files ≠ .abort (.unreadable e) := by
  intro ends
  cases request with
  | check path debug =>
      obtain ⟨said, -, load⟩ := exists_load_eq frames files path .null debug
      replace loaded : grammarIn frames files path .null = .ok g := loaded
      rw [run, load, loaded] at ends
      cases ends
  | matching path rule all input debug =>
      obtain ⟨said, -, load⟩ := exists_load_eq frames files path (startOf rule) debug
      replace loaded : grammarIn frames files path (startOf rule) = .ok g := loaded
      rw [run, load, loaded] at ends
      dsimp only at ends
      split at ends
      next f failed =>
        obtain rfl := Failure.eq_unreadable_of_ending ends
        exact ne_unreadable_of_inputText failed
      next given read => exact matched_ne_unreadable ends

/-- A request ends because its grammar cannot be read or linked exactly if the frames run out on
it. -/
theorem Request.run_eq_unreadable_iff {request : Request} :
    request.run frames files = .abort (.unreadable e) ↔
      e = .outOfFrames ∧ request.GrammarTooDeep frames files := by
  constructor
  · intro ends
    cases loaded : request.grammarOf frames files with
    | ok g => exact absurd ends (run_ne_unreadable loaded)
    | error f =>
        obtain ⟨said, failed⟩ := exists_run_eq_ending loaded
        rw [failed] at ends
        obtain rfl := Failure.eq_unreadable_of_ending ends
        obtain ⟨src, read, fails⟩ := grammarOf_eq_unreadable_iff.mp loaded
        -- A flaw would be reported, and nothing else can be wrong but that the frames ran out.
        cases e with
        | flawed flaw => cases ends
        | outOfTokens => exact absurd fails ofSource_ne_outOfTokens
        | outOfFrames => exact ⟨rfl, src, read, Grammar.ofSource_eq_outOfFrames_iff.mp fails⟩
  · rintro ⟨rfl, src, read, tooDeep⟩
    have fails := Grammar.ofSource_eq_outOfFrames_iff.mpr tooDeep
    obtain ⟨said, failed⟩ :=
      exists_run_eq_ending (grammarOf_eq_unreadable_iff.mpr ⟨src, read, fails⟩)
    rw [failed]
    rfl

end Loading

/-! ## Files of ASCII characters -/

def asciiFile (t : Text) : List UInt8 := t.map fun c ↦ .ofNat c.val

theorem encode_of_ascii {t : Text} (ascii : ∀ c ∈ t, c.val < 0x80) :
    Source.encode t = some (asciiFile t) := by
  induction t with
  | nil => rfl
  | cons c t ih =>
      obtain ⟨first, others⟩ := List.forall_mem_cons.mp ascii
      exact Source.encode_cons_eq_some_iff.mpr
        ⟨_, _, Source.utf8?_one first, rfl, ih others⟩

theorem textOf_asciiFile {t : Text} (ascii : ∀ c ∈ t, c.val < 0x80 ∧ c ≠ '\r') :
    Source.textOf (asciiFile t) = .ok t := by
  rw [← Source.grammarTextOf_eq_textOf, Source.grammarTextOf_eq_ok_iff]
  exact ⟨fun mem ↦ (ascii _ mem).2 rfl, t, .refl t, encode_of_ascii fun c mem ↦ (ascii c mem).1⟩

/-! ## Requests -/

/-- Every request ends in this way when the frames run out. -/
theorem Request.depthAnswer_run (request : Request) (frames : Nat) (files : Files) :
    DepthAnswer frames files request (request.run frames files) where
  loading_iff := by rw [run_eq_unreadable_iff, and_iff_right rfl]
  ne_outOfTokens := by
    intro ends
    obtain ⟨impossible, -⟩ := run_eq_unreadable_iff.mp ends
    cases impossible
  matching := by
    cases request with
    | check path debug => exact False.elim
    | matching path rule all input debug =>
        rintro ⟨g, given, loaded, out⟩
        exact (matchCourse_run frames files path rule all input debug).says_of_tooDeep loaded out

/-- When the frames run out on the input of a request this is reported, with exit code 2 and an
empty answer; when they run out on its grammar, to read or to link it, the program ends at once and
reports nothing. -/
theorem run_outOfFrames {arguments : List Text} {request : Request}
    (accepted : Request.ofArguments arguments = .ok request) (frames : Nat) (files : Files) :
    DepthAnswer frames files request (run frames files arguments) := by
  have same : run frames files arguments = request.run frames files := by
    rw [run, accepted]
  rw [same]
  exact request.depthAnswer_run frames files

/-- A left-recursive rule runs out of frames on its input, and the program says so. -/
theorem run_outOfFrames_leftRecursive :
    DepthAnswer frameLimit (Directory.open? [("g.peg", asciiFile "s<-s 'a'")])
        (.matching "g.peg" none true (.given (.text "a")) false)
        (run frameLimit (Directory.open? [("g.peg", asciiFile "s<-s 'a'")])
          ["match", "g.peg", "--text", "a", "--all"]) ∧
      Request.InputTooDeep frameLimit (Directory.open? [("g.peg", asciiFile "s<-s 'a'")])
        (.matching "g.peg" none true (.given (.text "a")) false) := by
  have accepted : Request.ofArguments ["match", "g.peg", "--text", "a", "--all"] =
      .ok (.matching "g.peg" none true (.given (.text "a")) false) := rfl
  have halts : ((matchIn frameLimit (Directory.open? [("g.peg", asciiFile "s<-s 'a'")]) "g.peg" none
      (.given (.text "a"))).toOption.any fun loaded ↦
        (consumed frameLimit true loaded.1 loaded.2).failure? = some (.halted .outOfFrames)) =
          true := by
    decide +kernel
  refine ⟨run_outOfFrames accepted _ _, ?_⟩
  cases loaded : matchIn frameLimit (Directory.open? [("g.peg", asciiFile "s<-s 'a'")]) "g.peg" none
      (.given (.text "a")) with
  | error f =>
      rw [loaded] at halts
      cases halts
  | ok pair =>
      rw [loaded] at halts
      exact ⟨pair.1, pair.2, loaded, failure?_eq_some_iff.mp (of_decide_eq_true halts)⟩

/-! ## No limit is high enough -/

section Limits

variable {frames : Nat} {files : Files} {arguments : List Text} {request : Request}

theorem readText_asciiFile {path t : Text} (ascii : ∀ c ∈ t, c.val < 0x80 ∧ c ≠ '\r')
    (content : files path = .ok (asciiFile t)) : readText files path = .ok t := by
  rw [readText, content]
  show (Source.textOf _).mapError _ = _
  rw [textOf_asciiFile ascii]
  rfl

/-- Every request for a grammar with so many parentheses ends at once, whatever the limit. -/
theorem run_nestedSource {pairs : Nat} (few : frames < 5 * pairs + 5)
    (accepted : Request.ofArguments arguments = .ok request)
    (content : files request.grammarPath = .ok (asciiFile (Notation.nestedSource pairs))) :
    run frames files arguments = .abort (.unreadable .outOfFrames) := by
  have read := readText_asciiFile (fun _ ↦ Notation.ascii_of_mem_nestedSource) content
  rw [run, accepted]
  exact Request.run_eq_unreadable_iff.mpr
    ⟨rfl, Notation.nestedSource pairs, read, .inl (Notation.rulesOf_nestedSource few)⟩

/-- With three thousand pairs of parentheses around a rule neither command reports anything. -/
theorem run_nestedSource_aborts :
    run frameLimit (Directory.open? [("g.peg", asciiFile (Notation.nestedSource 3000))])
        ["check", "g.peg"] = .abort (.unreadable .outOfFrames) ∧
      run frameLimit (Directory.open? [("g.peg", asciiFile (Notation.nestedSource 3000))])
        ["match", "g.peg", "--text", "a"] = .abort (.unreadable .outOfFrames) :=
  ⟨run_nestedSource (by decide) rfl rfl, run_nestedSource (by decide) rfl rfl⟩

/-- Every request for the first rule of a grammar with so many layers ends at once too, although
there are frames enough to read it. -/
theorem run_layeredSource {layers : Nat} (enough : 5 * layers + 5 ≤ frames)
    (few : frames < 6 * layers + 1) (accepted : Request.ofArguments arguments = .ok request)
    (content : files request.grammarPath = .ok (asciiFile (Notation.layeredSource layers)))
    (first : request.start = .null) :
    run frames files arguments = .abort (.unreadable .outOfFrames) := by
  have ascii := List.forall_iff_forall_mem.mp (Notation.forall_layeredSource layers)
  have tooDeep : Source.TooDeep frames 0 (Notation.layeredSource layers) request.start :=
    .inr ⟨_, Notation.rulesOf_layeredSource enough, first ▸ Notation.buildWithin_layeredRule few 0⟩
  rw [run, accepted]
  exact Request.run_eq_unreadable_iff.mpr
    ⟨rfl, Notation.layeredSource layers, readText_asciiFile ascii content, tooDeep⟩

/-- For every limit but the lowest there is a source that can be read and on which every request for
its first rule ends at once. -/
theorem exists_source_not_linked (frames : Nat) (limit : 55 ≤ frames) :
    ∃ src rules, Source.rulesOf frames src = .ok rules ∧
      ∀ {files arguments request}, Request.ofArguments arguments = .ok request →
        files request.grammarPath = .ok (asciiFile src) → request.start = .null →
          run frames files arguments = .abort (.unreadable .outOfFrames) := by
  -- A sixth of the frames makes layers enough to need them all, and leaves enough to read them.
  have enough : 5 * (frames / 6 + 1) + 5 ≤ frames := by omega
  have few : frames < 6 * (frames / 6 + 1) + 1 := by omega
  exact ⟨_, _, Notation.rulesOf_layeredSource enough, run_layeredSource enough few⟩

end Limits

end Peg.CommandLine
