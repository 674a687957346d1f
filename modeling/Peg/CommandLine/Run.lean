import Peg.CommandLine.File
import Peg.CommandLine.Request
import Peg.Grammar.Lookup
import Peg.Match.Nothing
import Peg.Source.Basic

/-!
# The program

A request is carried out on files that are opened through a given function. What the program has to
say goes to two outputs: its answer to the first and everything else to the second. The exit code is
0 when a grammar is sound or a text matches, 1 when a text does not match, and 2 when something is
wrong with the grammar, with a file or with the arguments.

Some faults are not reported but end the program at once: a grammar that nests too deeply to be read
or to be linked, a path with characters that no path can hold, and nothing given where a rule name,
a path or the text for a literal is needed.
-/

namespace Peg.CommandLine

/-- Opens a path. -/
abbrev Files := Text → Except OpenError (List UInt8)

/-- Why the program ends without a report. -/
inductive Abort where
  /-- A path is none. -/
  | badPath (flaw : PathFlaw)
  /-- Nothing is given for the path of the input file. -/
  | noPath
  /-- The start rule cannot be looked up because of a part of the given type. -/
  | unkeyable (typeName : Text)
  /-- The grammar nests too deeply to be read or to be linked, or its tokens break off. -/
  | unreadable (e : Notation.ReadError)
  /-- The start rule is not found in the grammar. -/
  | noStartRule (e : LookupError)
  /-- A rule was cut off otherwise than for its depth. -/
  | halted (halt : Halt)
  /-- A literal was to be compared with nothing. -/
  | literalOnNothing

/-- The wording of the reason. -/
def Abort.message : Abort → Text
  | badPath flaw => flaw.message
  | noPath => "expected str, bytes or os.PathLike object, not list"
  | unkeyable typeName => (DefinitionError.unkeyable typeName).message
  | unreadable e => (SourceError.unreadable e).message
  | noStartRule e => e.message
  | halted halt => halt.message
  | literalOnNothing => "'list' object has no attribute 'startswith'"

/-- How the program ends. -/
inductive Ending where
  /-- With an exit code and the texts of both outputs. -/
  | exit (code : Nat) (output errors : Text)
  /-- With an explanation of the usage: it was asked for, or the arguments are wrong. -/
  | usage (stop : Stop)
  /-- At once. -/
  | abort (cause : Abort)

/-- Why a grammar or an input text cannot be had. -/
inductive Failure where
  /-- A file cannot be opened. -/
  | unopened (e : OpenError)
  /-- No file is named. -/
  | unnamed
  /-- The content of a file is no text or no grammar. -/
  | unsound (e : SourceError)

/-! ## Reports -/

/-- The lines of a text to be written. -/
def linesOf (lines : List Text) : Text := lines.flatMap Text.line

namespace Failure

/-- The lines that report a failure, or the reason to end at once. -/
def report : Failure → Except Abort (List Text)
  | unopened (.flawed flaw) => .error (.badPath flaw)
  | unnamed => .error .noPath
  | unopened (.refused path fault) => .ok [("[ERROR] " : Text) ++ fault.report path]
  | unsound (.undecodable e) => .ok [("[ERROR] UnicodeDecodeError " : Text) ++ e.message]
  | unsound (.unreadable (.flawed e)) => .ok ["[SYNTAX ERROR]", e.message]
  | unsound (.unreadable e) => .error (.unreadable e)
  | unsound (.undefined (.unkeyable typeName)) => .error (.unkeyable typeName)
  | unsound (.undefined e) => .ok [("[CONFIG ERROR] " : Text) ++ e.message]

/-- The end of a program that fails after the given lines. -/
def ending (f : Failure) (said : List Text) : Ending :=
  match f.report with
  | .ok lines => .exit 2 [] (linesOf (said ++ lines))
  | .error cause => .abort cause

end Failure

def readText (files : Files) (path : Text) : Except Failure Text := do
  let bytes ← (files path).mapError .unopened
  (Source.textOf bytes).mapError fun e ↦ .unsound (.undecodable e)

/-- The source of a grammar in a file. -/
def readSource (files : Files) (path : Text) : Except Failure Text := do
  let bytes ← (files path).mapError .unopened
  (Source.grammarTextOf bytes).mapError fun e ↦ .unsound (.undecodable e)

theorem readSource_eq_readText (files : Files) (path : Text) :
    readSource files path = readText files path := by
  simp only [readSource, readText, Source.grammarTextOf_eq_textOf]

/-- The lines of a report, given only if every step is to be reported. -/
def saidIf (debug : Bool) (lines : List Text) : List Text := if debug then lines else []

def truth (b : Bool) : Text := if b then "True" else "False"

def loadedLine (src : Text) : Text :=
  ("[DEBUG] grammar text loaded | chars=" : Text) ++ Text.ofNat src.length

/-- The size and the start rule of a grammar. -/
def summary (g : Grammar) : Text := ("rules=" : Text) ++ Text.ofNat g.size ++ " start=" ++ g.start

def linkedLine (g : Grammar) : Text := ("[DEBUG] grammar linked | " : Text) ++ summary g

def tooDeepLine : Text := "[ERROR] RecursionError input nests too deeply for this grammar"

/-! ## Commands -/

/-- Loads a grammar from a file, with the lines said on the way. -/
def load (frames : Nat) (files : Files) (path : Text) (start : Value) (debug : Bool) :
    List Text × Except Failure Grammar :=
  match readSource files (Path.normalize path) with
  | .error f => ([], .error f)
  | .ok src =>
      match Grammar.ofSource frames 0 src start with
      | .error e => (saidIf debug [loadedLine src], .error (.unsound e))
      | .ok g => (saidIf debug [loadedLine src, linkedLine g], .ok g)

/-- The name of the start rule, as a grammar is asked for it: none is given, a text, or nothing. -/
def startOf : Option Given → Value
  | none => .null
  | some (.text name) => .text name
  | some .nothing => .list []

/-- What is to be matched. -/
def inputText (files : Files) : InputText → Except Failure Given
  | .given g => .ok g
  | .file (.text path) => return .text (← readText files path)
  | .file .nothing => .error .unnamed

/-- The end of a check of a sound grammar. -/
def checked (g : Grammar) (debug : Bool) (said : List Text) : Ending :=
  let names := saidIf debug ([] :: "[RULES]" :: g.names.map (("  " : Text) ++ ·))
  .exit 0 (linesOf [("[CHECK OK] " : Text) ++ summary g]) (linesOf (said ++ names))

def matchingLine (g : Grammar) (text : Text) (all : Bool) : Text :=
  let chars := Text.ofNat text.length
  ("[DEBUG] rule=" : Text) ++ g.start ++ " all=" ++ truth all ++ " chars=" ++ chars

/-- The end of a match, with the value of the stretch that was consumed. -/
def reported (g : Grammar) (said : List Text) (value : Span → Text) :
    Except MatchError Span → Ending
  | .ok span =>
      let place := ("[MATCH] " : Text) ++ Text.ofNat span.start ++ ".." ++ Text.ofNat span.stop
      .exit 0 (linesOf [place, value span]) (linesOf said)
  | .error (.halted .outOfFrames) => .exit 2 [] (linesOf (said ++ [tooDeepLine]))
  | .error (.halted halt) => .abort (.halted halt)
  | .error _ => .exit 1 (linesOf [("[NO MATCH] rule=" : Text) ++ g.start]) (linesOf said)

/-- The end of matching what is given against the start rule of a grammar. The rule is looked up
before anything is said. -/
def matched (frames : Nat) (g : Grammar) (given : Given) (all debug : Bool) (said : List Text) :
    Ending :=
  match g.rule (.text g.start) with
  | .error e => .abort (.noStartRule e)
  | .ok r =>
      let said := said ++ saidIf debug [matchingLine g given.content all]
      match given with
      | .text t => reported g said Span.value ((if all then r.parseAll else r.parse) frames t)
      | .nothing =>
          match (if all then g.barLiterals.parseAll else g.barLiterals.parse) frames [] with
          | .error (.halted (.unresolved _)) => .abort .literalOnNothing
          | result => reported g said (fun _ ↦ "[]") result

/-! ## Requests -/

/-- The paths that a request may open. -/
def Request.paths : Request → List Text
  | .check path _ => [Path.normalize path]
  | .matching path _ _ (.file (.text input)) _ => [Path.normalize path, input]
  | .matching path _ _ _ _ => [Path.normalize path]

/-- Carries out a request. -/
def Request.run (frames : Nat) (files : Files) : Request → Ending
  | .check path debug =>
      match load frames files path .null debug with
      | (said, .error f) => f.ending said
      | (said, .ok g) => checked g debug said
  | .matching path rule all input debug =>
      match load frames files path (startOf rule) debug with
      | (said, .error f) => f.ending said
      | (said, .ok g) =>
          match inputText files input with
          | .error f => f.ending said
          | .ok given => matched frames g given all debug said

/-- Runs the program on its arguments. -/
def run (frames : Nat) (files : Files) (arguments : List Text) : Ending :=
  match Request.ofArguments arguments with
  | .error stop => .usage stop
  | .ok request => request.run frames files

end Peg.CommandLine
