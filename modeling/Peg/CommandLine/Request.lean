import Peg.CommandLine.Options

/-!
# Requests

What the command line asks for: to check a grammar file, or to match a text against a rule of one.
The name of the command is the first word, and the words and options after it belong to the command.
Each command takes exactly one file; to match takes exactly one of a text and an input file.
-/

namespace Peg.CommandLine

/-- The options of the program. -/
inductive Flag where
  /-- Explain the usage. -/
  | help
  /-- Report every step. -/
  | debug
  /-- The rule to run. -/
  | rule
  /-- Require the whole text to match. -/
  | all
  /-- The text to match. -/
  | text
  /-- The file that holds the text to match. -/
  | input
deriving DecidableEq

def programOptions : Declaration Flag where
  spellings := [("-h", .help), ("--help", .help)]
  takesValue _ := false

def checkOptions : Declaration Flag where
  spellings := [("-h", .help), ("--help", .help), ("-D", .debug), ("--debug", .debug)]
  takesValue _ := false

/-- The options of the command that matches a text. -/
def matchOptions : Declaration Flag where
  spellings :=
    [("-h", .help), ("--help", .help), ("--rule", .rule), ("--all", .all), ("--text", .text),
      ("--input", .input), ("-D", .debug), ("--debug", .debug)]
  takesValue
    | .rule | .text | .input => true
    | .help | .debug | .all => false

/-- Why the arguments make no request. -/
inductive Stop where
  /-- The usage is asked for. -/
  | help
  /-- The arguments are not understood. -/
  | usage
deriving DecidableEq

/-- The state of an argument list that is being read. -/
structure Settings where
  /-- The grammar file. -/
  file : Option Text
  /-- Whether the grammar file is what was read last. -/
  atFile : Bool
  /-- Whether something is left over that nobody asked for. -/
  surplus : Bool
  /-- Whether every step is to be reported. -/
  debug : Bool
  /-- Whether the whole text has to match. -/
  all : Bool
  /-- The rule to run. -/
  rule : Option Given
  /-- The text to match. -/
  text : Option Given
  /-- The file that holds the text to match. -/
  input : Option Given

namespace Settings

/-- Nothing is read yet. -/
def initial : Settings := ⟨none, false, false, false, false, none, none, none⟩

/-- The settings after an option. Of an option given more than once the last one counts, but a text
and an input file exclude each other. -/
def set (s : Settings) (flag : Flag) (value : Given) : Except Stop Settings :=
  match flag with
  | .help => .error .help
  | .debug => .ok { s with debug := true }
  | .all => .ok { s with all := true }
  | .rule => .ok { s with rule := some value }
  | .text => if s.input.isSome then .error .usage else .ok { s with text := some value }
  | .input => if s.text.isSome then .error .usage else .ok { s with input := some value }

/-- The settings after one more effect. The first word is the grammar file, and a divider may stand
only right before or right after it. -/
def apply (s : Settings) : Effect Flag → Except Stop Settings
  | .word t =>
      .ok (if s.file.isNone then { s with file := some t, atFile := true }
        else { s with surplus := true, atFile := false })
  | .divider => .ok { s with surplus := s.surplus || s.file.isSome && !s.atFile, atFile := false }
  | .surplus => .ok { s with surplus := true, atFile := false }
  | .misuse => .error .usage
  | .set flag value => { s with atFile := false }.set flag value

/-- The settings after all arguments of a command. -/
def ofArguments (options : Declaration Flag) (arguments : List Text) : Except Stop Settings :=
  match options.sortAll? arguments with
  | none => .error .usage
  | some sorted => (options.effects sorted).foldlM apply initial

end Settings

/-- Where the text to match comes from. -/
inductive InputText where
  /-- It is given on the command line. -/
  | given (text : Given)
  /-- It is in a file. -/
  | file (path : Given)

/-- What the command line asks for. -/
inductive Request where
  /-- To load a grammar and say what it consists of. -/
  | check (file : Text) (debug : Bool)
  /-- To match a text, or all of it, against a rule of a grammar. -/
  | matching (file : Text) (rule : Option Given) (all : Bool) (input : InputText) (debug : Bool)

namespace Request

def ofCheck (s : Settings) : Except Stop Request :=
  match s.surplus, s.file with
  | false, some file => .ok (.check file s.debug)
  | _, _ => .error .usage

def ofMatch (s : Settings) : Except Stop Request :=
  match s.surplus, s.file, s.text, s.input with
  | false, some file, some text, _ => .ok (.matching file s.rule s.all (.given text) s.debug)
  | false, some file, none, some input => .ok (.matching file s.rule s.all (.file input) s.debug)
  | _, _, _, _ => .error .usage

/-- The request of a command with its arguments. -/
def ofCommand (name : Text) (arguments : List Text) : Except Stop Request :=
  if name = "check" then do ofCheck (← Settings.ofArguments checkOptions arguments)
  else if name = "match" then do ofMatch (← Settings.ofArguments matchOptions arguments)
  else .error .usage

/-- The request of a command line. An unknown option before the command spoils the request only
after the command's own arguments are read. -/
def ofArguments : List Text → Except Stop Request
  | [] => .error .usage
  | t :: rest =>
      if t = "--" then .error .usage
      else
        match programOptions.sort? t with
        | some (.word name) => ofCommand name rest
        | some .unknown => do
            let _ ← ofArguments rest
            .error .usage
        | some (.option flag short attached) =>
            match programOptions.optionEffects? flag short attached with
            | some _ => .error .help
            | none => .error .usage
        | _ => .error .usage

end Request

end Peg.CommandLine
