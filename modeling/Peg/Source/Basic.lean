import Peg.Grammar.Build
import Peg.Notation.Reader
import Peg.Source.Newline
import Peg.Source.Utf8

/-!
# Grammars from sources

The source of a grammar is a text in the notation, or a file that holds such a text in UTF-8 with
any line ends. All of it is cut into tokens before anything is read, and all of it is read before
anything is linked. Reading and linking nest as deeply as the source does, and each of them has the
same number of frames to do so.
-/

namespace Peg

/-- Why a source gives no grammar. -/
inductive SourceError where
  /-- The file is not UTF-8. -/
  | undecodable (e : Source.Utf8Error)
  /-- The source is flawed, it nests too deeply to be read or to be linked, or it breaks off. -/
  | unreadable (e : Notation.ReadError)
  /-- The rules make no grammar. -/
  | undefined (e : DefinitionError)

/-- The wording of the error; nesting too deeply has none. -/
def SourceError.message : SourceError → Text
  | undecodable e => e.message
  | unreadable (.flawed e) => e.message
  | unreadable _ => ""
  | undefined e => e.message

/-- What it means for a source that its rules make no grammar. -/
def SourceError.ofBuild : BuildError → SourceError
  | .outOfFrames => .unreadable .outOfFrames
  | .undefined e => .undefined e

namespace Source

def textOf (bytes : List UInt8) : Except Utf8Error Text := return unifyNewlines (← decode bytes)

/-- The text of a file that holds the source of a grammar. -/
def grammarTextOf (bytes : List UInt8) : Except Utf8Error Text :=
  return withLineFeeds (← textOf bytes)

/-- The source of a grammar is the text of the file, as that has no line ends to replace. -/
theorem grammarTextOf_eq_textOf (bytes : List UInt8) : grammarTextOf bytes = textOf bytes := by
  rw [grammarTextOf, textOf]
  rcases decode bytes with e | t
  · rfl
  · exact congrArg Except.ok (withLineFeeds_unifyNewlines t)

def rulesOf (frames : Nat) (src : Text) : Except Notation.ReadError (List (Text × Rule)) := do
  Notation.readRules frames (← (Notation.tokenize src).mapError .flawed)

end Source

namespace Grammar

/-- The table of rules that are there already. -/
def tableOf (rules : List (Text × Rule)) : Table :=
  rules.map fun (name, r) ↦ (.text name, .rule r)

/-- The grammar of a text in the notation. -/
def ofSource (frames id : Nat) (src : Text) (start : Value) : Except SourceError Grammar := do
  let rules ← (Source.rulesOf frames src).mapError .unreadable
  (buildWithin frames id (tableOf rules) start).mapError .ofBuild

def ofFile (frames id : Nat) (bytes : List UInt8) (start : Value) : Except SourceError Grammar := do
  ofSource frames id (← (Source.grammarTextOf bytes).mapError .undecodable) start

end Grammar

end Peg
