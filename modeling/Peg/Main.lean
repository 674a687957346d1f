import Peg.CommandLine.Run

/-!
# The executable

Reads the files that the arguments ask for, runs the program on them, and writes its outputs.
-/

namespace Peg.Main

open CommandLine

/-- What the program says about its usage. -/
def usageText : String :=
  "usage: peg check FILE [-D]\n" ++
    "       peg match FILE (--text TEXT | --input FILE) [--rule NAME] [--all] [-D]\n"

/-- The fault that an error of the operating system stands for. A path that leads through a file
fails to open, and so its error names the path; a directory opens and fails to be read. -/
def faultOf : IO.Error → FileFault
  | .inappropriateType (some _) _ _ => .notADirectory
  | .inappropriateType none _ _ => .isDirectory
  | .invalidArgument _ _ _ => .nameTooLong
  | .permissionDenied _ _ _ => .notPermitted
  | _ => .notFound

/-- The content of the file that a path leads to. -/
def readFile (path : Text) : IO (Except OpenError (List UInt8)) := do
  if let some flaw := Path.flaw? path then
    return .error (.flawed flaw)
  try
    return .ok (← IO.FS.readBinFile path.toString).toList
  catch e =>
    return .error (.refused path (faultOf e))

/-- Writes what an ending has to say and gives its exit code. -/
def finish : Ending → IO UInt32
  | .exit code output errors => do
      IO.eprint errors.toString
      IO.print output.toString
      return UInt32.ofNat code
  | .usage .help => do
      IO.print usageText
      return 0
  | .usage .usage => do
      IO.eprint usageText
      return 2
  | .abort cause => do
      IO.eprintln cause.message.toString
      return 1

end Peg.Main

open Peg Peg.CommandLine in
/-- Runs the program on the arguments of the process. -/
def main (arguments : List String) : IO UInt32 := do
  match Request.ofArguments (arguments.map Text.ofString) with
  | .error stop => Peg.Main.finish (.usage stop)
  | .ok request =>
      let contents ← request.paths.mapM fun path ↦ do return (path, ← Peg.Main.readFile path)
      let files : Files := fun path ↦ (contents.lookup path).getD (.error (.refused path .notFound))
      Peg.Main.finish (request.run frameLimit files)
