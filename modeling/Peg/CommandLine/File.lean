import Peg.Source.Utf8
import Peg.Text.Quoted

/-!
# Files

The paths of files, what can go wrong when one is opened, and directories of files held in memory.
-/

namespace Peg.CommandLine

/-- Why the operating system does not open a file. -/
inductive FileFault where
  /-- There is no such file. -/
  | notFound
  /-- The path leads to a directory. -/
  | isDirectory
  /-- The path leads through a file. -/
  | notADirectory
  /-- The path or one of its parts is too long. -/
  | nameTooLong
  /-- The file is not for the reader to see. -/
  | notPermitted
deriving DecidableEq

namespace FileFault

/-- The name of the fault in reports. -/
def name : FileFault → Text
  | notFound => "FileNotFoundError"
  | isDirectory => "IsADirectoryError"
  | notADirectory => "NotADirectoryError"
  | nameTooLong => "OSError"
  | notPermitted => "PermissionError"

/-- The number of the fault. -/
def number : FileFault → Nat
  | notFound => 2
  | isDirectory => 21
  | notADirectory => 20
  | nameTooLong => 36
  | notPermitted => 13

/-- The wording of the fault. -/
def message : FileFault → Text
  | notFound => "No such file or directory"
  | isDirectory => "Is a directory"
  | notADirectory => "Not a directory"
  | nameTooLong => "File name too long"
  | notPermitted => "Permission denied"

end FileFault

/-- How a refused path is reported. -/
def FileFault.report (fault : FileFault) (path : Text) : Text :=
  let number := Text.ofNat fault.number
  fault.name ++ " [Errno " ++ number ++ "] " ++ fault.message ++ ": " ++ path.quoted

/-- Why a text is no path. -/
inductive PathFlaw where
  /-- It holds the null character. -/
  | null
  /-- It holds surrogates from one offset up to another, the first of which stands for no byte. -/
  | surrogates (first : CodePoint) (start stop : Nat)
deriving DecidableEq

/-- The wording of the flaw. -/
def PathFlaw.message : PathFlaw → Text
  | null => "embedded null byte"
  | surrogates first start stop =>
      let place : Text :=
        if stop = start + 1 then
          ("character " : Text) ++ Text.quoted [first] ++ " in position " ++ Text.ofNat start
        else
          ("characters in position " : Text) ++ Text.ofNat start ++ "-" ++ Text.ofNat (stop - 1)
      ("'utf-8' codec can't encode " : Text) ++ place ++ ": surrogates not allowed"

/-- Why a path cannot be opened. -/
inductive OpenError where
  /-- It is no path. -/
  | flawed (flaw : PathFlaw)
  /-- The operating system refuses. -/
  | refused (path : Text) (fault : FileFault)

/-! ## Paths -/

namespace Path

/-- Whether a surrogate stands for a single byte of a path, one that is no UTF-8. -/
def isRawByte (c : CodePoint) : Bool := 0xDC80 ≤ c.val && c.val ≤ 0xDCFF

/-- The flaw of a text that is no path. A null character counts only if all else is in order. -/
def flaw? (path : Text) : Option PathFlaw :=
  let isSound (c : CodePoint) : Bool := !c.isSurrogate || isRawByte c
  match path.dropWhile isSound with
  | [] => if path.contains '\x00' then some .null else none
  | c :: rest =>
      let start := (path.takeWhile isSound).length
      some (.surrogates c start (start + 1 + (rest.takeWhile (·.isSurrogate)).length))

def byteSize (path : Text) : Nat :=
  path.foldr (fun c n ↦ (if isRawByte c then 1 else c.utf8Size) + n) 0

/-- The parts of a path between its slashes. -/
def parts : Text → List Text
  | [] => [[]]
  | c :: rest =>
      if c = '/' then [] :: parts rest
      else
        match parts rest with
        | [] => [[c]]
        | part :: more => (c :: part) :: more

/-- Whether a part of a path means the directory that it is in. -/
def isHere (part : Text) : Bool := part.isEmpty || part = "."

def join : List Text → Text
  | [] => []
  | [part] => part
  | part :: more => part ++ "/" ++ join more

/-- The root of a path: nothing if the path is relative, two slashes if it begins with exactly two,
and one slash otherwise. -/
def root (path : Text) : Text :=
  match (path.takeWhile fun c : CodePoint ↦ c = '/').length with
  | 0 => []
  | 2 => "//"
  | _ => "/"

/-- The path without the parts that mean the directory they are in; the path that is left empty
means that directory too. -/
def normalize (path : Text) : Text :=
  match root path ++ join ((parts path).filter (!isHere ·)) with
  | [] => "."
  | normal => normal

end Path

/-! ## Directories in memory -/

abbrev Directory := List (Text × List UInt8)

namespace Directory

/-- Follows the parts of a path from the directory, or from one outside of it, of which nothing is
known. -/
def follow (d : Directory) (inside : Bool) : List Text → Except FileFault (List UInt8)
  | [] => .error .isDirectory
  | part :: more =>
      if Path.isHere part then d.follow inside more
      else if part = ".." then d.follow false more
      else if 255 < Path.byteSize part then .error .nameTooLong
      else
        match inside, d.lookup part with
        | true, some content => if more.isEmpty then .ok content else .error .notADirectory
        | _, _ => .error .notFound

/-- The content of the file that a path leads to. -/
def open? (d : Directory) (path : Text) : Except OpenError (List UInt8) :=
  match Path.flaw? path with
  | some flaw => .error (.flawed flaw)
  | none =>
      if path.isEmpty then .error (.refused path .notFound)
      else if 4096 ≤ Path.byteSize path then .error (.refused path .nameTooLong)
      else
        let inside := path.head? ≠ some ('/' : CodePoint)
        (d.follow inside (Path.parts path)).mapError (.refused path)

end Directory

end Peg.CommandLine
