import Peg.Unicode.DecimalDigit

/-!
# Options on a command line

Arguments are of three kinds. *Options* begin with a dash and are spelled as the program declares
them, or as an unambiguous beginning of a long spelling. A lone `--` is a *divider*: whatever
follows it is a plain *word*. So is any other argument that does not begin with a dash, the lone
dash, and, unless it is an option, an argument that reads as a negative number or holds a space. An
argument that begins with a dash and is none of these is an unknown option.

A value may be attached to an option, behind an `=` or right behind a short spelling. A short option
that takes no value shares its dash: what is attached to it are further short options, so `-ab` and
`-a=b` are both `-a` and `-b`. A divider attached as a value is dropped, and its option is given
nothing.

All arguments are sorted before any takes effect, so an ambiguous one is refused even behind a
request for help. Then they take effect from left to right, those of one argument only if none of
them is misused.
-/

namespace Peg.CommandLine

/-- The options that a program declares. -/
structure Declaration (Flag : Type) where
  /-- The spellings of the options, dashes included. -/
  spellings : List (Text × Flag)
  /-- Whether an option takes a value. -/
  takesValue : Flag → Bool

/-- What an option is given for its value. -/
inductive Given where
  /-- A text. -/
  | text (t : Text)
  /-- Nothing. -/
  | nothing

namespace Given

/-- What is given by an argument; a divider gives nothing. -/
def ofArgument (t : Text) : Given := if t = "--" then .nothing else .text t

/-- The characters that are given. -/
def content : Given → Text
  | text t => t
  | nothing => []

end Given

/-- An argument by its kind. -/
inductive Argument (Flag : Type) where
  /-- A plain word. -/
  | word (t : Text)
  /-- The divider. -/
  | divider
  /-- An option, whether its spelling is a short one, and the text attached to it, if any. -/
  | option (flag : Flag) (short : Bool) (attached : Option Text)
  /-- An option that is not declared. -/
  | unknown

/-- What takes effect on a command line, one after the other. -/
inductive Effect (Flag : Type) where
  /-- A word is given. -/
  | word (t : Text)
  /-- The divider is passed. -/
  | divider
  /-- An option is set. One that takes no value is given nothing. -/
  | set (flag : Flag) (value : Given)
  /-- Something is left over that nobody asked for. -/
  | surplus
  /-- An option is misused: its value is missing, or what is attached to it is neither a value that
  it takes nor another option. -/
  | misuse

/-! ## Texts of arguments -/

/-- The two parts of a text around its first `=`. -/
def splitAtEquals : Text → Option (Text × Text)
  | [] => none
  | c :: rest =>
      if c = '=' then some ([], rest)
      else (splitAtEquals rest).map fun (name, value) ↦ (c :: name, value)

def withoutFinalNewline (t : Text) : Text :=
  if t.getLast? = some ('\n' : CodePoint) then t.dropLast else t

/-- Whether a text reads as a negative number: a dash and digits, possibly with a point before the
last ones. -/
def isNegativeNumber (t : Text) : Bool :=
  match withoutFinalNewline t with
  | [] => false
  | dash :: rest =>
      dash = '-' &&
        match rest.dropWhile (·.isDecimalDigit) with
        | [] => !rest.isEmpty
        | point :: decimals =>
            point = '.' && !decimals.isEmpty && decimals.all (·.isDecimalDigit)

/-- Whether a spelling is a short one: a single dash and a character. -/
def isShort (spelling : Text) : Bool := spelling[1]? ≠ some ('-' : CodePoint)

namespace Declaration

variable {Flag : Type}

/-! ### Sorting arguments -/

/-- The option with exactly the given spelling. -/
def lookup? (d : Declaration Flag) (spelling : Text) : Option Flag := d.spellings.lookup spelling

/-- The options that an argument beginning with a dash may abbreviate, none of which it spells in
full. -/
def candidates (d : Declaration Flag) (t : Text) : List (Argument Flag) :=
  if isShort t then
    d.spellings.filterMap fun (spelling, flag) ↦
      if spelling = t.take 2 then some (.option flag true (some (t.drop 2))) else none
  else
    let (name, attached) :=
      match splitAtEquals t with
      | some (name, value) => (name, some value)
      | none => (t, none)
    d.spellings.filterMap fun (spelling, flag) ↦
      if name.isPrefixOf spelling then some (.option flag false attached) else none

/-- The option that an argument spells in full, with or without a text behind an `=`. -/
def spelled? (d : Declaration Flag) (t : Text) : Option (Argument Flag) :=
  match d.lookup? t with
  | some flag => some (.option flag (isShort t) none)
  | none =>
      match splitAtEquals t with
      | none => none
      | some (name, value) =>
          (d.lookup? name).map fun flag ↦ .option flag (isShort name) (some value)

/-- The kind of an argument other than the divider; `none` if it may abbreviate several options. -/
def sort? (d : Declaration Flag) (t : Text) : Option (Argument Flag) :=
  if t.head? ≠ some ('-' : CodePoint) then some (.word t)
  else if t = "-" then some (.word t)
  else
    match d.spelled? t with
    | some a => some a
    | none =>
        match d.candidates t with
        | [a] => some a
        | _ :: _ :: _ => none
        | [] => some (if isNegativeNumber t || t.contains ' ' then .word t else .unknown)

/-- The kinds of all arguments; `none` if one of them may abbreviate several options. -/
def sortAll? (d : Declaration Flag) : List Text → Option (List (Argument Flag))
  | [] => some []
  | t :: rest =>
      if t = "--" then some (.divider :: rest.map .word)
      else do return (← d.sort? t) :: (← d.sortAll? rest)

/-! ### Taking effect -/

/-- The effects of an option alone, and the option itself if it still needs a value. -/
def alone (d : Declaration Flag) (flag : Flag) : List (Effect Flag) × Option Flag :=
  if d.takesValue flag then ([], some flag) else ([.set flag .nothing], none)

/-- The effects of a short option and of the text attached to it, which is its value or holds the
characters of further short options, and the last of these if it still needs a value. Without a
result one of them is misused. -/
def cluster? (d : Declaration Flag) (flag : Flag) : Text → Option (List (Effect Flag) × Option Flag)
  | [] => if d.takesValue flag then some ([.set flag (.ofArgument [])], none) else none
  | c :: more =>
      if d.takesValue flag then some ([.set flag (.ofArgument (c :: more))], none)
      else
        match d.lookup? ['-', c] with
        | none => none
        | some next =>
            (if more.isEmpty then some (d.alone next) else d.cluster? next more).map
              fun (effects, last) ↦ (.set flag .nothing :: effects, last)

/-- The effects of one option, and the option itself if it still needs a value. -/
def optionEffects? (d : Declaration Flag) (flag : Flag) (short : Bool) :
    Option Text → Option (List (Effect Flag) × Option Flag)
  | none => some (d.alone flag)
  | some attached =>
      if short then d.cluster? flag attached
      else if d.takesValue flag then some ([.set flag (.ofArgument attached)], none)
      else none

/-- The effects of arguments. An option that needs a value takes the word after it. -/
def effects (d : Declaration Flag) : List (Argument Flag) → List (Effect Flag)
  | [] => []
  | .word t :: rest => .word t :: d.effects rest
  | .divider :: rest => .divider :: d.effects rest
  | .unknown :: rest => .surplus :: d.effects rest
  | .option flag short attached :: rest =>
      match d.optionEffects? flag short attached, rest with
      | none, _ => [.misuse]
      | some (set, none), rest => set ++ d.effects rest
      | some (set, some last), .word value :: rest =>
          set ++ .set last (.ofArgument value) :: d.effects rest
      | some (_, some _), _ => [.misuse]

end Declaration

end Peg.CommandLine
