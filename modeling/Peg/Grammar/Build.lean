import Peg.Rule.Build

/-!
# Building grammars

A grammar is built from a table of named rules. Every reference inside the rules is linked to the
slot of the rule it names, whether that rule stands earlier, later or is the one that holds the
reference; a reference that carries a slot already gets a new one. Rules bound to other grammars
stay as they are. So a grammar can be used inside another one and its names never leak.

Linking is recursive. `Rule.linkWithin` and `Grammar.buildWithin` do it with a number of frames, and
can run out of them; `Rule.link` and `Grammar.build` say what comes out if the frames suffice.
-/

namespace Peg

/-- Why a rule is not linked with a number of frames, or a grammar not built. -/
inductive BuildError where
  /-- The rules nest deeper than there are frames. -/
  | outOfFrames
  /-- The rules make no grammar. -/
  | undefined (e : DefinitionError)

/-! ## Linking -/

namespace Rule

mutual

/-- The rule with every reference linked to the slot that `slotOf` gives its name, however deeply it
nests. -/
def link (slotOf : Text → Option Nat) : Rule → Except DefinitionError Rule
  | reference name _ =>
      match slotOf name with
      | some slot => .ok (.reference name (some slot))
      | none => .error (.undefinedReference name)
  | repeated inner quantifier => return .repeated (← link slotOf inner) quantifier
  | followedBy inner => return .followedBy (← link slotOf inner)
  | notFollowedBy inner => return .notFollowedBy (← link slotOf inner)
  | sequence items => return .sequence (← linkAll slotOf items)
  | choice alternatives => return .choice (← linkAll slotOf alternatives)
  | literal t => .ok (.literal t)
  | charRange ranges => .ok (.charRange ranges)
  | anyChar => .ok .anyChar
  | bound grammar slot => .ok (.bound grammar slot)

def linkAll (slotOf : Text → Option Nat) : List Rule → Except DefinitionError (List Rule)
  | [] => .ok []
  | r :: rest => return (← link slotOf r) :: (← linkAll slotOf rest)

end

section Steps

variable (slotOf : Text → Option Nat)

theorem link_reference (name : Text) (slot : Option Int) :
    (reference name slot).link slotOf =
      match slotOf name with
      | some slot => .ok (.reference name (some slot))
      | none => .error (.undefinedReference name) := rfl

theorem link_repeated (inner : Rule) (quantifier : Quantifier) :
    (repeated inner quantifier).link slotOf =
      return .repeated (← inner.link slotOf) quantifier := rfl

theorem link_followedBy (inner : Rule) :
    (followedBy inner).link slotOf = return .followedBy (← inner.link slotOf) := rfl

theorem link_notFollowedBy (inner : Rule) :
    (notFollowedBy inner).link slotOf = return .notFollowedBy (← inner.link slotOf) := rfl

theorem link_sequence (items : List Rule) :
    (sequence items).link slotOf = return .sequence (← linkAll slotOf items) := rfl

theorem link_choice (alternatives : List Rule) :
    (choice alternatives).link slotOf = return .choice (← linkAll slotOf alternatives) := rfl

theorem linkAll_cons (r : Rule) (rest : List Rule) :
    linkAll slotOf (r :: rest) = return (← r.link slotOf) :: (← linkAll slotOf rest) := rfl

end Steps

mutual

/-- Links a rule with a number of frames. Each nested rule takes one of them, and to go through the
parts of a sequence or of a choice takes one more. -/
def linkWithin (slotOf : Text → Option Nat) : Nat → Rule → Except BuildError Rule
  | 0, _ => .error .outOfFrames
  | frames + 1, rule =>
      match rule with
      | repeated inner quantifier =>
          return .repeated (← linkWithin slotOf frames inner) quantifier
      | followedBy inner => return .followedBy (← linkWithin slotOf frames inner)
      | notFollowedBy inner => return .notFollowedBy (← linkWithin slotOf frames inner)
      | sequence items => return .sequence (← linkAllWithin slotOf frames items)
      | choice alternatives => return .choice (← linkAllWithin slotOf frames alternatives)
      -- A rule without parts needs no more frames.
      | rule => (rule.link slotOf).mapError .undefined

/-- Links the rules of a list from left to right, inside one frame. -/
def linkAllWithin (slotOf : Text → Option Nat) : Nat → List Rule → Except BuildError (List Rule)
  | 0, _ => .error .outOfFrames
  | frames + 1, rules => rules.mapM (linkWithin slotOf frames)

end

end Rule

/-! ## Tables -/

/-- Named rules in order, as they are given to a grammar. -/
abbrev Table := List (Value × Operand)

namespace Table

/-- The table with a rule set: a name that is there already keeps its place and takes the new rule.
-/
def set (name : Text) (o : Operand) : Table → Table
  | [] => [(.text name, o)]
  | (.text n, old) :: rest =>
      if n = name then (.text n, o) :: rest else (.text n, old) :: set name o rest
  | entry :: rest => entry :: set name o rest

/-- The table with one more entry, which must have a key for its name. -/
def insert (table : Table) : Value × Operand → Except DefinitionError Table
  | (.text name, o) => .ok (table.set name o)
  | (name, o) =>
      match name.unkeyable? with
      | some typeName => .error (.unkeyable typeName)
      | none => .ok (table ++ [(name, o)])

/-- The table of the given entries, later ones replacing earlier ones of the same name. -/
def ofList (entries : List (Value × Operand)) : Except DefinitionError Table :=
  entries.foldlM insert []

end Table

/-! ## Grammars -/

namespace Grammar

/-- The name of a rule: a text that is not empty. -/
def ruleName : Value → Except DefinitionError Text
  | .text (c :: rest) => .ok (c :: rest)
  | v => .error (.badRuleName v)

/-- The name of the start rule: the first rule unless another one is asked for. -/
def startName (names : List Text) : Value → Except DefinitionError Text
  | .null => .ok (names.headD [])
  | .text name =>
      if names.contains name then .ok name else .error (.undefinedStart (.text name))
  | v =>
      match v.unkeyable? with
      | some typeName => .error (.unkeyable typeName)
      | none => .error (.undefinedStart v)

/-- The grammar of a table, however deeply its rules nest. It fails with the first of these: the
table is empty; a name is no name; the start rule is not defined; a rule, in table order, is no rule
or holds a reference to a rule that is not defined. -/
def build (id : Nat) (table : Table) (start : Value) : Except DefinitionError Grammar := do
  if table.isEmpty then
    throw .noRules
  let names ← table.mapM fun entry ↦ ruleName entry.1
  let start ← startName names start
  let rules ← table.mapM fun entry ↦ do (← entry.2.toRule).link names.idxOf?
  return { id, names, rules, start }

/-- The grammar of a table, if each of its rules can be linked with a number of frames. The frames
can run out only where everything is in order up to that rule. -/
def buildWithin (frames id : Nat) (table : Table) (start : Value) : Except BuildError Grammar := do
  if table.isEmpty then
    throw (.undefined .noRules)
  let names ← (table.mapM fun entry ↦ ruleName entry.1).mapError .undefined
  let start ← (startName names start).mapError .undefined
  let rules ← table.mapM fun entry ↦ do
    (← entry.2.toRule.mapError .undefined).linkWithin names.idxOf? frames
  return { id, names, rules, start }

end Grammar

end Peg
