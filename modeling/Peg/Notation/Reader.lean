import Peg.Notation.Spelling
import Peg.Notation.Token

/-!
# Reading rules from tokens

The notation of a grammar, over tokens:

* a grammar is a row of rules, at least one, of different names;
* a rule is an identifier, an arrow and an expression;
* an expression is one or more sequences with `/` between them;
* a sequence is any number of items; it goes on to the next `/` or `)`, the next rule or the end;
* an item is a suffixed primary with at most one of `&` and `!` before it;
* a suffixed primary has at most one of `?`, `*` and `+` after it;
* a primary is an identifier, a literal, a class, `.`, or an expression in parentheses.

An expression of one sequence and a sequence of one item stand for that part itself. Reading is
recursive descent with one token of lookahead. Each nested reader takes one frame of a given number,
five for a pair of parentheses; the loops over rules, sequences and items take none.
-/

namespace Peg.Notation

namespace Token

/-- Whether the token is one of the given operators. -/
def isOneOf (t : Token) (operators : Text) : Bool :=
  t.kind = .operator && operators.any (t.text = [·])

/-- What stands between the delimiters of a literal or a class. -/
def body (t : Token) : Text := (t.text.drop 1).dropLast

end Token

/-- Why reading tokens stopped. -/
inductive ReadError where
  /-- The tokens are no grammar. -/
  | flawed (e : Error)
  /-- The parentheses nest deeper than there are frames. -/
  | outOfFrames
  /-- The tokens ended without an ending. -/
  | outOfTokens
deriving DecidableEq

/-- Reads something off the front of the tokens and gives what is left of them. -/
abbrev Reader (α : Type) := List Token → Except ReadError (α × List Token)

def flawAt {α : Type} (offset : Nat) (flaw : Flaw) : Except ReadError α :=
  .error (.flawed ⟨offset, flaw⟩)

/-! ## Single tokens -/

/-- Whether the tokens begin with the head of a rule. -/
def atRuleHead : List Token → Except ReadError Bool
  | [] => .error .outOfTokens
  | t :: rest =>
      if t.kind = .identifier then
        match rest with
        | [] => .error .outOfTokens
        | next :: _ => .ok (next.kind = .arrow)
      else .ok false

/-- Whether a sequence ends before the first token. -/
def atSequenceEnd : List Token → Except ReadError Bool
  | [] => .error .outOfTokens
  | t :: rest =>
      if t.kind = .ending ∨ t.isOneOf ")/" then .ok true else atRuleHead (t :: rest)

def expect (kind : TokenKind) (flaw : Flaw) : Reader Token
  | [] => .error .outOfTokens
  | t :: rest => if t.kind = kind then .ok (t, rest) else flawAt t.offset flaw

def expectClose : Reader Unit
  | [] => .error .outOfTokens
  | t :: rest => if t.isOneOf ")" then .ok ((), rest) else flawAt t.offset .expectedClose

/-- Takes the first token if it is one of the given operators. -/
def takeOneOf (operators : Text) : Reader (Option Text)
  | [] => .error .outOfTokens
  | t :: rest => if t.isOneOf operators then .ok (some t.text, rest) else .ok (none, t :: rest)

/-! ## Rules of single tokens -/

def spelledIn (body : Text) (offset : Nat) : Except ReadError (List Spelled) :=
  (spelledChars offset body).mapError .flawed

def literalRule (t : Token) : Except ReadError Rule := do
  let chars ← spelledIn t.body (t.offset + 1)
  return .literal (chars.map (·.char))

/-- The rule of a class with the given members. A class without members matches nothing. -/
def classRule (members : List Spelled) : Rule :=
  match rangesOf members with
  | [] => .choice []
  | ranges => .charRange ranges

/-- The rule of a class that excludes the given members. -/
def complementRule (members : List Spelled) : Rule :=
  .sequence [.notFollowedBy (.charRange (rangesOf members)), .anyChar]

/-- The rule of a class token; a `^` right after the bracket excludes the members that follow. -/
def charClassRule (t : Token) : Except ReadError Rule :=
  if t.body.head? = some ('^' : CodePoint) then
    return complementRule (← spelledIn (t.body.drop 1) (t.offset + 2))
  else
    return classRule (← spelledIn t.body (t.offset + 1))

/-! ## Expressions -/

/-- The rule of several parts: one part stands for itself, more or none for their combination. -/
def combined (combine : List Rule → Rule) : List Rule → Rule
  | [r] => r
  | rs => combine rs

/-- Reads items until the sequence ends. The first argument bounds their number. -/
def itemsWith (item : Reader Rule) : Nat → Reader (List Rule)
  | 0, _ => .error .outOfTokens
  | count + 1, tokens => do
      if ← atSequenceEnd tokens then
        return ([], tokens)
      else
        let (r, tokens) ← item tokens
        let (rs, tokens) ← itemsWith item count tokens
        return (r :: rs, tokens)

/-- Reads sequences for as long as a `/` comes first. The first argument bounds their number. -/
def alternativesWith (sequence : Reader Rule) : Nat → Reader (List Rule)
  | 0, _ => .error .outOfTokens
  | count + 1, tokens => do
      match ← takeOneOf "/" tokens with
      | (none, tokens) => return ([], tokens)
      | (some _, tokens) =>
          let (r, tokens) ← sequence tokens
          let (rs, tokens) ← alternativesWith sequence count tokens
          return (r :: rs, tokens)

mutual

/-- Reads an expression. -/
def expression : Nat → Reader Rule
  | 0, _ => .error .outOfFrames
  | frames + 1, tokens => do
      let (r, tokens) ← sequence frames tokens
      let (rs, tokens) ← alternativesWith (sequence frames) tokens.length tokens
      return (combined .choice (r :: rs), tokens)

def sequence : Nat → Reader Rule
  | 0, _ => .error .outOfFrames
  | frames + 1, tokens => do
      let (rs, tokens) ← itemsWith (item frames) tokens.length tokens
      return (combined .sequence rs, tokens)

/-- Reads an item. -/
def item : Nat → Reader Rule
  | 0, _ => .error .outOfFrames
  | frames + 1, tokens => do
      match ← takeOneOf "&!" tokens with
      | (none, tokens) => suffixed frames tokens
      | (some operator, tokens) =>
          let (r, tokens) ← suffixed frames tokens
          return (if operator = "&" then .followedBy r else .notFollowedBy r, tokens)

/-- Reads a suffixed primary. -/
def suffixed : Nat → Reader Rule
  | 0, _ => .error .outOfFrames
  | frames + 1, tokens => do
      let (r, tokens) ← primary frames tokens
      match ← takeOneOf "?*+" tokens with
      | (none, tokens) => return (r, tokens)
      | (some operator, tokens) => return (.repeated r (.ofSymbol operator), tokens)

/-- Reads a primary. -/
def primary : Nat → Reader Rule
  | 0, _ => .error .outOfFrames
  | _, [] => .error .outOfTokens
  | frames + 1, t :: rest =>
      match t.kind with
      | .identifier => .ok (.reference t.text none, rest)
      | .literal => do return (← literalRule t, rest)
      | .charClass => do return (← charClassRule t, rest)
      | .operator =>
          if t.text = "." then .ok (.anyChar, rest)
          else if t.text = "(" then do
            let (r, rest) ← expression frames rest
            let (_, rest) ← expectClose rest
            return (r, rest)
          else flawAt t.offset (.unexpectedToken t.text)
      | .arrow => flawAt t.offset (.unexpectedToken t.text)
      | .ending => flawAt t.offset .unexpectedEnd

end

/-! ## Grammars -/

/-- Reads one rule, which must not have one of the names seen before. That is found out after its
body. -/
def ruleWith (body : Reader Rule) (seen : List Text) : Reader (Text × Rule) := fun tokens ↦ do
  let (head, tokens) ← expect .identifier .expectedRuleName tokens
  let (_, tokens) ← expect .arrow .expectedArrow tokens
  let (r, tokens) ← body tokens
  if head.text ∈ seen then
    flawAt head.offset (.duplicateRule head.text)
  else
    return ((head.text, r), tokens)

/-- Reads rules up to the ending. The first argument bounds their number. -/
def rulesWith (body : Reader Rule) : Nat → List Text → Reader (List (Text × Rule))
  | 0, _, _ => .error .outOfTokens
  | _, _, [] => .error .outOfTokens
  | count + 1, seen, t :: rest =>
      if t.kind = .ending then .ok ([], t :: rest)
      else do
        let (entry, tokens) ← ruleWith body seen (t :: rest)
        let (entries, tokens) ← rulesWith body count (entry.1 :: seen) tokens
        return (entry :: entries, tokens)

/-- Reads a grammar: the named rules in order. -/
def grammar (frames : Nat) : Reader (List (Text × Rule)) := fun tokens ↦ do
  match ← rulesWith (expression frames) tokens.length [] tokens with
  | ([], []) => .error .outOfTokens
  | ([], ending :: _) => flawAt ending.offset .noRules
  | (entries, rest) => return (entries, rest)

/-- The named rules that tokens stand for. -/
def readRules (frames : Nat) (tokens : List Token) : Except ReadError (List (Text × Rule)) :=
  return (← grammar frames tokens).1

end Peg.Notation
