import Peg.Text.Quoted

/-!
# Arguments of any kind

A rule constructor or a lookup may be handed anything: a number where a rule belongs, a list where a
character does. Such an argument is a `Value`. What refuses it names its type or shows it in full.
-/

namespace Peg

/-- A plain value, as a caller may pass it in place of a text or a rule. -/
inductive Value where
  /-- No value. -/
  | null
  /-- A truth value. -/
  | bool (b : Bool)
  /-- A whole number of any size. -/
  | int (i : Int)
  /-- The number `mantissa / 10 ^ places`. -/
  | decimal (mantissa : Int) (places : Nat)
  /-- A text. -/
  | text (t : Text)
  /-- A list of values. -/
  | list (items : List Value)
  /-- A tuple of values. -/
  | tuple (items : List Value)
deriving Inhabited

namespace Value

/-- The name of the value's type, as messages give it. -/
def typeName : Value → Text
  | null => "NoneType"
  | bool _ => "bool"
  | int _ => "int"
  | decimal _ _ => "float"
  | text _ => "str"
  | list _ => "list"
  | tuple _ => "tuple"

mutual

/-- The value as messages show it: texts between quotes, lists in brackets, tuples in parentheses.
-/
def quoted : Value → Text
  | null => "None"
  | bool b => if b then "True" else "False"
  | int i => Text.ofInt i
  | decimal mantissa places => Text.ofDecimal mantissa places
  | text t => t.quoted
  | list items => Text.inBrackets (quotedItems items)
  | tuple items => Text.inParentheses (quotedItems items)

def quotedItems : List Value → List Text
  | [] => []
  | v :: rest => v.quoted :: quotedItems rest

end

/-- The value as it stands in running text: a text is given raw, anything else as it is quoted. -/
def display : Value → Text
  | text t => t
  | v => v.quoted

mutual

/-- The name of the type that keeps the value from being a key of a table: lists are no keys, and
neither are tuples that hold one. -/
def unkeyable? : Value → Option Text
  | list items => some (list items).typeName
  | tuple items => unkeyableItem? items
  | _ => none

def unkeyableItem? : List Value → Option Text
  | [] => none
  | v :: rest => v.unkeyable? <|> unkeyableItem? rest

end

end Value

end Peg
