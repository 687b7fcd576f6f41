import Arithmetization.Decimal
import Arithmetization.Text.Hexadecimal

/-! # JSON values and their indented text

Members keep their order. Lists and records put every element on a line of its own, two spaces
further in; an empty one is a pair of brackets. Only quotes, backslashes and control characters
are escaped in a text.
-/

namespace Arithmetization

/-- A JSON value with natural numbers only. -/
inductive Json where
  | null
  | number (value : Nat)
  | text (content : String)
  | list (items : List Json)
  | record (members : List (String × Json))

namespace Json

/-- A character inside a quoted text. -/
def escapeChar (c : Char) : List Char :=
  if c = '"' then ['\\', '"']
  else if c = '\\' then ['\\', '\\']
  else if c = '\x08' then ['\\', 'b']
  else if c = '\x0c' then ['\\', 'f']
  else if c = '\n' then ['\\', 'n']
  else if c = '\r' then ['\\', 'r']
  else if c = '\t' then ['\\', 't']
  else if c.toNat < 0x20 then ['\\', 'u', '0', '0'] ++ Text.twoHexDigits c.toNat
  else [c]

/-- A text in quotes. -/
def quote (content : String) : String :=
  String.ofList ('"' :: (content.toList.flatMap escapeChar ++ ['"']))

/-- A line break and the indentation of a nesting level. -/
def newline (level : Nat) : String := String.ofList ('\n' :: List.replicate (2 * level) ' ')

mutual

/-- The text of a value at a nesting level. -/
def pretty (level : Nat) : Json → String
  | null => "null"
  | number value => Decimal.text value
  | text content => quote content
  | list [] => "[]"
  | list (item :: items) =>
    "[" ++ newline (level + 1) ++ item.pretty (level + 1) ++ prettyItems (level + 1) items ++
      newline level ++ "]"
  | record [] => "\x7b\x7d"
  | record ((key, value) :: members) =>
    "\x7b" ++ newline (level + 1) ++ quote key ++ ": " ++ value.pretty (level + 1) ++
      prettyMembers (level + 1) members ++ newline level ++ "\x7d"

/-- The text of the items after the first one, each after a comma. -/
def prettyItems (level : Nat) : List Json → String
  | [] => ""
  | item :: items => "," ++ newline level ++ item.pretty level ++ prettyItems level items

/-- The text of the members after the first one, each after a comma. -/
def prettyMembers (level : Nat) : List (String × Json) → String
  | [] => ""
  | (key, value) :: members =>
    "," ++ newline level ++ quote key ++ ": " ++ value.pretty level ++ prettyMembers level members

end

/-- The white space that may surround a JSON document. -/
def isBlank (c : Char) : Bool := c = ' ' || c = '\t' || c = '\n' || c = '\r'

end Json

end Arithmetization
