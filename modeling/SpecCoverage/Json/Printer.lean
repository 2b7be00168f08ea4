import SpecCoverage.Json.Value

/-!
# Writing JSON

`pretty` writes a value over several lines, each level indented by two more blanks.  Empty arrays and
objects stay on one line.
-/

namespace SpecCoverage.Json

def hexDigit (n : Nat) : Char := "0123456789abcdef".toList.getD n '0'

/-- A character as it stands in a string. -/
def escape (c : Char) : List Char :=
  if c = '"' then ['\\', '"']
  else if c = '\\' then ['\\', '\\']
  else if c = '\x08' then ['\\', 'b']
  else if c = '\x0c' then ['\\', 'f']
  else if c = '\n' then ['\\', 'n']
  else if c = '\r' then ['\\', 'r']
  else if c = '\t' then ['\\', 't']
  else if c.toNat < 0x20 then
    ['\\', 'u', '0', '0', hexDigit (c.toNat / 16), hexDigit (c.toNat % 16)]
  else [c]

def quoted (s : String) : List Char := '"' :: s.toList.flatMap escape ++ ['"']

/-- A new line at a level of indentation. -/
def newLine (level : Nat) : List Char := '\n' :: List.replicate (2 * level) ' '

mutual

/-- A value whose first line stands at a level of indentation. -/
def written (level : Nat) : Value → List Char
  | .null => "null".toList
  | .bool true => "true".toList
  | .bool false => "false".toList
  | .natural n => Nat.toDigits 10 n
  | .decimal text => text.toList
  | .string s => quoted s
  | .array [] => ['[', ']']
  | .array (item :: items) =>
    '[' :: newLine (level + 1) ++ written (level + 1) item ++ writtenItems (level + 1) items
      ++ newLine level ++ [']']
  | .object [] => ['\x7b', '\x7d']
  | .object ((name, value) :: members) =>
    '\x7b' :: newLine (level + 1) ++ quoted name ++ ": ".toList ++ written (level + 1) value
      ++ writtenMembers (level + 1) members ++ newLine level ++ ['\x7d']

/-- The items behind the first one. -/
def writtenItems (level : Nat) : List Value → List Char
  | [] => []
  | item :: items => ',' :: newLine level ++ written level item ++ writtenItems level items

/-- The members behind the first one. -/
def writtenMembers (level : Nat) : List (String × Value) → List Char
  | [] => []
  | (name, value) :: members =>
    ',' :: newLine level ++ quoted name ++ ": ".toList ++ written level value
      ++ writtenMembers level members

end

def pretty (value : Value) : String := String.ofList (written 0 value)

end SpecCoverage.Json
