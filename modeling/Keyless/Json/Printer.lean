/-
JSON values as text, on one line or indented.

Strings escape the quote, the backslash and the controls below a space, and
nothing else.  Indented text steps two blanks for each level, and an empty array
or object stays closed up.
-/
import Keyless.Json
import Keyless.Text

namespace Keyless.Json

/-- How one character of a string is written. -/
def escaped (c : Char) : List Char :=
  if c = '"' then ['\\', '"']
  else if c = '\\' then ['\\', '\\']
  else if c.toNat = 8 then ['\\', 'b']
  else if c.toNat = 9 then ['\\', 't']
  else if c.toNat = 10 then ['\\', 'n']
  else if c.toNat = 12 then ['\\', 'f']
  else if c.toNat = 13 then ['\\', 'r']
  else if c.toNat < 32 then
    ['\\', 'u', '0', '0', Text.hexDigit (c.toNat / 16), Text.hexDigit (c.toNat % 16)]
  else [c]

/-- A string between quotes. -/
def quoted (text : String) : String :=
  "\"" ++ String.ofList (text.toList.flatMap escaped) ++ "\""

/-- The brackets of an object. -/
def openBrace : String := "\x7b"
def closeBrace : String := "\x7d"

mutual

/-- The value without any blanks. -/
def compact : Json → String
  | .null | .broken | .unreadable | .nameless .. | .real => "null"
  | .bool value => if value then "true" else "false"
  | .int value => toString value
  | .string value => quoted value
  | .array items => "[" ++ String.intercalate "," (compactItems items) ++ "]"
  | .object fields =>
    openBrace ++ String.intercalate "," (compactFields fields) ++ closeBrace

/-- Every item. -/
def compactItems : List Json → List String
  | [] => []
  | item :: rest => item.compact :: compactItems rest

/-- Every field, key first. -/
def compactFields : List (String × Json) → List String
  | [] => []
  | (key, value) :: rest => (quoted key ++ ":" ++ value.compact) :: compactFields rest

end

/-- Pieces on lines of their own, one level further in than their brackets. -/
def block (left right : String) (depth : Nat) (pieces : List String) : String :=
  let margin (n : Nat) := "\n" ++ String.ofList (List.replicate (2 * n) ' ')
  if pieces.isEmpty then left ++ right
  else
    left ++ margin (depth + 1) ++ String.intercalate ("," ++ margin (depth + 1)) pieces ++
      margin depth ++ right

mutual

/-- The value over several lines, `depth` levels in. -/
def indented (depth : Nat) : Json → String
  | .null | .broken | .unreadable | .nameless .. | .real => "null"
  | .bool value => if value then "true" else "false"
  | .int value => toString value
  | .string value => quoted value
  | .array items => block "[" "]" depth (indentedItems (depth + 1) items)
  | .object fields => block openBrace closeBrace depth (indentedFields (depth + 1) fields)

/-- Every item, `depth` levels in. -/
def indentedItems (depth : Nat) : List Json → List String
  | [] => []
  | item :: rest => item.indented depth :: indentedItems depth rest

/-- Every field, key first, `depth` levels in. -/
def indentedFields (depth : Nat) : List (String × Json) → List String
  | [] => []
  | (key, value) :: rest =>
    (quoted key ++ ": " ++ value.indented depth) :: indentedFields depth rest

end

/-- The value over several lines. -/
def pretty (value : Json) : String := value.indented 0

end Keyless.Json
