import DiagramEditor.Json.Basic
import DiagramEditor.Text.Quoted

/-!
# Writing JSON

The written form of a value, without blanks. Characters beyond ASCII stand for themselves, and a
value that cannot be read is written as `null`.
-/

namespace DiagramEditor.Json

/-- How a character is written in a string. -/
def escapeChar (c : Char) : Text :=
  if c = '"' then ['\\', '"']
  else if c = '\\' then ['\\', '\\']
  else if c = '\n' then ['\\', 'n']
  else if c = '\r' then ['\\', 'r']
  else if c = '\t' then ['\\', 't']
  else if c.toNat < 0x20 then
    let digits := Text.hexDigits c.toNat
    ['\\', 'u'] ++ List.replicate (4 - digits.length) '0' ++ digits
  else [c]

/-- The written form of a string. -/
def renderString (s : Text) : Text :=
  '"' :: s.flatMap escapeChar ++ ['"']

mutual

/-- The written form of a value. -/
def render : Json → Text
  | .null | .unreadable => "null".toList
  | .bool true => "true".toList
  | .bool false => "false".toList
  | .number numeral => numeral
  | .string s => renderString s
  | .array items => '[' :: Text.join [','] (renderItems items) ++ [']']
  | .object members => '{' :: Text.join [','] (renderMembers members) ++ ['}']

/-- The written forms of the items of an array. -/
def renderItems : List Json → List Text
  | [] => []
  | item :: rest => render item :: renderItems rest

/-- The written forms of the members of an object. -/
def renderMembers : List (Text × Json) → List Text
  | [] => []
  | (name, value) :: rest => (renderString name ++ ':' :: render value) :: renderMembers rest

end

end DiagramEditor.Json
