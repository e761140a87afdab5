import RouteMigration.Text.Basic

set_option autoImplicit false

namespace RouteMigration

inductive Json where
  | text (value : Text)
  | number (value : Nat)
  | boolean (value : Bool)
  | list (items : List Json)
  | object (members : List (Text × Json))

namespace Json

def hexDigit (value : Nat) : Char :=
  if value < 10 then Char.ofNat (0x30 + value) else Char.ofNat (0x61 + value - 10)

def escaped (c : Char) : Text :=
  if c = '"' then ['\\', '"']
  else if c = '\\' then ['\\', '\\']
  else if c = '\n' then ['\\', 'n']
  else if c = '\r' then ['\\', 'r']
  else if c = '\t' then ['\\', 't']
  else if c = '\x08' then ['\\', 'b']
  else if c = '\x0c' then ['\\', 'f']
  else if c.toNat < 0x20 then
    ['\\', 'u', '0', '0', hexDigit (c.toNat / 16), hexDigit (c.toNat % 16)]
  else [c]

def quoted (text : Text) : Text :=
  '"' :: text.flatMap escaped ++ ['"']

def boolText : Bool → Text
  | true => "true".toList
  | false => "false".toList

def lineStart (depth : Nat) : Text :=
  '\n' :: List.replicate (2 * depth) ' '

mutual

def compact : Json → Text
  | .text value => quoted value
  | .number value => Text.ofNat value
  | .boolean value => boolText value
  | .list items => '[' :: compactItems items ++ [']']
  | .object members => '\x7b' :: compactMembers members ++ ['\x7d']

def compactItems : List Json → Text
  | [] => []
  | item :: later => compact item ++ (if later.isEmpty then [] else [',']) ++ compactItems later

def compactMembers : List (Text × Json) → Text
  | [] => []
  | (key, value) :: later =>
    quoted key ++ ':' :: compact value ++ (if later.isEmpty then [] else [',']) ++
      compactMembers later

end

mutual

def pretty (depth : Nat) : Json → Text
  | .text value => quoted value
  | .number value => Text.ofNat value
  | .boolean value => boolText value
  | .list items =>
    if items.isEmpty then ['[', ']']
    else '[' :: prettyItems (depth + 1) items ++ lineStart depth ++ [']']
  | .object members =>
    if members.isEmpty then ['\x7b', '\x7d']
    else '\x7b' :: prettyMembers (depth + 1) members ++ lineStart depth ++ ['\x7d']

def prettyItems (depth : Nat) : List Json → Text
  | [] => []
  | item :: later =>
    lineStart depth ++ pretty depth item ++ (if later.isEmpty then [] else [',']) ++
      prettyItems depth later

def prettyMembers (depth : Nat) : List (Text × Json) → Text
  | [] => []
  | (key, value) :: later =>
    lineStart depth ++ quoted key ++ ':' :: ' ' :: pretty depth value ++
      (if later.isEmpty then [] else [',']) ++ prettyMembers depth later

end

end Json

end RouteMigration
