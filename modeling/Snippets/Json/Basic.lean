/-
# Snippets.Json.Basic — JSON values and their written forms

A value is written in two ways: `compact` without any space, and `pretty` with one member or item
a line, two spaces for each level, a space after the colon, and empty arrays and objects closed at
once. In a string only the quote, the backslash and the characters below U+0020 are escaped.
-/
import Snippets.Text.Basic

namespace Snippets

/-- A JSON value; numbers are natural, and the members of an object keep their order. -/
inductive Json where
  | null
  | bool (b : Bool)
  | number (n : Nat)
  | string (s : Text)
  | array (items : List Json)
  | object (members : List (Text × Json))

namespace Json

/-! ## Strings -/

/-- A code point below U+0020 as `\u` and four hexadecimal digits. -/
def unicodeEscape (c : Char) : Text :=
  ['\\', 'u', '0', '0', Nat.digitChar (c.toNat / 16), Nat.digitChar (c.toNat % 16)]

/-- How one character is written inside a string. -/
def escapeChar (c : Char) : Text :=
  if c = '"' then ['\\', '"']
  else if c = '\\' then ['\\', '\\']
  else if c = '\x08' then ['\\', 'b']
  else if c = '\x0C' then ['\\', 'f']
  else if c = '\n' then ['\\', 'n']
  else if c = '\r' then ['\\', 'r']
  else if c = '\t' then ['\\', 't']
  else if c.toNat < 0x20 then unicodeEscape c
  else [c]

/-- A string between quotes. -/
def writeString (s : Text) : Text := '"' :: (s.flatMap escapeChar ++ ['"'])

/-- A truth value as a word. -/
def writeBool (b : Bool) : Text := if b then "true".toList else "false".toList

/-! ## The compact form -/

mutual

/-- A value without any space. -/
def compact : Json → Text
  | null => "null".toList
  | bool b => writeBool b
  | number n => Text.ofNat n
  | string s => writeString s
  | array items => '[' :: (compactItems items ++ [']'])
  | object members => '{' :: (compactMembers members ++ ['}'])

/-- Items with commas between them. -/
def compactItems : List Json → Text
  | [] => []
  | [item] => compact item
  | item :: next :: rest => compact item ++ ',' :: compactItems (next :: rest)

/-- Members with commas between them. -/
def compactMembers : List (Text × Json) → Text
  | [] => []
  | [(name, value)] => writeString name ++ ':' :: compact value
  | (name, value) :: next :: rest =>
    writeString name ++ ':' :: (compact value ++ ',' :: compactMembers (next :: rest))

end

/-! ## The pretty form -/

/-- A line feed and two spaces for each level. -/
def newline (level : Nat) : Text := '\n' :: List.replicate (2 * level) ' '

mutual

/-- A value at a level of nesting, one item or member a line. -/
def prettyAt (level : Nat) : Json → Text
  | null => "null".toList
  | bool b => writeBool b
  | number n => Text.ofNat n
  | string s => writeString s
  | array [] => ['[', ']']
  | array (item :: rest) => '[' :: (prettyItems (level + 1) (item :: rest) ++ newline level ++ [']'])
  | object [] => ['{', '}']
  | object (member :: rest) =>
    '{' :: (prettyMembers (level + 1) (member :: rest) ++ newline level ++ ['}'])

/-- Items, each on its own line, with commas between them. -/
def prettyItems (level : Nat) : List Json → Text
  | [] => []
  | [item] => newline level ++ prettyAt level item
  | item :: next :: rest =>
    newline level ++ prettyAt level item ++ ',' :: prettyItems level (next :: rest)

/-- Members, each on its own line, with commas between them. -/
def prettyMembers (level : Nat) : List (Text × Json) → Text
  | [] => []
  | [(name, value)] => newline level ++ writeString name ++ [':', ' '] ++ prettyAt level value
  | (name, value) :: next :: rest =>
    newline level ++ writeString name ++ [':', ' '] ++ prettyAt level value ++
      ',' :: prettyMembers level (next :: rest)

end

/-- A value with one item or member a line. -/
def pretty (value : Json) : Text := prettyAt 0 value

end Json

end Snippets
