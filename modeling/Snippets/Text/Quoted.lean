/-
# Snippets.Text.Quoted — text between quotes in a message

A quoted text stands between double quotes. The quote, the backslash and the four control
characters with a letter of their own are written with a backslash, obscure characters as
`\u` with their code point in braces, in lower-case hexadecimal without padding, and all else,
the apostrophe included, stands for itself.
-/
import Snippets.Text.Obscure

namespace Snippets.Text

/-- The code point of a character in lower-case hexadecimal digits. -/
def codePointDigits (c : Char) : Text := Nat.toDigits 16 c.toNat

/-- How one character is written inside quotes. -/
def quoteChar (c : Char) : Text :=
  if c = '\x00' then ['\\', '0']
  else if c = '\t' then ['\\', 't']
  else if c = '\r' then ['\\', 'r']
  else if c = '\n' then ['\\', 'n']
  else if c = '\\' then ['\\', '\\']
  else if c = '"' then ['\\', '"']
  else if isObscure c then ['\\', 'u', '{'] ++ codePointDigits c ++ ['}']
  else [c]

/-- A text between quotes. -/
def quote (s : Text) : Text := '"' :: (s.flatMap quoteChar ++ ['"'])

end Snippets.Text
