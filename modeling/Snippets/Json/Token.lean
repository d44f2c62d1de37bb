/-
# Snippets.Json.Token — the tokens of a JSON text

A JSON text is scanned character by character into tokens. Between tokens there may be spaces, tabs,
line feeds and carriage returns. A number is a row of ASCII digits that begins with zero only when it
is zero; it ends where no digit follows. A string ends at the quote that no backslash stands before,
and holds no character below U+0020; its escapes are those of JSON, except that a surrogate, which is
no character by itself, is refused. So is any number that is not natural.
-/
import Snippets.Placeholder.Index
import Snippets.Json.Basic

namespace Snippets.Json

/-- A token of a JSON text. -/
inductive Token where
  | openArray
  | closeArray
  | openObject
  | closeObject
  | comma
  | colon
  | null
  | bool (b : Bool)
  | number (n : Nat)
  | string (s : Text)
deriving DecidableEq, Repr

/-! ## The tokens of a value -/

mutual

/-- The tokens of a value. -/
def tokens : Json → List Token
  | null => [.null]
  | bool b => [.bool b]
  | number n => [.number n]
  | string s => [.string s]
  | array items => .openArray :: (itemTokens items ++ [.closeArray])
  | object members => .openObject :: (memberTokens members ++ [.closeObject])

/-- The tokens of items with commas between them. -/
def itemTokens : List Json → List Token
  | [] => []
  | [item] => item.tokens
  | item :: next :: rest => item.tokens ++ .comma :: itemTokens (next :: rest)

/-- The tokens of members with commas between them. -/
def memberTokens : List (Text × Json) → List Token
  | [] => []
  | [(name, value)] => .string name :: .colon :: value.tokens
  | (name, value) :: next :: rest =>
    .string name :: .colon :: (value.tokens ++ .comma :: memberTokens (next :: rest))

end

/-! ## Scanning -/

/-- What a scan is in the middle of. -/
inductive Mode where
  /-- Between tokens. -/
  | between
  /-- In a word that stands for a token, before the character `next` and those left after it. -/
  | word (next : Char) (left : Text) (token : Token)
  /-- Behind a zero that begins a number. -/
  | zero
  /-- In a number that does not begin with zero. -/
  | number (n : Nat)
  /-- In a string, behind some of its characters. -/
  | string (s : Text)
  /-- In a string, behind a backslash. -/
  | escape (s : Text)
  /-- In the hexadecimal digits of an escape, with `left` digits to come after the next one. -/
  | digits (s : Text) (left value : Nat)
deriving DecidableEq, Repr

/-- A scan: the tokens found, and what it is in the middle of. -/
structure Scan where
  /-- The tokens found so far, in order. -/
  found : List Token
  /-- What the scan is in the middle of. -/
  mode : Mode
deriving DecidableEq, Repr

namespace Scan

/-- The scan between tokens. -/
def after (found : List Token) : Scan := { found, mode := .between }

/-- A character between tokens. -/
def start (found : List Token) : Char → Option Scan
  | ' ' | '\t' | '\n' | '\r' => some (after found)
  | '[' => some (after (found ++ [.openArray]))
  | ']' => some (after (found ++ [.closeArray]))
  | '\x7b' => some (after (found ++ [.openObject]))
  | '\x7d' => some (after (found ++ [.closeObject]))
  | ',' => some (after (found ++ [.comma]))
  | ':' => some (after (found ++ [.colon]))
  | '"' => some { found, mode := .string [] }
  | 'n' => some { found, mode := .word 'u' ['l', 'l'] .null }
  | 't' => some { found, mode := .word 'r' ['u', 'e'] (.bool true) }
  | 'f' => some { found, mode := .word 'a' ['l', 's', 'e'] (.bool false) }
  | '0' => some { found, mode := .zero }
  | c => (Radix.decimal.digit? c).map fun d => { found, mode := .number d }

/-- The character that a letter behind a backslash stands for. -/
def unescape? : Char → Option Char
  | '"' => some '"'
  | '\\' => some '\\'
  | '/' => some '/'
  | 'b' => some '\x08'
  | 'f' => some '\x0C'
  | 'n' => some '\n'
  | 'r' => some '\r'
  | 't' => some '\t'
  | _ => none

/-- The scan after one more character. -/
def step (scan : Scan) (c : Char) : Option Scan :=
  match scan.mode with
  | .between => start scan.found c
  | .word next left token =>
    if c = next then
      match left with
      | [] => some (after (scan.found ++ [token]))
      | next :: left => some { scan with mode := .word next left token }
    else none
  | .zero =>
    match Radix.decimal.digit? c with
    | some _ => none
    | none => start (scan.found ++ [.number 0]) c
  | .number n =>
    match Radix.decimal.digit? c with
    | some d => some { scan with mode := .number (n * 10 + d) }
    | none => start (scan.found ++ [.number n]) c
  | .string s =>
    if c = '"' then some (after (scan.found ++ [.string s]))
    else if c = '\\' then some { scan with mode := .escape s }
    else if c.toNat < 0x20 then none
    else some { scan with mode := .string (s ++ [c]) }
  | .escape s =>
    if c = 'u' then some { scan with mode := .digits s 3 0 }
    else (unescape? c).map fun d => { scan with mode := .string (s ++ [d]) }
  | .digits s left value =>
    (Radix.hexadecimal.digit? c).bind fun d =>
      match left with
      | 0 =>
        if (value * 16 + d).isValidChar then
          some { scan with mode := .string (s ++ [Char.ofNat (value * 16 + d)]) }
        else none
      | left + 1 => some { scan with mode := .digits s left (value * 16 + d) }

/-- The tokens of a scan at the end of its text; a text does not end inside a word or a string. -/
def finish (scan : Scan) : Option (List Token) :=
  match scan.mode with
  | .between => some scan.found
  | .zero => some (scan.found ++ [.number 0])
  | .number n => some (scan.found ++ [.number n])
  | _ => none

/-- The tokens of a scan at the end of more text. -/
def run : Scan → Text → Option (List Token)
  | scan, [] => scan.finish
  | scan, c :: rest => (scan.step c).bind fun next => next.run rest

end Scan

/-- The tokens of a text, if it consists of tokens. -/
def tokens? (s : Text) : Option (List Token) := (Scan.after []).run s

end Snippets.Json
