/-
# Snippets.Snippet.Line — what a line of a snippet file means

A line whose first visible character is `#` is a comment. Otherwise its first word decides:
`snippet` opens a snippet named by the second word, `abbr` gives the rest of the line as
description, `alias` gives the second word as short name, and any other word makes the line
content. A line without words is blank.
-/
import Snippets.Text.Blank

namespace Snippets

/-- The meaning of one line. -/
inductive Line where
  /-- A remark for the reader of the file. -/
  | comment
  /-- A line of white space. -/
  | blank
  /-- The start of a snippet, with its name if there is one. -/
  | header (name : Option Text)
  /-- The description of the open snippet. -/
  | abbr (text : Text)
  /-- The short name of the open snippet, empty when none is given. -/
  | aliasName (name : Text)
  /-- A line of the body. -/
  | content
deriving DecidableEq, Repr

namespace Line

/-- The word that opens a snippet. -/
def snippetWord : Text := "snippet".toList

/-- The word before a description. -/
def abbrWord : Text := "abbr".toList

/-- The word before a short name. -/
def aliasWord : Text := "alias".toList

/-- The meaning of a line that has been trimmed. -/
def ofTrimmed (line : Text) : Line :=
  if line.head? = some '#' then comment
  else match Text.words line with
    | [] => blank
    | first :: more =>
      if first = snippetWord then header more.head?
      else if first = abbrWord then abbr (Text.trim (line.drop abbrWord.length))
      else if first = aliasWord then aliasName (more.headD [])
      else content

/-- The meaning of a line as it stands in a file. -/
def ofRaw (raw : Text) : Line := ofTrimmed (Text.trim raw)

/-! ## What a line contributes -/

/-- Whether a line opens a snippet, or closes one without opening another. -/
def isHeader : Line → Bool
  | header _ => true
  | _ => false

/-- Whether a line is a remark. -/
def isComment : Line → Bool
  | comment => true
  | _ => false

/-- Whether a line belongs to the body of the open snippet. -/
def isBody : Line → Bool
  | blank => true
  | content => true
  | _ => false

/-- Whether a line counts for the margin. -/
def isContent : Line → Bool
  | content => true
  | _ => false

/-- The description that a line gives, if it gives one. -/
def abbr? : Line → Option Text
  | abbr text => some text
  | _ => none

/-- The short name that a line gives, if it gives one. -/
def aliasName? : Line → Option Text
  | aliasName name => some name
  | _ => none

end Line

end Snippets
