/-
# Snippets.Snippet.Basic — one template

A snippet has a name, an optional abbreviation text and alias, and a body of lines kept exactly as
they were written. Its text is the body without the common left margin, the least number of
leading spaces (U+0020) over the lines that are not blank. A blank line passes through untouched,
and no line loses more than its own leading spaces.
-/
import Snippets.Placeholder.Expand
import Snippets.Text.Blank
import Snippets.Text.Lines

namespace Snippets

/-- The number of spaces (U+0020) at the start of a line. -/
def Text.indentation (line : Text) : Nat := (line.takeWhile (· = ' ')).length

/-- One template. -/
structure Snippet where
  /-- The word that names the snippet. -/
  name : Text
  /-- A free description, empty when none was given. -/
  abbr : Text
  /-- A short name, empty when none was given. -/
  aliasName : Text
  /-- The lines of the template, as written. -/
  body : List Text
  /-- The least number of leading spaces over the lines with content, if there are any. -/
  minIndent : Option Nat
deriving DecidableEq, Repr

namespace Snippet

/-- A snippet with a name and nothing else. -/
def named (name : Text) : Snippet := { name, abbr := [], aliasName := [], body := [], minIndent := none }

/-- A line without the left margin: a blank line is kept, another one loses its leading spaces, at
most `margin` of them. -/
def dropMargin (margin : Nat) (line : Text) : Text :=
  if margin = 0 ∨ Text.trim line = [] then line else line.drop (min line.indentation margin)

/-- The lines of the body without the common left margin. -/
def textLines (s : Snippet) : List Text := s.body.map (dropMargin (s.minIndent.getD 0))

/-- The body without the common left margin, lines joined by line feeds. -/
def text (s : Snippet) : Text := Text.unlines s.textLines

/-- The text with its placeholders filled from the arguments. -/
def render (s : Snippet) (args : List Text) : Text := Placeholder.expand s.text args

@[simp] theorem length_textLines (s : Snippet) : s.textLines.length = s.body.length := by
  simp [textLines]

end Snippet

end Snippets
