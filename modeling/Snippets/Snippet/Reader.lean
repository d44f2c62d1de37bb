/-
# Snippets.Snippet.Reader — reading snippets line by line

A reader holds the snippets it has completed and at most one open snippet. A header closes the
open snippet and opens the next one; a header without a name opens none, and what follows it is
skipped until the next header. Descriptions and aliases go to the open snippet, blank lines and
content to its body, and comments leave no trace. A snippet that closes without body lines is
dropped.

`ofText` and `ofBytes?` are the two ways a file is read: text is cut into lines, a byte stream is
cut into lines first and each line is decoded by itself.
-/
import Snippets.Snippet.Basic
import Snippets.Snippet.Line
import Snippets.Text.Utf8

namespace Snippets

namespace Snippet

/-- The snippet with one more body line, which counts for the margin when it has content. -/
def pushLine (s : Snippet) (raw : Text) (hasContent : Bool) : Snippet :=
  { s with
    body := s.body ++ [raw]
    minIndent :=
      if hasContent then
        some (match s.minIndent with
          | none => raw.indentation
          | some least => min least raw.indentation)
      else s.minIndent }

end Snippet

/-- What has been read so far. -/
structure Reader where
  /-- The completed snippets, in order. -/
  done : List Snippet
  /-- The snippet that is being read. -/
  current : Option Snippet
deriving DecidableEq, Repr

namespace Reader

/-- The reader at the start of its input. -/
def empty : Reader := { done := [], current := none }

/-- The open snippet as a completed one: none when its body is empty. -/
def closing (current : Option Snippet) : List Snippet :=
  (current.filter fun s => !s.body.isEmpty).toList

/-- The snippets read, when the input ends here. -/
def snippets (r : Reader) : List Snippet := r.done ++ closing r.current

/-- The reader after one more line. -/
def readLine (r : Reader) (raw : Text) : Reader :=
  match Line.ofRaw raw with
  | .comment => r
  | .header name => { done := r.snippets, current := name.map Snippet.named }
  | .abbr text => { r with current := r.current.map fun s => { s with abbr := text } }
  | .aliasName name => { r with current := r.current.map fun s => { s with aliasName := name } }
  | .blank => { r with current := r.current.map fun s => s.pushLine raw false }
  | .content => { r with current := r.current.map fun s => s.pushLine raw true }

/-- The reader after more lines. -/
def readLines (r : Reader) (ls : List Text) : Reader := ls.foldl readLine r

@[simp] theorem readLines_nil (r : Reader) : r.readLines [] = r := rfl

@[simp] theorem readLines_cons (r : Reader) (raw : Text) (ls : List Text) :
    r.readLines (raw :: ls) = (r.readLine raw).readLines ls := rfl

@[simp] theorem readLines_append (r : Reader) (ls more : List Text) :
    r.readLines (ls ++ more) = (r.readLines ls).readLines more := by
  simp [readLines]

end Reader

namespace Snippet

/-- The snippets in a list of raw lines. -/
def ofLines (ls : List Text) : List Snippet := (Reader.empty.readLines ls).snippets

/-- The snippets in a text. -/
def ofText (s : Text) : List Snippet := ofLines s.lines

/-- The snippets in a byte stream whose lines are read and decoded one at a time, or `none` when a
line is not valid UTF-8. -/
def readFrom? (r : Reader) : List Bytes → Option (List Snippet)
  | [] => some r.snippets
  | raw :: rest =>
    match Utf8.decode raw with
    | none => none
    | some line => readFrom? (r.readLine line.chomp) rest

/-- The snippets in a byte stream, or `none` when a line of it is not valid UTF-8. -/
def ofBytes? (bs : Bytes) : Option (List Snippet) := readFrom? .empty (Bytes.rawLines bs)

end Snippet

end Snippets
