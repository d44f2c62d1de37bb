/-
# Snippets.Text.Lines — the lines of a text and of a byte stream

A line ends at a line feed; one carriage return just before that line feed belongs to the line
end. A carriage return anywhere else, also at the very end of the input, is part of its line. A
last line without a line feed counts when it is not empty.

The rule is stated twice, once for each way lines are read. `Text.lines` cuts a whole text at its
line feeds. A stream is first cut after each line feed (`Bytes.rawLines`), so that each piece can
be decoded by itself, and `Text.chomp` then removes the line end from the decoded piece.
-/
import Snippets.Text.Basic

namespace Snippets

/-! ## Lines of a text -/

namespace Text

/-- The text without one carriage return at its end. -/
def dropReturn (s : Text) : Text := if s.getLast? = some '\r' then s.dropLast else s

/-- The pieces between line feeds, as lines: all but the last are ended by a line feed, and the
last is a line only when it holds something. -/
def linesOfPieces : List Text → List Text
  | [] => []
  | [last] => if last.isEmpty then [] else [last]
  | piece :: next :: rest => dropReturn piece :: linesOfPieces (next :: rest)

/-- The lines of a text. -/
def lines (s : Text) : List Text := linesOfPieces (s.splitOn '\n')

/-- A line read from a stream without its line end. -/
def chomp (s : Text) : Text := if s.getLast? = some '\n' then dropReturn s.dropLast else s

/-- Lines joined by line feeds. -/
def unlines (ls : List Text) : Text := ['\n'].intercalate ls

end Text

/-! ## Lines of a byte stream -/

namespace Bytes

/-- The byte of the line feed. -/
def lineFeed : UInt8 := 10

/-- The stream cut after each line feed; each piece holds its line feed, the last one may lack
it, and no piece is empty. -/
def rawLines : Bytes → List Bytes
  | [] => []
  | b :: rest =>
    if b = lineFeed then [b] :: rawLines rest
    else match rawLines rest with
      | [] => [[b]]
      | line :: more => (b :: line) :: more

/-- Cutting loses nothing. -/
@[simp] theorem flatten_rawLines (bs : Bytes) : (rawLines bs).flatten = bs := by
  induction bs with
  | nil => rfl
  | cons b rest ih =>
    unfold rawLines
    split
    · simp [ih]
    · cases h : rawLines rest with
      | nil => rw [h] at ih; simp at ih; simp [← ih]
      | cons line more => rw [h] at ih; simpa using ih

end Bytes

end Snippets
