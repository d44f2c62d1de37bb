/-
# Snippets.Proofs.Snippet.LineEnds — how lines are ended does not matter

A file may end its lines with line feeds or with a carriage return and a line feed, one way or the
other from line to line, and may leave out the end of its last line. What is read from it are the
snippets of its lines, whether it is read as a text or as a stream of bytes
(`ofText_eq_ofLines_of_laidOut`). So changing the line ends of a file changes nothing in its snippets.

The lines themselves hold no line feed and do not end with a carriage return; a carriage return
elsewhere in a line is part of it and is kept.
-/
import Snippets.Proofs.Snippet.Stream

namespace Snippets.Snippet

open Text

/-- **Line ends do not matter.** A text in which lines stand with ends of any kind is read as these
lines, and so are its bytes; and a text that holds the same lines with other ends is read alike. -/
theorem ofText_eq_ofLines_of_laidOut {ls : List Text} {s : Text} (h : LaidOut ls s)
    (hls : ∀ line ∈ ls, '\n' ∉ line ∧ line.getLast? ≠ some '\r') :
    ofText s = ofLines ls ∧ ofBytes? (Utf8.encode s) = some (ofLines ls) ∧
      ∀ t, LaidOut ls t → ofText t = ofText s ∧ ofBytes? (Utf8.encode t) = ofBytes? (Utf8.encode s) := by
  have hread : ∀ t, LaidOut ls t →
      ofText t = ofLines ls ∧ ofBytes? (Utf8.encode t) = some (ofLines ls) := by
    intro t ht
    have htext : ofText t = ofLines ls := by rw [ofText, lines_of_laidOut ht hls]
    refine ⟨htext, ?_⟩
    rw [ofBytes?_eq, Utf8.decode_encode, Option.map_some, htext]
  obtain ⟨htext, hbytes⟩ := hread s h
  refine ⟨htext, hbytes, ?_⟩
  intro t ht
  obtain ⟨htext', hbytes'⟩ := hread t ht
  exact ⟨htext'.trans htext.symm, hbytes'.trans hbytes.symm⟩

/-- Lines with carriage returns inside, and empty ones. -/
def returnLines : List Text := ["snippet a".toList, "  x\ry".toList, [], [], "\r z".toList]

theorem ofText_eq_ofLines_of_laidOut_mixed :
    let mixed : Text := "snippet a\r\n  x\ry\n\r\n\n\r z".toList
    LaidOut returnLines mixed ∧
      ofText mixed = [{
        name := "a".toList, abbr := [], aliasName := []
        body := ["  x\ry".toList, [], [], "\r z".toList], minIndent := some 0 }] ∧
      ofBytes? (Utf8.encode mixed) = ofBytes? (Utf8.encode (ended returnLines)) := by
  intro mixed
  have hmixed : LaidOut returnLines mixed :=
    .ended .returnLineFeed <| .ended .lineFeed <| .ended .returnLineFeed <| .ended .lineFeed <|
      .unended (by decide)
  have hended : LaidOut returnLines (ended returnLines) :=
    .ended .returnLineFeed <| .ended .returnLineFeed <| .ended .returnLineFeed <|
      .ended .returnLineFeed <| .ended .returnLineFeed .nil
  have hlines : ∀ line ∈ returnLines, '\n' ∉ line ∧ line.getLast? ≠ some '\r' := by decide
  obtain ⟨htext, -, hsame⟩ := ofText_eq_ofLines_of_laidOut hmixed hlines
  refine ⟨hmixed, ?_, (hsame _ hended).2.symm⟩
  rw [htext]
  decide

end Snippets.Snippet
