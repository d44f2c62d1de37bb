/-
# Snippets.Text.Blank — white space, trimming and words

White space is the Unicode property White_Space. It leaves out the zero width space U+200B, the
byte order mark U+FEFF and the separators U+001C to U+001F. Trimming removes white space at both
ends, and the words of a text are its maximal stretches without white space.
-/
import Snippets.Text.Basic

namespace Snippets.Text

/-- The code points with the property White_Space. -/
def blankRanges : CodeRanges :=
  [(0x09, 0x0D), (0x20, 0x20), (0x85, 0x85), (0xA0, 0xA0), (0x1680, 0x1680), (0x2000, 0x200A),
   (0x2028, 0x2029), (0x202F, 0x202F), (0x205F, 0x205F), (0x3000, 0x3000)]

/-- A character is blank when it has the property White_Space. -/
def isBlank (c : Char) : Bool := blankRanges.holds c

/-- The text without the blanks at its start. -/
def trimStart (s : Text) : Text := s.dropWhile isBlank

/-- The text without the blanks at its end. -/
def trimEnd (s : Text) : Text := (s.reverse.dropWhile isBlank).reverse

/-- The text without the blanks at its two ends. -/
def trim (s : Text) : Text := trimEnd (trimStart s)

/-- The maximal stretches of a text that hold no blank, from left to right. -/
def words (s : Text) : List Text := (s.splitOnP isBlank).filter (fun word => !word.isEmpty)

/-! ## Small facts -/

@[simp] theorem trim_nil : trim [] = [] := rfl

@[simp] theorem words_nil : words [] = [] := rfl

theorem ne_nil_of_mem_words {s word : Text} (h : word ∈ words s) : word ≠ [] := by
  rintro rfl
  simp [words] at h

end Snippets.Text
