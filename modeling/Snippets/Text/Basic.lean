/-
# Snippets.Text.Basic — text, bytes and ranges of characters

Text is a list of characters and a byte string is a list of bytes, so that every law of the
library is an induction over a list. `String` appears only at the command line.

A class of characters that a standard gives by a table is a list of inclusive ranges of code
points; `CodeRanges.holds` is membership in it.
-/

namespace Snippets

/-- Text is a list of characters. -/
abbrev Text := List Char

/-- A byte string is a list of bytes. -/
abbrev Bytes := List UInt8

/-- The written form of a number in base ten. -/
def Text.ofNat (n : Nat) : Text := Nat.toDigits 10 n

/-! ## Classes of characters given by ranges -/

/-- Inclusive ranges of code points. -/
abbrev CodeRanges := List (Nat × Nat)

/-- A character lies in a class when one of the ranges holds its code point. -/
def CodeRanges.holds (ranges : CodeRanges) (c : Char) : Bool :=
  ranges.any fun range => range.1 ≤ c.toNat && c.toNat ≤ range.2

theorem CodeRanges.holds_iff {ranges : CodeRanges} {c : Char} :
    ranges.holds c = true ↔ ∃ range ∈ ranges, range.1 ≤ c.toNat ∧ c.toNat ≤ range.2 := by
  simp [CodeRanges.holds]

end Snippets
