/-
# Snippets.Placeholder.Index — the number of a placeholder

An index is written like an integer literal: `0x`, `0o` and `0b` announce hexadecimal, octal and
binary digits, a leading zero before further characters announces octal digits, and anything else
is decimal. One plus sign may stand in front. Only ASCII digits count, and the value stays below
`2 ^ 64`; there is no wrap-around.
-/
import Snippets.Text.Basic

namespace Snippets

/-- The bases in which an index may be written. -/
inductive Radix where
  | binary
  | octal
  | decimal
  | hexadecimal
deriving DecidableEq, Repr

namespace Radix

/-- The number of digits of a base. -/
def base : Radix → Nat
  | binary => 2
  | octal => 8
  | decimal => 10
  | hexadecimal => 16

/-- The value of an ASCII digit or letter read as a digit of some base up to 36. -/
def alphanumericValue? (c : Char) : Option Nat :=
  if '0' ≤ c ∧ c ≤ '9' then some (c.toNat - '0'.toNat)
  else if 'a' ≤ c ∧ c ≤ 'z' then some (c.toNat - 'a'.toNat + 10)
  else if 'A' ≤ c ∧ c ≤ 'Z' then some (c.toNat - 'A'.toNat + 10)
  else none

/-- The value of a character as a digit of the base, if it is one. -/
def digit? (radix : Radix) (c : Char) : Option Nat :=
  (alphanumericValue? c).filter (· < radix.base)

/-- The value of a row of digits after the digits that make up `value`, if all of them are
digits. -/
def digitsFrom? (radix : Radix) : (value : Nat) → Text → Option Nat
  | value, [] => some value
  | value, c :: rest => (radix.digit? c).bind fun d => radix.digitsFrom? (value * radix.base + d) rest

/-- The value of a numeral: one or more digits of the base. -/
def numeral? (radix : Radix) (digits : Text) : Option Nat :=
  if digits.isEmpty then none else radix.digitsFrom? 0 digits

end Radix

namespace Placeholder

/-- The least number that is too great to be an index, `2 ^ 64`. -/
def indexLimit : Nat := 18446744073709551616

/-- The base that a numeral announces, and the digits that follow the announcement. -/
def announcedRadix : Text → Radix × Text
  | '0' :: 'x' :: digits => (.hexadecimal, digits)
  | '0' :: 'X' :: digits => (.hexadecimal, digits)
  | '0' :: 'o' :: digits => (.octal, digits)
  | '0' :: 'O' :: digits => (.octal, digits)
  | '0' :: 'b' :: digits => (.binary, digits)
  | '0' :: 'B' :: digits => (.binary, digits)
  | '0' :: c :: digits => (.octal, c :: digits)
  | digits => (.decimal, digits)

/-- The text without one plus sign in front. -/
def dropPlus : Text → Text
  | '+' :: rest => rest
  | s => s

/-- The index that a text denotes, if it denotes one. -/
def index? (s : Text) : Option Nat :=
  let (radix, digits) := announcedRadix (dropPlus s)
  (radix.numeral? digits).filter (· < indexLimit)

/-- An index is below the limit. -/
theorem lt_indexLimit_of_index? {s : Text} {n : Nat} (h : index? s = some n) : n < indexLimit := by
  simp only [index?, Option.filter_eq_some_iff, decide_eq_true_eq] at h
  exact h.2

end Placeholder

end Snippets
