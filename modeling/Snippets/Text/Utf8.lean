/-
# Snippets.Text.Utf8 — text as bytes

`encode` writes each character in one to four bytes. `scan` reads a byte string from left to
right into characters and malformed stretches, and both readers are views of it: `decode` accepts
a byte string without malformed stretches, `decodeLossy` shows each malformed stretch as the
replacement character U+FFFD.

The bounds on the byte after a lead byte keep out overlong forms, surrogates and values past
U+10FFFF. A malformed stretch is as long as the bytes could still have begun a character, and at
least one byte.
-/
import Snippets.Text.Basic

namespace Snippets.Utf8

/-! ## Writing -/

/-- The bytes of one character. -/
def encodeChar (c : Char) : Bytes :=
  let n := c.toNat
  if n < 0x80 then
    [n.toUInt8]
  else if n < 0x800 then
    [(0xC0 + n / 0x40).toUInt8, (0x80 + n % 0x40).toUInt8]
  else if n < 0x10000 then
    [(0xE0 + n / 0x1000).toUInt8, (0x80 + n / 0x40 % 0x40).toUInt8, (0x80 + n % 0x40).toUInt8]
  else
    [(0xF0 + n / 0x40000).toUInt8, (0x80 + n / 0x1000 % 0x40).toUInt8,
      (0x80 + n / 0x40 % 0x40).toUInt8, (0x80 + n % 0x40).toUInt8]

/-- The bytes of a text. -/
def encode (s : Text) : Bytes := s.flatMap encodeChar

@[simp] theorem encode_nil : encode [] = [] := rfl

@[simp] theorem encode_cons (c : Char) (s : Text) : encode (c :: s) = encodeChar c ++ encode s := by
  simp [encode]

@[simp] theorem encode_append (s t : Text) : encode (s ++ t) = encode s ++ encode t := by
  simp [encode]

/-! ## Reading one character -/

/-- What a lead byte announces: how many bytes follow, the leading bits of the value, and the
bounds on the next byte. -/
structure Lead where
  /-- The number of bytes that follow. -/
  tails : Nat
  /-- The leading bits of the value. -/
  bits : Nat
  /-- The least byte that may come next. -/
  low : Nat
  /-- The greatest byte that may come next. -/
  high : Nat

/-- What a byte announces, if it can begin a character. -/
def lead? (b : UInt8) : Option Lead :=
  let n := b.toNat
  if n < 0x80 then some ⟨0, n, 0x80, 0xBF⟩
  else if n < 0xC2 then none
  else if n < 0xE0 then some ⟨1, n - 0xC0, 0x80, 0xBF⟩
  else if n = 0xE0 then some ⟨2, 0, 0xA0, 0xBF⟩
  else if n = 0xED then some ⟨2, 0xD, 0x80, 0x9F⟩
  else if n < 0xF0 then some ⟨2, n - 0xE0, 0x80, 0xBF⟩
  else if n = 0xF0 then some ⟨3, 0, 0x90, 0xBF⟩
  else if n < 0xF4 then some ⟨3, n - 0xF0, 0x80, 0xBF⟩
  else if n = 0xF4 then some ⟨3, 4, 0x80, 0x8F⟩
  else none

/-- The low six bits of the following bytes, at most `count` of them, as long as they stay within
their bounds. -/
def tailBits : (count low high : Nat) → Bytes → List Nat
  | 0, _, _, _ => []
  | _ + 1, _, _, [] => []
  | count + 1, low, high, b :: rest =>
    if low ≤ b.toNat ∧ b.toNat ≤ high then b.toNat % 0x40 :: tailBits count 0x80 0xBF rest else []

/-- The character that begins at byte `b`, or `none` when it is malformed, and the number of bytes
after `b` that belong to it. -/
def first (b : UInt8) (rest : Bytes) : Option Char × Nat :=
  match lead? b with
  | none => (none, 0)
  | some lead =>
    let tails := tailBits lead.tails lead.low lead.high rest
    if tails.length = lead.tails then
      (some (Char.ofNat (tails.foldl (fun n t => n * 0x40 + t) lead.bits)), tails.length)
    else
      (none, tails.length)

/-! ## Reading a byte string -/

/-- The characters of a byte string, `none` for a malformed stretch, after `skip` bytes that belong
to what was read before. -/
def scanAfter : (skip : Nat) → Bytes → List (Option Char)
  | _, [] => []
  | skip + 1, _ :: rest => scanAfter skip rest
  | 0, b :: rest => (first b rest).1 :: scanAfter (first b rest).2 rest

/-- The characters and malformed stretches of a byte string. -/
def scan (bs : Bytes) : List (Option Char) := scanAfter 0 bs

/-- The text of a byte string, if no stretch of it is malformed. -/
def decode (bs : Bytes) : Option Text := (scan bs).mapM id

/-- The text of a byte string with the replacement character for each malformed stretch. -/
def decodeLossy (bs : Bytes) : Text := (scan bs).map (·.getD '\uFFFD')

end Snippets.Utf8
