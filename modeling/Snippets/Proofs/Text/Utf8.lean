/-
# Snippets.Proofs.Text.Utf8 — what is written is what is read

The bytes of a text are read back as that text, and a byte string that can be read is the bytes of
what was read (`decode_eq_some_iff`). So no text is written in two ways, and the byte strings without
a malformed stretch are exactly the valid ones in the sense of the standard library
(`isSome_decode_iff`).

Both directions go character by character. There are four lengths; `lead?_eq_some_iff` tells the lead
bytes of each, and the bounds on the byte behind it keep the number of the character in the range of
that length.

Places in a text may be counted in bytes or in characters. `Text.CutsAt` says that the two agree at
a place, which they do behind characters of one byte each.
-/
import Snippets.Text.Utf8

namespace Snippets.Utf8

/-! ## Bytes and numbers -/

theorem toNat_toUInt8 {n : Nat} (h : n < 0x100) : n.toUInt8.toNat = n :=
  UInt8.toNat_ofNat_of_lt' h

theorem toUInt8_eq {n : Nat} {b : UInt8} (h : n = b.toNat) : n.toUInt8 = b := by
  rw [h]
  exact UInt8.ofNat_toNat

theorem toNat_ofNat {n : Nat} (h : n.isValidChar) : (Char.ofNat n).toNat = n := by
  rw [Char.ofNat, dif_pos h]
  rfl

/-- The byte that carries the low six bits of a number. -/
def continuation (n : Nat) : UInt8 := (0x80 + n % 0x40).toUInt8

theorem toNat_continuation (n : Nat) : (continuation n).toNat = 0x80 + n % 0x40 :=
  toNat_toUInt8 (by omega)

/-- A byte in the range of such bytes carries its low six bits. -/
theorem continuation_eq {n : Nat} {b : UInt8} (hlow : 0x80 ≤ b.toNat) (hhigh : b.toNat ≤ 0xBF)
    (h : n % 0x40 = b.toNat % 0x40) : continuation n = b :=
  toUInt8_eq (by omega)

/-- A byte below 128 is a character by itself. -/
theorem first_of_lt {b : UInt8} (hb : b.toNat < 0x80) (bs : Bytes) :
    first b bs = (some (Char.ofNat b.toNat), 0) := by
  have hlead : lead? b = some ⟨0, b.toNat, 0x80, 0xBF⟩ := by simp [lead?, hb]
  rw [first, hlead]
  simp [tailBits]

/-- What the bytes that can begin a character announce. -/
theorem lead?_eq_some_iff {b : UInt8} {lead : Lead} : lead? b = some lead ↔
    (b.toNat < 0x80 ∧ lead = ⟨0, b.toNat, 0x80, 0xBF⟩) ∨
    (0xC2 ≤ b.toNat ∧ b.toNat < 0xE0 ∧ lead = ⟨1, b.toNat - 0xC0, 0x80, 0xBF⟩) ∨
    (0xE0 ≤ b.toNat ∧ b.toNat < 0xF0 ∧ lead = ⟨2, b.toNat - 0xE0,
      if b.toNat = 0xE0 then 0xA0 else 0x80, if b.toNat = 0xED then 0x9F else 0xBF⟩) ∨
    (0xF0 ≤ b.toNat ∧ b.toNat < 0xF5 ∧ lead = ⟨3, b.toNat - 0xF0,
      if b.toNat = 0xF0 then 0x90 else 0x80, if b.toNat = 0xF4 then 0x8F else 0xBF⟩) := by
  unfold lead?
  grind

/-! ## A character that is written is read -/

theorem tailBits_zero (low high : Nat) (bs : Bytes) : tailBits 0 low high bs = [] := by
  cases bs <;> rfl

theorem tailBits_continuation {count low high n : Nat} (hlow : low ≤ 0x80 + n % 0x40)
    (hhigh : 0x80 + n % 0x40 ≤ high) (rest : Bytes) :
    tailBits (count + 1) low high (continuation n :: rest) =
      n % 0x40 :: tailBits count 0x80 0xBF rest := by
  rw [tailBits, toNat_continuation, if_pos ⟨hlow, hhigh⟩]
  congr 1
  omega

theorem tailBits_map_continuation (ns : List Nat) (rest : Bytes) :
    tailBits ns.length 0x80 0xBF (ns.map continuation ++ rest) = ns.map (· % 0x40) := by
  induction ns with
  | nil => exact tailBits_zero _ _ _
  | cons n ns ih =>
    rw [List.map_cons, List.cons_append, List.length_cons,
      tailBits_continuation (by omega) (by omega), ih, List.map_cons]

/-- Behind a lead byte, the bytes of six bits each put the number of the character together. -/
theorem first_continuation {b : UInt8} {lead : Lead} {n : Nat} {ns : List Nat} {c : Char}
    (hlead : lead? b = some lead) (hcount : lead.tails = ns.length + 1)
    (hlow : lead.low ≤ 0x80 + n % 0x40) (hhigh : 0x80 + n % 0x40 ≤ lead.high)
    (hvalue : (n :: ns).foldl (fun value m => value * 0x40 + m % 0x40) lead.bits = c.toNat)
    (rest : Bytes) :
    first b ((n :: ns).map continuation ++ rest) = (some c, ns.length + 1) := by
  have hlength : (n % 0x40 :: ns.map (· % 0x40)).length = ns.length + 1 := by simp
  rw [first, hlead]
  dsimp only
  rw [hcount, List.map_cons, List.cons_append, tailBits_continuation hlow hhigh,
    tailBits_map_continuation, if_pos hlength, hlength, List.foldl_cons, List.foldl_map]
  rw [List.foldl_cons] at hvalue
  rw [hvalue, Char.ofNat_toNat]

/-- A character written is the character read, whatever follows it. -/
theorem exists_first_encodeChar (c : Char) (rest : Bytes) :
    ∃ b tail, encodeChar c = b :: tail ∧ first b (tail ++ rest) = (some c, tail.length) := by
  have hvalid : c.toNat < 0xD800 ∨ 0xDFFF < c.toNat ∧ c.toNat < 0x110000 := c.valid
  unfold encodeChar
  dsimp only
  -- one case for each length
  split
  · have hb : c.toNat.toUInt8.toNat = c.toNat := toNat_toUInt8 (by omega)
    refine ⟨_, [], rfl, ?_⟩
    rw [first_of_lt (by omega), hb, Char.ofNat_toNat]
    rfl
  split
  · have hb : (0xC0 + c.toNat / 0x40).toUInt8.toNat = 0xC0 + c.toNat / 0x40 :=
      toNat_toUInt8 (by omega)
    have hlead : lead? (0xC0 + c.toNat / 0x40).toUInt8 = some _ :=
      lead?_eq_some_iff.mpr (.inr (.inl ⟨by omega, by omega, rfl⟩))
    refine ⟨_, [c.toNat].map continuation, rfl, ?_⟩
    exact first_continuation hlead rfl (by grind) (by grind) (by grind) rest
  split
  · have hb : (0xE0 + c.toNat / 0x1000).toUInt8.toNat = 0xE0 + c.toNat / 0x1000 :=
      toNat_toUInt8 (by omega)
    have hlead : lead? (0xE0 + c.toNat / 0x1000).toUInt8 = some _ :=
      lead?_eq_some_iff.mpr (.inr (.inr (.inl ⟨by omega, by omega, rfl⟩)))
    refine ⟨_, [c.toNat / 0x40, c.toNat].map continuation, rfl, ?_⟩
    exact first_continuation hlead rfl (by grind) (by grind) (by grind) rest
  · have hb : (0xF0 + c.toNat / 0x40000).toUInt8.toNat = 0xF0 + c.toNat / 0x40000 :=
      toNat_toUInt8 (by omega)
    have hlead : lead? (0xF0 + c.toNat / 0x40000).toUInt8 = some _ :=
      lead?_eq_some_iff.mpr (.inr (.inr (.inr ⟨by omega, by omega, rfl⟩)))
    refine ⟨_, [c.toNat / 0x1000, c.toNat / 0x40, c.toNat].map continuation, rfl, ?_⟩
    exact first_continuation hlead rfl (by grind) (by grind) (by grind) rest

/-! ## A character that is read is written -/

/-- Bytes that all stay within their bounds. -/
theorem exists_cons_of_length_tailBits {count low high : Nat} {bs : Bytes}
    (h : (tailBits (count + 1) low high bs).length = count + 1) :
    ∃ b rest, bs = b :: rest ∧ low ≤ b.toNat ∧ b.toNat ≤ high ∧
      tailBits (count + 1) low high bs = b.toNat % 0x40 :: tailBits count 0x80 0xBF rest ∧
      (tailBits count 0x80 0xBF rest).length = count := by
  cases bs with
  | nil => exact absurd h (by simp [tailBits])
  | cons b rest =>
    rw [tailBits] at h ⊢
    split at h
    · rename_i hb
      rw [if_pos hb]
      exact ⟨b, rest, rfl, hb.1, hb.2, rfl, by simpa using h⟩
    · exact absurd h (by simp)

section

variable {b x y z : UInt8}

theorem encodeChar_ofNat_one (hb : b.toNat < 0x80) : encodeChar (Char.ofNat b.toNat) = [b] := by
  rw [encodeChar, toNat_ofNat (.inl (by omega)), if_pos hb, toUInt8_eq rfl]

theorem encodeChar_ofNat_two (hb : 0xC2 ≤ b.toNat) (hb' : b.toNat < 0xE0) (hx : 0x80 ≤ x.toNat)
    (hx' : x.toNat ≤ 0xBF) :
    encodeChar (Char.ofNat ((b.toNat - 0xC0) * 0x40 + x.toNat % 0x40)) = [b, x] := by
  rw [encodeChar, toNat_ofNat (.inl (by omega)), if_neg (by omega), if_pos (by omega),
    toUInt8_eq (b := b) (by omega), ← continuation, continuation_eq hx hx' (by omega)]

theorem encodeChar_ofNat_three (hb : 0xE0 ≤ b.toNat) (hb' : b.toNat < 0xF0)
    (hx : (if b.toNat = 0xE0 then 0xA0 else 0x80) ≤ x.toNat)
    (hx' : x.toNat ≤ if b.toNat = 0xED then 0x9F else 0xBF) (hy : 0x80 ≤ y.toNat)
    (hy' : y.toNat ≤ 0xBF) :
    encodeChar (Char.ofNat
      (((b.toNat - 0xE0) * 0x40 + x.toNat % 0x40) * 0x40 + y.toNat % 0x40)) = [b, x, y] := by
  have hvalid : (((b.toNat - 0xE0) * 0x40 + x.toNat % 0x40) * 0x40 + y.toNat % 0x40).isValidChar := by
    unfold Nat.isValidChar
    grind
  rw [encodeChar, toNat_ofNat hvalid, if_neg (by grind), if_neg (by grind), if_pos (by grind),
    toUInt8_eq (b := b) (by grind), ← continuation, ← continuation,
    continuation_eq (b := x) (by grind) (by grind) (by omega), continuation_eq hy hy' (by omega)]

theorem encodeChar_ofNat_four (hb : 0xF0 ≤ b.toNat) (hb' : b.toNat < 0xF5)
    (hx : (if b.toNat = 0xF0 then 0x90 else 0x80) ≤ x.toNat)
    (hx' : x.toNat ≤ if b.toNat = 0xF4 then 0x8F else 0xBF) (hy : 0x80 ≤ y.toNat)
    (hy' : y.toNat ≤ 0xBF) (hz : 0x80 ≤ z.toNat) (hz' : z.toNat ≤ 0xBF) :
    encodeChar (Char.ofNat
      ((((b.toNat - 0xF0) * 0x40 + x.toNat % 0x40) * 0x40 + y.toNat % 0x40) * 0x40
        + z.toNat % 0x40)) = [b, x, y, z] := by
  have hvalid : ((((b.toNat - 0xF0) * 0x40 + x.toNat % 0x40) * 0x40 + y.toNat % 0x40) * 0x40
        + z.toNat % 0x40).isValidChar := by
    unfold Nat.isValidChar
    grind
  rw [encodeChar, toNat_ofNat hvalid, if_neg (by grind), if_neg (by grind), if_neg (by grind),
    toUInt8_eq (b := b) (by grind), ← continuation, ← continuation, ← continuation,
    continuation_eq (b := x) (by grind) (by grind) (by omega),
    continuation_eq hy hy' (by omega), continuation_eq hz hz' (by omega)]

end

/-- The character read is the one that the bytes write. -/
theorem encodeChar_of_first {b : UInt8} {rest : Bytes} {c : Char} {count : Nat}
    (h : first b rest = (some c, count)) :
    encodeChar c = b :: rest.take count := by
  unfold first at h
  split at h
  · exact absurd h (by simp)
  rename_i lead hlead
  dsimp only at h
  split at h
  · rename_i hlength
    obtain ⟨hc, rfl⟩ := Prod.mk.inj h
    rw [← Option.some.inj hc]
    rcases lead?_eq_some_iff.mp hlead with ⟨hb, rfl⟩ | ⟨hb, hb', rfl⟩ | ⟨hb, hb', rfl⟩ | ⟨hb, hb', rfl⟩
    · dsimp only at *
      rw [tailBits_zero, List.foldl_nil]
      exact encodeChar_ofNat_one hb
    · dsimp only at *
      obtain ⟨x, rest, rfl, hx, hx', htails, hrest⟩ := exists_cons_of_length_tailBits hlength
      rw [hlength, htails, tailBits_zero]
      exact encodeChar_ofNat_two hb hb' hx hx'
    · dsimp only at *
      obtain ⟨x, rest, rfl, hx, hx', htails, hrest⟩ := exists_cons_of_length_tailBits hlength
      obtain ⟨y, rest, rfl, hy, hy', htails', -⟩ := exists_cons_of_length_tailBits hrest
      rw [hlength, htails, htails', tailBits_zero]
      exact encodeChar_ofNat_three hb hb' hx hx' hy hy'
    · dsimp only at *
      obtain ⟨x, rest, rfl, hx, hx', htails, hrest⟩ := exists_cons_of_length_tailBits hlength
      obtain ⟨y, rest, rfl, hy, hy', htails', hrest'⟩ := exists_cons_of_length_tailBits hrest
      obtain ⟨z, rest, rfl, hz, hz', htails'', -⟩ := exists_cons_of_length_tailBits hrest'
      rw [hlength, htails, htails', htails'', tailBits_zero]
      exact encodeChar_ofNat_four hb hb' hx hx' hy hy' hz hz'
  · exact absurd h (by simp)

/-! ## Texts -/

/-- Skipping bytes is going on behind them. -/
theorem scanAfter_eq_drop (skip : Nat) (bs : Bytes) : scanAfter skip bs = scan (bs.drop skip) := by
  induction bs generalizing skip with
  | nil => simp [scanAfter, scan]
  | cons b rest ih =>
    cases skip with
    | zero => rfl
    | succ skip => simpa [scanAfter] using ih skip

theorem decode_cons (b : UInt8) (rest : Bytes) :
    decode (b :: rest) =
      (first b rest).1.bind fun c => (decode (rest.drop (first b rest).2)).map (c :: ·) := by
  rw [decode, scan, scanAfter, scanAfter_eq_drop, List.mapM_cons]
  cases (first b rest).1 with
  | none => rfl
  | some c => rw [decode]; cases (scan (rest.drop (first b rest).2)).mapM id <;> rfl

theorem decode_encode (s : Text) : decode (encode s) = some s := by
  induction s with
  | nil => rfl
  | cons c s ih =>
    obtain ⟨b, tail, hc, hfirst⟩ := exists_first_encodeChar c (encode s)
    rw [encode_cons, hc, List.cons_append, decode_cons, hfirst]
    simp [ih]

theorem encode_of_decode : ∀ {bs : Bytes} {s : Text}, decode bs = some s → bs = encode s
  | [], s, h => by
    obtain rfl : [] = s := Option.some.inj h
    rfl
  | b :: rest, s, h => by
    rw [decode_cons] at h
    obtain ⟨c, hc, hs⟩ := Option.bind_eq_some_iff.mp h
    obtain ⟨more, hmore, rfl⟩ := Option.map_eq_some_iff.mp hs
    rw [encode_cons, encodeChar_of_first (Prod.ext hc rfl), ← encode_of_decode hmore,
      List.cons_append, List.take_append_drop]
termination_by bs => bs.length
decreasing_by
  rw [List.length_drop, List.length_cons]
  omega

/-- **Reading is the inverse of writing.** -/
theorem decode_eq_some_iff {bs : Bytes} {s : Text} : decode bs = some s ↔ bs = encode s := by
  constructor
  · exact encode_of_decode
  · rintro rfl
    exact decode_encode s

theorem encodeChar_eq_utf8EncodeChar (c : Char) : encodeChar c = String.utf8EncodeChar c := by
  have hvalid : c.toNat < 0xD800 ∨ 0xDFFF < c.toNat ∧ c.toNat < 0x110000 := c.valid
  have hval : c.val.toNat = c.toNat := rfl
  unfold encodeChar String.utf8EncodeChar
  simp only [Nat.toUInt8_eq, hval]
  grind

/-- The byte strings that can be read are those that the standard library calls valid. -/
theorem isSome_decode_iff {bs : Bytes} : (decode bs).isSome ↔ bs.toByteArray.IsValidUTF8 := by
  have hencode (s : Text) : s.utf8Encode = (encode s).toByteArray := by
    rw [encode, funext encodeChar_eq_utf8EncodeChar, List.utf8Encode]
  rw [Option.isSome_iff_exists]
  constructor
  · rintro ⟨s, hs⟩
    exact ⟨s, by rw [hencode, encode_of_decode hs]⟩
  · rintro ⟨s, hs⟩
    rw [hencode, List.toByteArray_inj] at hs
    exact ⟨s, decode_eq_some_iff.mpr hs⟩

end Snippets.Utf8

/-! ## Cutting -/

namespace Snippets.Text

/-- Cutting the bytes of a text at `k` is cutting the text behind `k` characters: the place lies
inside the text and between two characters. -/
structure CutsAt (s : Text) (k : Nat) : Prop where
  /-- The place is not behind the end. -/
  inside : k ≤ (Utf8.encode s).length
  /-- The bytes in front are those of the characters in front. -/
  front : (Utf8.encode s).take k = Utf8.encode (s.take k)
  /-- The bytes behind are those of the characters behind. -/
  back : (Utf8.encode s).drop k = Utf8.encode (s.drop k)

/-- Behind characters of one byte each a text can be cut. -/
theorem cutsAt_length {front : Text} (h : (Utf8.encode front).length = front.length) (back : Text) :
    CutsAt (front ++ back) front.length := by
  constructor
  · rw [Utf8.encode_append, List.length_append, h]
    exact Nat.le_add_right _ _
  · rw [Utf8.encode_append, List.take_left' h, List.take_left]
  · rw [Utf8.encode_append, List.drop_left' h, List.drop_left]

end Snippets.Text
