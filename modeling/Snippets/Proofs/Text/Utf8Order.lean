/-
# Snippets.Proofs.Text.Utf8Order — the order of code points is the order of bytes

Two texts compare by their code points as their UTF-8 bytes compare (`before_encode`). The lengths of
characters grow with their code points and so do the lead bytes, so two characters are told apart by
their bytes in the same direction as by their numbers, whatever stands behind them.
-/
import Snippets.Proofs.Text.Utf8
import Snippets.Text.Order

namespace Snippets.Utf8

/-- The bytes of a character as numbers, by the four lengths. -/
theorem map_toNat_encodeChar (c : Char) :
    (c.toNat < 0x80 ∧ (encodeChar c).map UInt8.toNat = [c.toNat]) ∨
    (0x80 ≤ c.toNat ∧ c.toNat < 0x800 ∧
      (encodeChar c).map UInt8.toNat = [0xC0 + c.toNat / 0x40, 0x80 + c.toNat % 0x40]) ∨
    (0x800 ≤ c.toNat ∧ c.toNat < 0x10000 ∧ (encodeChar c).map UInt8.toNat =
      [0xE0 + c.toNat / 0x1000, 0x80 + c.toNat / 0x40 % 0x40, 0x80 + c.toNat % 0x40]) ∨
    (0x10000 ≤ c.toNat ∧ c.toNat < 0x110000 ∧ (encodeChar c).map UInt8.toNat =
      [0xF0 + c.toNat / 0x40000, 0x80 + c.toNat / 0x1000 % 0x40, 0x80 + c.toNat / 0x40 % 0x40,
        0x80 + c.toNat % 0x40]) := by
  have hvalid : c.toNat < 0xD800 ∨ 0xDFFF < c.toNat ∧ c.toNat < 0x110000 := c.valid
  unfold encodeChar
  dsimp only
  split
  · refine .inl ⟨by omega, ?_⟩
    rw [List.map_singleton, toNat_toUInt8 (by omega)]
  split
  · refine .inr (.inl ⟨by omega, by omega, ?_⟩)
    simp only [List.map_cons, List.map_nil]
    rw [toNat_toUInt8 (by omega), toNat_toUInt8 (by omega)]
  split
  · refine .inr (.inr (.inl ⟨by omega, by omega, ?_⟩))
    simp only [List.map_cons, List.map_nil]
    rw [toNat_toUInt8 (by omega), toNat_toUInt8 (by omega), toNat_toUInt8 (by omega)]
  · refine .inr (.inr (.inr ⟨by omega, by omega, ?_⟩))
    simp only [List.map_cons, List.map_nil]
    rw [toNat_toUInt8 (by omega), toNat_toUInt8 (by omega), toNat_toUInt8 (by omega),
      toNat_toUInt8 (by omega)]

/-- Ranked lists compare as the lists of their ranks. -/
theorem precedes_map {α : Type} (rank : α → Nat) (s t : List α) :
    precedes id (s.map rank) (t.map rank) = precedes rank s t := by
  induction s generalizing t with
  | nil => cases t <;> rfl
  | cons a s ih =>
    cases t with
    | nil => rfl
    | cons b t => simp [precedes, ih]

/-- Of two characters the lesser has the lesser bytes, whatever follows. -/
theorem before_encodeChar_append {c d : Char} (h : c.toNat < d.toNat) (s t : Bytes) :
    Bytes.before (encodeChar c ++ s) (encodeChar d ++ t) = true := by
  rw [Bytes.before, ← precedes_map, List.map_append, List.map_append]
  -- of one length the digits decide, of two lengths the lead bytes
  rcases map_toNat_encodeChar c with
      ⟨hc, hbytes⟩ | ⟨hc, hc', hbytes⟩ | ⟨hc, hc', hbytes⟩ | ⟨hc, hc', hbytes⟩ <;>
    rcases map_toNat_encodeChar d with
      ⟨hd, hbytes'⟩ | ⟨hd, hd', hbytes'⟩ | ⟨hd, hd', hbytes'⟩ | ⟨hd, hd', hbytes'⟩ <;>
    simp only [hbytes, hbytes', List.cons_append, precedes_cons_iff, id] <;> omega

theorem before_append_self (front s t : Bytes) :
    Bytes.before (front ++ s) (front ++ t) = Bytes.before s t := by
  induction front with
  | nil => rfl
  | cons b front ih =>
    unfold Bytes.before at ih ⊢
    simp [precedes, ih]

/-- **Texts compare as their bytes do.** -/
theorem before_encode (s t : Text) : Bytes.before (encode s) (encode t) = Text.before s t := by
  induction s generalizing t with
  | nil =>
    cases t with
    | nil => rfl
    | cons d t =>
      obtain ⟨b, tail, hbytes, -⟩ := exists_first_encodeChar d []
      rw [encode_cons, hbytes]
      rfl
  | cons c s ih =>
    cases t with
    | nil =>
      rw [encode_nil, Bytes.before, precedes, Text.before, precedes]
    | cons d t =>
      rw [encode_cons, encode_cons]
      rcases Nat.lt_trichotomy c.toNat d.toNat with hlt | heq | hgt
      · rw [before_encodeChar_append hlt]
        exact (precedes_cons_iff.mpr (.inl hlt)).symm
      · obtain rfl := Char.toNat_inj.mp heq
        rw [before_append_self, ih]
        simp [Text.before, precedes]
      · -- the bytes the other way round, and the order is strict
        have hback := before_encodeChar_append hgt (encode t) (encode s)
        have hbytes : Bytes.before (encodeChar c ++ encode s) (encodeChar d ++ encode t) = false := by
          rw [Bool.eq_false_iff]
          intro hbefore
          have hself := Bytes.before_trans hbefore hback
          rw [Bytes.before_self] at hself
          exact Bool.false_ne_true hself
        have htext : Text.before (c :: s) (d :: t) = false := by
          rw [Bool.eq_false_iff, Text.before, ne_eq, precedes_cons_iff]
          omega
        rw [hbytes, htext]

end Snippets.Utf8
