/-
# Snippets.Proofs.Text.Utf8Lines — decoding line by line

A byte below 128 is a character by itself and never part of a longer one, so a byte string can be cut
behind it and the two sides decoded each by itself. The line feed is such a byte: the raw lines of a
stream decode one by one exactly when the whole stream does, and to the same text.
-/
import Snippets.Proofs.Text.Lines
import Snippets.Proofs.Text.Utf8

namespace Snippets

namespace Utf8

/-! ## Bytes below 128 -/

/-- The byte after a lead byte is not below 128. -/
theorem le_low_of_lead? {b : UInt8} {lead : Lead} (h : lead? b = some lead) : 0x80 ≤ lead.low := by
  unfold lead? at h
  grind

/-- A byte below the bounds ends the tail of a character. -/
theorem tailBits_append_cons {count low high : Nat} {front back : Bytes} {b : UInt8}
    (hlow : 0x80 ≤ low) (hb : b.toNat < 0x80) :
    tailBits count low high (front ++ b :: back) = tailBits count low high front := by
  induction front generalizing count low high with
  | nil =>
    cases count with
    | zero => rfl
    | succ count =>
      -- the byte is below all bounds, so the tail ends here as it ends with the input
      rw [List.nil_append, tailBits, tailBits, if_neg (by omega)]
  | cons c front ih =>
    cases count with
    | zero => rfl
    | succ count => rw [List.cons_append, tailBits, tailBits, ih (by omega)]

theorem length_tailBits_le (count low high : Nat) (bs : Bytes) :
    (tailBits count low high bs).length ≤ bs.length := by
  induction bs generalizing count low high with
  | nil => cases count <;> simp [tailBits]
  | cons b bs ih =>
    cases count with
    | zero => simp [tailBits]
    | succ count =>
      rw [tailBits]
      split
      · simpa using ih count 0x80 0xBF
      · simp

theorem first_append_cons (lead : UInt8) {front back : Bytes} {b : UInt8} (hb : b.toNat < 0x80) :
    first lead (front ++ b :: back) = first lead front := by
  unfold first
  cases h : lead? lead with
  | none => rfl
  | some announced => simp only [tailBits_append_cons (le_low_of_lead? h) hb]

theorem snd_first_le (lead : UInt8) (bs : Bytes) : (first lead bs).2 ≤ bs.length := by
  unfold first
  cases h : lead? lead with
  | none => simp
  | some announced =>
    have hle := length_tailBits_le announced.tails announced.low announced.high bs
    dsimp only
    split <;> exact hle

/-- A byte below 128 is read by itself, and behind it the reading starts anew. -/
theorem scanAfter_append_cons {skip : Nat} {front back : Bytes} {b : UInt8} (hb : b.toNat < 0x80)
    (hskip : skip ≤ front.length) :
    scanAfter skip (front ++ b :: back) =
      scanAfter skip front ++ some (Char.ofNat b.toNat) :: scan back := by
  induction front generalizing skip with
  | nil =>
    obtain rfl : skip = 0 := by simpa using hskip
    simp [scanAfter, first_of_lt hb, scan]
  | cons c front ih =>
    cases skip with
    | succ skip => exact ih (by simpa using hskip)
    | zero =>
      -- the character at `c` ends before `b`, on both sides at the same byte
      rw [List.cons_append, scanAfter, scanAfter, first_append_cons c hb,
        ih (snd_first_le c front), List.cons_append]

theorem decode_append_cons {front back : Bytes} {b : UInt8} (hb : b.toNat < 0x80) :
    decode (front ++ b :: back) =
      (decode front).bind fun s => (decode back).map fun more =>
        s ++ Char.ofNat b.toNat :: more := by
  rw [decode, decode, decode, scan, scan, scanAfter_append_cons hb (Nat.zero_le _), List.mapM_append,
    List.mapM_cons]
  cases (scanAfter 0 front).mapM id with
  | none => rfl
  | some s => cases (scan back).mapM id <;> rfl

end Utf8

namespace Bytes

/-! ## Raw lines -/

theorem rawLines_append_lineFeed {front : Bytes} (h : lineFeed ∉ front) (back : Bytes) :
    rawLines (front ++ lineFeed :: back) = (front ++ [lineFeed]) :: rawLines back := by
  induction front with
  | nil => simp [rawLines]
  | cons b front ih =>
    rw [List.mem_cons, not_or] at h
    rw [List.cons_append, rawLines, if_neg (Ne.symm h.1), ih h.2]
    rfl

theorem rawLines_of_notMem {bs : Bytes} (hne : bs ≠ []) (h : lineFeed ∉ bs) :
    rawLines bs = [bs] := by
  induction bs with
  | nil => exact absurd rfl hne
  | cons b bs ih =>
    rw [List.mem_cons, not_or] at h
    rw [rawLines, if_neg (Ne.symm h.1)]
    cases bs with
    | nil => rfl
    | cons c bs => rw [ih (by simp) h.2]

/-- A property of byte streams that holds of a last line without line feed and is passed on by a
line in front. -/
theorem lines_induction {motive : Bytes → Prop} (last : ∀ bs, lineFeed ∉ bs → motive bs)
    (line : ∀ front back, lineFeed ∉ front → motive back → motive (front ++ lineFeed :: back))
    (bs : Bytes) : motive bs := by
  by_cases h : lineFeed ∈ bs
  · obtain ⟨front, back, hbs, hfront⟩ := List.eq_append_cons_of_mem h
    have hlt : back.length < bs.length := by
      rw [hbs, List.length_append, List.length_cons]
      omega
    rw [hbs]
    exact line front back hfront (lines_induction last line back)
  · exact last bs h
termination_by bs.length

end Bytes

namespace Utf8

/-- **Decoding line by line is decoding the whole.** -/
theorem decode_eq_mapM_rawLines (bs : Bytes) :
    decode bs = ((Bytes.rawLines bs).mapM decode).map List.flatten := by
  induction bs using Bytes.lines_induction with
  | last bs h =>
    by_cases hne : bs = []
    · subst hne
      rfl
    · rw [Bytes.rawLines_of_notMem hne h]
      rw [List.mapM_cons, List.mapM_nil]
      cases decode bs with
      | none => rfl
      | some s => simp
  | line front back h ih =>
    rw [Bytes.rawLines_append_lineFeed h, decode_append_cons (by decide), ih, List.mapM_cons,
      decode_append_cons (by decide)]
    cases decode front with
    | none => rfl
    | some line =>
      cases (Bytes.rawLines back).mapM decode with
      | none => rfl
      | some ls => simp [decode, scan, scanAfter]

/-- The line feed is written as its byte, and no other character is written with that byte. -/
theorem newline_notMem_of_decode {bs : Bytes} {s : Text} (h : Bytes.lineFeed ∉ bs)
    (hs : decode bs = some s) : '\n' ∉ s := by
  obtain rfl := encode_of_decode hs
  intro hmem
  exact h (List.mem_flatMap.mpr ⟨'\n', hmem, by decide⟩)

/-- **The lines of a stream are the lines of its text.** Both ways of ending a line agree. -/
theorem map_chomp_mapM_rawLines (bs : Bytes) :
    ((Bytes.rawLines bs).mapM decode).map (List.map Text.chomp) = (decode bs).map Text.lines := by
  induction bs using Bytes.lines_induction with
  | last bs h =>
    by_cases hne : bs = []
    · subst hne
      rfl
    · rw [Bytes.rawLines_of_notMem hne h, List.mapM_cons, List.mapM_nil]
      cases hs : decode bs with
      | none => rfl
      | some s =>
        -- a last line without line feed is not empty, and kept as it is
        have hnewline : '\n' ∉ s := newline_notMem_of_decode h hs
        have hsne : s ≠ [] := by
          rintro rfl
          exact hne (encode_of_decode hs)
        simp [Text.lines_of_notMem hsne hnewline, Text.chomp_of_notMem hnewline]
  | line front back h ih =>
    rw [Bytes.rawLines_append_lineFeed h, decode_append_cons (by decide), List.mapM_cons,
      decode_append_cons (by decide)]
    cases hs : decode front with
    | none => rfl
    | some s =>
      have hnewline : '\n' ∉ s := newline_notMem_of_decode h hs
      have hfirst (t : Text) :
          Text.lines (s ++ '\n' :: t) = Text.chomp (s ++ ['\n']) :: Text.lines t := by
        rw [Text.lines_append_newline hnewline, Text.chomp_append_newline]
      have hbyte : Char.ofNat Bytes.lineFeed.toNat = '\n' := rfl
      calc _ = (((Bytes.rawLines back).mapM decode).map (List.map Text.chomp)).map
            (Text.chomp (s ++ ['\n']) :: ·) := by
            cases (Bytes.rawLines back).mapM decode <;> rfl
        _ = ((decode back).map Text.lines).map (Text.chomp (s ++ ['\n']) :: ·) := by rw [ih]
        _ = (decode back).map fun t => Text.lines (s ++ '\n' :: t) := by
            simp [Option.map_map, Function.comp_def, hfirst]
        _ = _ := by simp [Option.map_map, Function.comp_def, hbyte]

end Utf8

end Snippets
