/-
# Snippets.Proofs.Snippet.Stream — reading a stream is reading its text

A byte stream is cut behind its line feeds and each line decoded by itself; a text is decoded as a
whole and cut at its line feeds. Both ways read the same snippets, and the first fails exactly when
the stream as a whole is not valid UTF-8, wherever the malformed bytes stand
(`ofBytes?_eq_map_ofText`).
-/
import Snippets.Catalog.Load
import Snippets.Proofs.Text.Utf8Lines

namespace Snippets

namespace Snippet

/-- Reading line by line is decoding every line and reading the texts. -/
theorem readFrom?_eq (r : Reader) (raws : List Bytes) :
    readFrom? r raws =
      (raws.mapM Utf8.decode).map fun ls => (r.readLines (ls.map Text.chomp)).snippets := by
  induction raws generalizing r with
  | nil => rfl
  | cons raw raws ih =>
    rw [readFrom?, List.mapM_cons]
    cases Utf8.decode raw with
    | none => rfl
    | some line =>
      dsimp only
      rw [ih]
      cases raws.mapM Utf8.decode <;> rfl

/-- A byte stream is read as its text is. -/
theorem ofBytes?_eq (bs : Bytes) : ofBytes? bs = (Utf8.decode bs).map ofText := by
  calc ofBytes? bs
      = ((Bytes.rawLines bs).mapM Utf8.decode).map fun ls => ofLines (ls.map Text.chomp) :=
        readFrom?_eq Reader.empty (Bytes.rawLines bs)
    _ = (((Bytes.rawLines bs).mapM Utf8.decode).map (List.map Text.chomp)).map ofLines := by
        rw [Option.map_map]
        rfl
    _ = (Utf8.decode bs).map ofText := by
        rw [Utf8.map_chomp_mapM_rawLines, Option.map_map]
        rfl

theorem ofBytes?_eq_none_iff {bs : Bytes} : ofBytes? bs = none ↔ Utf8.decode bs = none := by
  rw [ofBytes?_eq, Option.map_eq_none_iff]

end Snippet

/-- A file is read as its text is, or refused as a whole. -/
theorem FileTree.readSnippets_eq {t : FileTree} {p : Path} {bs : Bytes} (h : t.read p = .ok bs) :
    t.readSnippets p =
      match Utf8.decode bs with
      | some s => .ok (Snippet.ofText s)
      | none => .error .invalidUtf8 := by
  rw [readSnippets, h]
  dsimp only
  rw [Snippet.ofBytes?_eq]
  cases Utf8.decode bs <;> rfl

namespace Snippet

/-- **Reading a stream is reading its text.** A stream is read exactly when it is valid UTF-8 as a
whole, and then to the snippets of its text; otherwise a file with that content fails to be read and
gives no snippets. Decoding line by line is decoding the whole, and both ways of cutting give the
same lines. -/
theorem ofBytes?_eq_map_ofText (bs : Bytes) :
    (∀ s, Utf8.decode bs = some s ↔ bs = Utf8.encode s) ∧
      ((ofBytes? bs).isSome ↔ bs.toByteArray.IsValidUTF8) ∧
      ofBytes? bs = (Utf8.decode bs).map ofText ∧
      Utf8.decode bs = ((Bytes.rawLines bs).mapM Utf8.decode).map List.flatten ∧
      (Utf8.decode bs).map Text.lines =
        ((Bytes.rawLines bs).mapM Utf8.decode).map (List.map Text.chomp) ∧
      ∀ (t : FileTree) (p : Path), t.read p = .ok bs →
        t.readSnippets p =
          match Utf8.decode bs with
          | some s => .ok (ofText s)
          | none => .error .invalidUtf8 := by
  refine ⟨fun s => Utf8.decode_eq_some_iff, ?_, ofBytes?_eq bs, Utf8.decode_eq_mapM_rawLines bs,
    (Utf8.map_chomp_mapM_rawLines bs).symm, fun t p h => FileTree.readSnippets_eq h⟩
  rw [ofBytes?_eq, Option.isSome_map, Utf8.isSome_decode_iff]

/-- A stream with lines that end in every way, the last one, a remark, without a line feed. -/
def readableStream : Bytes := Utf8.encode "snippet a\r\n  x\r\r\n\n y\rz\r\n# ".toList

/-- The stream with a character behind it that is cut off. -/
def brokenStream : Bytes := readableStream ++ [0xE2, 0x82]

theorem ofBytes?_brokenStream :
    ofBytes? readableStream = some
        [{ named ['a'] with body := ["  x\r".toList, [], " y\rz".toList], minIndent := some 1 }] ∧
      ofBytes? brokenStream = none ∧
      FileTree.readSnippets { top := [([0x66], .file brokenStream)], workingDir := [] } [0x66] =
        .error .invalidUtf8 := by
  obtain ⟨hdecode, -, hread, -, -, -⟩ := ofBytes?_eq_map_ofText readableStream
  obtain ⟨-, -, hbroken, -, -, hfile⟩ := ofBytes?_eq_map_ofText brokenStream
  have hnone : Utf8.decode brokenStream = none := by decide
  refine ⟨?_, ?_, ?_⟩
  · rw [hread, (hdecode _).mpr rfl]
    decide
  · rw [hbroken, hnone]
    rfl
  · rw [hfile _ _ (by decide), hnone]

end Snippet

end Snippets
