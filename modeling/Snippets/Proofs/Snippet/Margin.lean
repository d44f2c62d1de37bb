/-
# Snippets.Proofs.Snippet.Margin — the text of a snippet is its body without the common margin

The margin is found while a file is read and taken away when the text is made, and each side decides
by itself which lines count. They agree: the margin of a snippet that has been read is the least
number of leading spaces over the body lines that are not blank, so every such line loses exactly the
margin, a blank line loses nothing, and one line is left that starts with no space
(`text_removes_margin`). Leading spaces do not bear on what a line means, so the lines of the text
can be read again below the name, and then there is no margin left (`ofLines_header_text`).

The argument is about single lines: what `dropMargin` takes away is spaces at the front
(`eq_replicate_append_dropMargin`), and a line means the same without them (`trim_dropMargin`).
-/
import Snippets.Proofs.Snippet.Format
import Snippets.Proofs.Snippet.Stream

namespace Snippets

namespace Text

/-! ## Leading spaces -/

theorem indentation_cons (c : Char) (line : Text) :
    indentation (c :: line) = if c = ' ' then indentation line + 1 else 0 := by
  unfold indentation
  rw [List.takeWhile_cons]
  by_cases hspace : c = ' ' <;> simp [hspace]

/-- The first characters of a line, up to its indentation, are spaces. -/
theorem eq_replicate_append_drop {line : Text} {k : Nat} (h : k ≤ line.indentation) :
    line = List.replicate k ' ' ++ line.drop k := by
  induction k generalizing line with
  | zero => rfl
  | succ k ih =>
    cases line with
    | nil => exact absurd h (by simp [indentation])
    | cons c line =>
      rw [indentation_cons] at h
      split at h
      · rename_i hspace
        have hrest : line = List.replicate k ' ' ++ line.drop k := ih (Nat.le_of_succ_le_succ h)
        rw [hspace, List.replicate_succ, List.cons_append, List.drop_succ_cons, ← hrest]
      · exact absurd h (by simp)

theorem indentation_replicate_append (k : Nat) (line : Text) :
    indentation (List.replicate k ' ' ++ line) = k + indentation line := by
  simp [indentation]

theorem isBlankRun_replicate_space (k : Nat) : IsBlankRun (List.replicate k ' ') := by
  intro c hc
  obtain rfl : c = ' ' := List.eq_of_mem_replicate hc
  decide

theorem indentation_eq_zero_iff {line : Text} : line.indentation = 0 ↔ line.head? ≠ some ' ' := by
  cases line with
  | nil => simp [indentation]
  | cons c line =>
    rw [indentation_cons]
    by_cases hspace : c = ' ' <;> simp [hspace]

/-- A line without its indentation starts with no space. -/
theorem head?_drop_indentation (line : Text) : (line.drop line.indentation).head? ≠ some ' ' := by
  have hline : line = _ := eq_replicate_append_drop (Nat.le_refl line.indentation)
  have hsum := indentation_replicate_append line.indentation (line.drop line.indentation)
  rw [← hline] at hsum
  rw [← indentation_eq_zero_iff]
  omega

/-! ## Leading spaces as bytes -/

theorem encode_replicate_space (k : Nat) :
    Utf8.encode (List.replicate k ' ') = List.replicate k 0x20 := by
  induction k with
  | zero => rfl
  | succ k ih =>
    rw [List.replicate_succ, Utf8.encode_cons, ih]
    rfl

/-- A space is one byte, so a line can be cut anywhere up to its indentation. -/
theorem cutsAt_of_le_indentation {line : Text} {k : Nat} (h : k ≤ line.indentation) :
    line.CutsAt k := by
  have hline : line = List.replicate k ' ' ++ line.drop k := eq_replicate_append_drop h
  have hbytes : (Utf8.encode (List.replicate k ' ')).length = (List.replicate k ' ').length := by
    rw [encode_replicate_space, List.length_replicate, List.length_replicate]
  have hcut := cutsAt_length hbytes (line.drop k)
  rwa [← hline, List.length_replicate] at hcut

/-- The indentation is also the number of bytes that trimming spaces at the front takes away. -/
theorem indentation_eq_length_encode_sub (line : Text) :
    line.indentation =
      (Utf8.encode line).length - (Utf8.encode (line.dropWhile (· = ' '))).length := by
  have hcut : line.CutsAt line.indentation := cutsAt_of_le_indentation (Nat.le_refl _)
  have hdrop : line.drop line.indentation = line.dropWhile (· = ' ') := by
    have hparts : line = line.takeWhile (· = ' ') ++ line.dropWhile (· = ' ') :=
      List.takeWhile_append_dropWhile.symm
    calc line.drop line.indentation
        = (line.takeWhile (· = ' ') ++ line.dropWhile (· = ' ')).drop line.indentation := by
          rw [← hparts]
      _ = line.dropWhile (· = ' ') := List.drop_left
  have hinside := hcut.inside
  rw [← hdrop, ← hcut.back, List.length_drop]
  omega

/-! ## Blank lines -/

/-- A line is blank when nothing is left of it after trimming. -/
theorem all_isBlank_eq_true_iff {line : Text} : line.all isBlank = true ↔ trim line = [] := by
  rw [trim_eq_nil_iff, List.all_eq_true]

end Text

namespace Snippet

/-! ## Lines without the margin -/

theorem dropMargin_suffix (m : Nat) (line : Text) : dropMargin m line <:+ line := by
  unfold dropMargin
  split
  · exact List.suffix_rfl
  · exact List.drop_suffix _ _

theorem dropMargin_of_blank {line : Text} (h : line.all Text.isBlank = true) (m : Nat) :
    dropMargin m line = line :=
  if_pos (.inr (Text.all_isBlank_eq_true_iff.mp h))

theorem dropMargin_zero (line : Text) : dropMargin 0 line = line := if_pos (.inl rfl)

/-- A line that is not blank loses the margin, when it is indented as far. -/
theorem dropMargin_of_le {line : Text} {m : Nat} (hblank : line.all Text.isBlank = false)
    (hm : m ≤ line.indentation) : dropMargin m line = line.drop m := by
  unfold dropMargin
  split
  · rename_i hkept
    have hzero : m = 0 := by
      refine hkept.resolve_right fun htrim => ?_
      rw [Text.all_isBlank_eq_true_iff.mpr htrim] at hblank
      exact Bool.noConfusion hblank
    rw [hzero, List.drop_zero]
  · rw [Nat.min_eq_right hm]

/-- What a line loses is spaces at its front. -/
theorem exists_eq_replicate_append_dropMargin (m : Nat) (line : Text) :
    ∃ k, line = List.replicate k ' ' ++ dropMargin m line := by
  unfold dropMargin
  split
  · exact ⟨0, rfl⟩
  · exact ⟨_, Text.eq_replicate_append_drop (Nat.min_le_left _ _)⟩

theorem trim_dropMargin (m : Nat) (line : Text) : Text.trim (dropMargin m line) = Text.trim line := by
  obtain ⟨k, hline⟩ := exists_eq_replicate_append_dropMargin m line
  conv_rhs => rw [hline, Text.trim_append_left (Text.isBlankRun_replicate_space k)]

theorem all_isBlank_dropMargin (m : Nat) (line : Text) :
    (dropMargin m line).all Text.isBlank = line.all Text.isBlank := by
  rw [Bool.eq_iff_iff, Text.all_isBlank_eq_true_iff, Text.all_isBlank_eq_true_iff, trim_dropMargin]

/-- A line can stand in a body as well without its margin. -/
theorem IsBodyLine.dropMargin {line : Text} (h : IsBodyLine line) (m : Nat) :
    IsBodyLine (dropMargin m line) where
  one_line hmem := h.one_line ((dropMargin_suffix m line).subset hmem)
  not_comment := by
    rw [trim_dropMargin]
    exact h.not_comment
  not_keyword := by
    rw [trim_dropMargin]
    exact h.not_keyword

/-! ## The margin of a body -/

theorem margin_eq_some_iff {body : List Text} {m : Nat} :
    margin body = some m ↔
      (∃ line ∈ body, line.all Text.isBlank = false ∧ line.indentation = m) ∧
        ∀ line ∈ body, line.all Text.isBlank = false → m ≤ line.indentation := by
  simp only [margin, List.min?_eq_some_iff, List.mem_map, List.mem_filter, Bool.not_eq_true',
    and_assoc]
  refine and_congr_right fun _ => ⟨fun h line hline hblank => h _ ⟨line, hline, hblank, rfl⟩, ?_⟩
  rintro h _ ⟨line, hline, hblank, rfl⟩
  exact h line hline hblank

theorem margin_eq_none_iff {body : List Text} :
    margin body = none ↔ ∀ line ∈ body, line.all Text.isBlank = true := by
  simp [margin, List.min?_eq_none_iff]

variable {s : Snippet}

/-- The lines of the text, cut at its line feeds, are those of the body without the margin. -/
theorem WellFormed.splitOn_text (h : WellFormed s) : s.text.splitOn '\n' = s.textLines := by
  apply Text.splitOn_unlines
  · simpa [textLines] using h.body_ne_nil
  · intro shown hshown
    obtain ⟨line, hline, rfl⟩ := List.mem_map.mp hshown
    exact ((h.body_lines line hline).dropMargin _).one_line

/-- Every line with content is indented at least as far as the margin. -/
theorem WellFormed.exists_minIndent_le (h : WellFormed s) {line : Text} (hline : line ∈ s.body)
    (hblank : line.all Text.isBlank = false) : ∃ m, s.minIndent = some m ∧ m ≤ line.indentation := by
  cases hm : s.minIndent with
  | none =>
    rw [h.minIndent_eq, margin_eq_none_iff] at hm
    rw [hm line hline] at hblank
    exact Bool.noConfusion hblank
  | some m =>
    rw [h.minIndent_eq, margin_eq_some_iff] at hm
    exact ⟨m, rfl, hm.2 line hline hblank⟩

/-- A line with content is the margin and what is shown of it. -/
theorem WellFormed.eq_replicate_append_dropMargin (h : WellFormed s) {line : Text}
    (hline : line ∈ s.body) (hblank : line.all Text.isBlank = false) {m : Nat}
    (hm : s.minIndent = some m) : line = List.replicate m ' ' ++ dropMargin m line := by
  obtain ⟨least, hleast, hle⟩ := h.exists_minIndent_le hline hblank
  obtain rfl : m = least := Option.some.inj (hm.symm.trans hleast)
  rw [dropMargin_of_le hblank hle, ← Text.eq_replicate_append_drop hle]

/-- A line that is indented no further than the margin starts, when it is shown, with no space. -/
theorem WellFormed.exists_shown_at_edge (h : WellFormed s) {m : Nat} (hm : s.minIndent = some m) :
    ∃ line ∈ s.body, line.all Text.isBlank = false ∧ (dropMargin m line).head? ≠ some ' ' := by
  rw [h.minIndent_eq, margin_eq_some_iff] at hm
  obtain ⟨⟨line, hline, hblank, rfl⟩, -⟩ := hm
  refine ⟨line, hline, hblank, ?_⟩
  rw [dropMargin_of_le hblank (Nat.le_refl _)]
  exact Text.head?_drop_indentation line

/-- What is shown of a body has no margin left. -/
theorem WellFormed.margin_textLines (h : WellFormed s) :
    margin s.textLines = s.minIndent.map fun _ => 0 := by
  cases hm : s.minIndent with
  | none =>
    rw [h.minIndent_eq, margin_eq_none_iff] at hm
    rw [Option.map_none, margin_eq_none_iff]
    intro shown hshown
    obtain ⟨line, hline, rfl⟩ := List.mem_map.mp hshown
    rw [all_isBlank_dropMargin, hm line hline]
  | some m =>
    obtain ⟨line, hline, hblank, hedge⟩ := h.exists_shown_at_edge hm
    rw [Option.map_some, margin_eq_some_iff]
    refine ⟨⟨dropMargin m line, ?_, ?_, ?_⟩, fun _ _ _ => Nat.zero_le _⟩
    · rw [textLines, hm]
      exact List.mem_map_of_mem hline
    · rw [all_isBlank_dropMargin, hblank]
    · exact Text.indentation_eq_zero_iff.mpr hedge

/-! ## Snippets that are read -/

/-- A snippet that some text or some byte stream is read to. -/
def IsRead (s : Snippet) : Prop :=
  (∃ text, s ∈ ofText text) ∨ ∃ bs ss, ofBytes? bs = some ss ∧ s ∈ ss

/-- A stream is read to the snippets of its text. -/
theorem IsRead.exists_ofText (h : IsRead s) : ∃ text, s ∈ ofText text := by
  rcases h with htext | ⟨bs, ss, hread, hs⟩
  · exact htext
  · rw [ofBytes?_eq, Option.map_eq_some_iff] at hread
    obtain ⟨text, -, rfl⟩ := hread
    exact ⟨text, hs⟩

theorem IsRead.wellFormed (h : IsRead s) : WellFormed s := by
  obtain ⟨text, hs⟩ := h.exists_ofText
  rw [ofText_eq_ofSections] at hs
  exact wellFormed_of_mem_ofSections (fun _ => Text.newline_notMem_of_mem_lines) hs

/-- How a line is shown: a blank one as it is, one with content without the margin. -/
theorem WellFormed.shown_line (h : WellFormed s) {i : Nat} {line shown : Text}
    (hline : s.body[i]? = some line) (hshown : s.textLines[i]? = some shown) :
    (line.all Text.isBlank = true → shown = line) ∧
      (line.all Text.isBlank = false → ∃ m, s.minIndent = some m ∧ m ≤ line.indentation ∧
        line = List.replicate m ' ' ++ shown) := by
  rw [textLines, List.getElem?_map, hline] at hshown
  obtain rfl : dropMargin (s.minIndent.getD 0) line = shown := Option.some.inj hshown
  refine ⟨fun hblank => dropMargin_of_blank hblank _, fun hblank => ?_⟩
  obtain ⟨m, hm, hle⟩ := h.exists_minIndent_le (List.mem_of_getElem? hline) hblank
  refine ⟨m, hm, hle, ?_⟩
  rw [hm, Option.getD_some]
  exact h.eq_replicate_append_dropMargin (List.mem_of_getElem? hline) hblank hm

/-- No greater number of spaces is common to the lines with content. -/
theorem WellFormed.le_minIndent (h : WellFormed s) {m k : Nat} (hm : s.minIndent = some m)
    (hk : ∀ line ∈ s.body, line.all Text.isBlank = false → List.replicate k ' ' <+: line) : k ≤ m := by
  rw [h.minIndent_eq, margin_eq_some_iff] at hm
  obtain ⟨⟨line, hline, hblank, rfl⟩, -⟩ := hm
  obtain ⟨rest, hrest⟩ := hk line hline hblank
  rw [← hrest, Text.indentation_replicate_append]
  exact Nat.le_add_right k _

/-- **The text is the body without the common margin.** It has the lines of the body. A blank line is
kept, and a line with content is the margin and its line of the text, so it has at least that many
spaces to lose. Of the lines with content, one is left that starts with no space, so a greater number
of spaces is not common to them. Each line is cut at a place that is the same in characters and in
bytes, inside the line and between two characters. -/
theorem text_removes_margin (hs : IsRead s) :
    (s.text.splitOn '\n').length = s.body.length ∧
      (∀ (i : Nat) (line shown : Text), s.body[i]? = some line →
        (s.text.splitOn '\n')[i]? = some shown →
          (line.all Text.isBlank = true → shown = line) ∧
          (line.all Text.isBlank = false → ∃ m, s.minIndent = some m ∧ m ≤ line.indentation ∧
            line = List.replicate m ' ' ++ shown)) ∧
      ((∃ line ∈ s.body, line.all Text.isBlank = false) →
        (∃ shown ∈ s.text.splitOn '\n',
          shown.all Text.isBlank = false ∧ shown.head? ≠ some ' ') ∧
        ∀ k, (∀ line ∈ s.body, line.all Text.isBlank = false → List.replicate k ' ' <+: line) →
          ∃ m, s.minIndent = some m ∧ k ≤ m) ∧
      ∀ line ∈ s.body,
        line.indentation =
            (Utf8.encode line).length - (Utf8.encode (line.dropWhile (· = ' '))).length ∧
          line.CutsAt (min line.indentation (s.minIndent.getD 0)) := by
  have h := hs.wellFormed
  rw [h.splitOn_text]
  refine ⟨length_textLines s, fun i line shown => h.shown_line, ?_, ?_⟩
  · rintro ⟨line, hline, hblank⟩
    obtain ⟨m, hm, -⟩ := h.exists_minIndent_le hline hblank
    refine ⟨?_, fun k hk => ⟨m, hm, h.le_minIndent hm hk⟩⟩
    obtain ⟨edge, hedge, hcontent, hhead⟩ := h.exists_shown_at_edge hm
    refine ⟨dropMargin m edge, ?_, ?_, hhead⟩
    · rw [textLines, hm]
      exact List.mem_map_of_mem hedge
    · rw [all_isBlank_dropMargin, hcontent]
  · intro line _
    exact ⟨Text.indentation_eq_length_encode_sub line,
      Text.cutsAt_of_le_indentation (Nat.min_le_left _ _)⟩

/-- Lines with tabs, no-break spaces and other blanks, some of them blank and longer or shorter than
the margin, and a character of two bytes behind the margin. -/
def mixedText : Text :=
  "snippet n\n    a b\n\n  \u00A0 \n  \tc\n      \n  é\nabbr x\n \u3000\n".toList

/-- The snippet in it. -/
def mixedSnippet : Snippet where
  name := "n".toList
  abbr := "x".toList
  aliasName := []
  body := ["    a b".toList, [], "  \u00A0 ".toList, "  \tc".toList, "      ".toList, "  é".toList,
    " \u3000".toList]
  minIndent := some 2

theorem text_removes_margin_mixed :
    IsRead mixedSnippet ∧
      (mixedSnippet.text.splitOn '\n').length = 7 ∧
      (∃ m, mixedSnippet.minIndent = some m ∧ m ≤ Text.indentation "  \tc".toList ∧
        "  \tc".toList = List.replicate m ' ' ++ "\tc".toList) ∧
      (∃ shown ∈ mixedSnippet.text.splitOn '\n',
        shown.all Text.isBlank = false ∧ shown.head? ≠ some ' ') ∧
      Text.CutsAt "  é".toList 2 := by
  have hread : IsRead mixedSnippet := .inl ⟨mixedText, by decide⟩
  obtain ⟨hlength, hlines, hcommon, hcuts⟩ := text_removes_margin hread
  refine ⟨hread, hlength, ?_, ?_, ?_⟩
  · exact (hlines 3 "  \tc".toList "\tc".toList (by decide) (by decide)).2 (by decide)
  · exact (hcommon ⟨"  é".toList, by decide, by decide⟩).1
  · exact (hcuts "  é".toList (by decide)).2

/-! ## The text read again -/

/-- The snippet with its name and its text for a body. -/
def flush (s : Snippet) : Snippet :=
  { named s.name with body := s.textLines, minIndent := s.minIndent.map fun _ => 0 }

theorem WellFormed.flush (h : WellFormed s) : WellFormed s.flush where
  name_ne_nil := h.name_ne_nil
  name_solid := h.name_solid
  alias_solid := by simp [Snippet.flush, named, Text.IsSolid]
  abbr_line := by simp [Snippet.flush, named]
  abbr_trimmed := ⟨by simp [Snippet.flush, named], by simp [Snippet.flush, named]⟩
  body_ne_nil := by simpa [Snippet.flush, textLines] using h.body_ne_nil
  body_lines := by
    intro shown hshown
    obtain ⟨line, hline, rfl⟩ := List.mem_map.mp hshown
    exact (h.body_lines line hline).dropMargin _
  minIndent_eq := h.margin_textLines.symm

/-- Without a margin, the body is shown as it is. -/
theorem text_flush (s : Snippet) : s.flush.text = s.text := by
  have hzero : s.flush.minIndent.getD 0 = 0 := by
    cases hm : s.minIndent <;> simp [flush, hm]
  have hlines : s.flush.textLines = s.textLines := by
    rw [textLines, hzero, List.map_congr_left fun line _ => dropMargin_zero line, List.map_id']
    rfl
  rw [text, hlines, text]

theorem fileLines_flush (s : Snippet) :
    s.flush.fileLines = ("snippet ".toList ++ s.name) :: s.textLines := rfl

/-- **The text can be read again.** Below a header with the name, the lines of the text are read to
one snippet. They are its body, it has the name and the text, and no margin is left where there was
one. -/
theorem ofLines_header_text (hs : IsRead s) :
    ∃ again, ofLines (("snippet ".toList ++ s.name) :: s.text.splitOn '\n') = [again] ∧
      again.name = s.name ∧ again.body = s.text.splitOn '\n' ∧
      again.minIndent = (s.minIndent.map fun _ => 0) ∧ again.text = s.text := by
  have h := hs.wellFormed
  refine ⟨s.flush, ?_, rfl, h.splitOn_text.symm, rfl, text_flush s⟩
  calc ofLines (("snippet ".toList ++ s.name) :: s.text.splitOn '\n')
      = ofLines s.flush.fileLines := by rw [h.splitOn_text, fileLines_flush]
    _ = [s.flush] := by rw [ofLines_eq_ofSections, h.flush.ofSections_fileLines]

theorem ofLines_header_text_mixed :
    IsRead mixedSnippet ∧ ∃ again,
      ofLines ["snippet n".toList, "  a b".toList, [], "  \u00A0 ".toList, "\tc".toList,
        "      ".toList, "é".toList, " \u3000".toList] = [again] ∧
      again.minIndent = some 0 ∧ again.text = mixedSnippet.text := by
  have hread : IsRead mixedSnippet := .inl ⟨mixedText, by decide⟩
  obtain ⟨again, honly, -, -, hmargin, htext⟩ := ofLines_header_text hread
  exact ⟨hread, again, honly, hmargin, htext⟩

end Snippet

end Snippets
