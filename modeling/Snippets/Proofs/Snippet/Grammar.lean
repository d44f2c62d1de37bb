/-
# Snippets.Proofs.Snippet.Grammar — the grammar of lines

What a line means is decided on three views of it: the text without white space at its ends, its
words, and the bytes behind a keyword. The grammar says the same in one view, the line as it stands
in the file (`Reads`): runs of white space, a keyword, and what belongs to it. Every line has exactly
the meaning that the grammar gives it, so no line has two (`ofRaw_eq_iff_reads`).

A line that has a word is a run of white space, the word, and nothing or white space and anything
(`Text.exists_first_word`), and its meaning follows from the word and from what stands behind it
(`ofRaw_line`). So each rule of the grammar is compared with one branch. The keyword of a description
is cut off by its number of bytes; the cut is safe because the keyword, in ASCII, stands at the very
start of what is cut.
-/
import Snippets.Proofs.Snippet.Line
import Snippets.Proofs.Text.Utf8

namespace Snippets.Line

open Text (IsBlankRun IsSolid IsTrimmed EndsWord)

/-! ## The rules -/

/-- A keyword and a name: white space around and between them, and anything behind white space. -/
inductive Named (keyword name : Text) : Text → Prop
  | intro {front gap rest : Text} (hfront : IsBlankRun front) (hgap : IsBlankRun gap)
      (hgap_ne : gap ≠ []) (hname_ne : name ≠ []) (hname : IsSolid name) (hrest : EndsWord rest) :
      Named keyword name (front ++ (keyword ++ (gap ++ (name ++ rest))))

/-- A keyword between white space, with nothing else. -/
inductive Bare (keyword : Text) : Text → Prop
  | intro {front back : Text} (hfront : IsBlankRun front) (hback : IsBlankRun back) :
      Bare keyword (front ++ (keyword ++ back))

/-- A description, which may hold white space but not at its ends: white space around it and around
its keyword, and between the two unless the description is empty. -/
inductive Described (text : Text) : Text → Prop
  | intro {front gap back : Text} (hfront : IsBlankRun front) (hgap : IsBlankRun gap)
      (hback : IsBlankRun back) (htext : IsTrimmed text) (hgap_ne : text ≠ [] → gap ≠ []) :
      Described text (front ++ (abbrWord ++ (gap ++ (text ++ back))))

/-- The grammar of lines: the lines with a given meaning, as they stand in a file. -/
inductive Reads : Line → Text → Prop
  /-- The first character that is no white space is a number sign. -/
  | comment {front rest : Text} (hfront : IsBlankRun front) :
      Reads comment (front ++ '#' :: rest)
  /-- There is only white space. -/
  | blank {raw : Text} (h : IsBlankRun raw) : Reads blank raw
  /-- The start of a snippet with its name. -/
  | header {raw name : Text} (h : Named snippetWord name raw) : Reads (header (some name)) raw
  /-- The start of a snippet without a name. -/
  | bareHeader {raw : Text} (h : Bare snippetWord raw) : Reads (header none) raw
  /-- A description. -/
  | abbr {raw text : Text} (h : Described text raw) : Reads (abbr text) raw
  /-- A short name. -/
  | aliasName {raw name : Text} (h : Named aliasWord name raw) : Reads (aliasName name) raw
  /-- No short name. -/
  | bareAlias {raw : Text} (h : Bare aliasWord raw) : Reads (aliasName []) raw
  /-- The first word is no keyword and does not begin with a number sign. -/
  | content {front word rest : Text} (hfront : IsBlankRun front) (hne : word ≠ [])
      (hword : IsSolid word) (hrest : EndsWord rest) (hsign : word.head? ≠ some '#')
      (hsnippet : word ≠ snippetWord) (habbr : word ≠ abbrWord) (halias : word ≠ aliasWord) :
      Reads content (front ++ (word ++ rest))

/-! ## What stands behind the first word -/

/-- A line opens with a word, white space in front of it aside, and goes on with `rest`. -/
def OpensWith (word rest raw : Text) : Prop :=
  EndsWord rest ∧ ∃ front, IsBlankRun front ∧ raw = front ++ (word ++ rest)

/-- White space keeps a word apart from the text behind it. -/
theorem endsWord_gap {gap : Text} (hgap : IsBlankRun gap) (hne : gap ≠ []) (s : Text) :
    EndsWord (gap ++ s) := by
  obtain ⟨c, more, rfl⟩ := List.exists_cons_of_ne_nil hne
  exact Text.endsWord_cons (hgap c List.mem_cons_self) _

/-- Without white space between them, a text would go on with the word before it. -/
theorem gap_ne_nil {gap text back : Text} (hrest : EndsWord (gap ++ (text ++ back)))
    (htext : IsTrimmed text) (hne : text ≠ []) : gap ≠ [] := by
  rintro rfl
  obtain ⟨c, more, rfl⟩ := List.exists_cons_of_ne_nil hne
  have hblank : Text.isBlank c = true := hrest c rfl
  rw [htext.head c rfl] at hblank
  exact Bool.false_ne_true hblank

theorem named_iff {keyword name raw : Text} : Named keyword name raw ↔
    ∃ rest, OpensWith keyword rest raw ∧ (Text.words rest).head? = some name := by
  constructor
  · rintro ⟨hfront, hgap, hgap_ne, hname_ne, hname, hrest⟩
    refine ⟨_, ⟨endsWord_gap hgap hgap_ne _, _, hfront, rfl⟩, ?_⟩
    rw [Text.words_append_left hgap, Text.words_append_of_endsWord hname_ne hname hrest]
    rfl
  · rintro ⟨rest, ⟨hrest, front, hfront, rfl⟩, hname⟩
    obtain ⟨more, hwords⟩ := List.head?_eq_some_iff.mp hname
    obtain ⟨hne, hsolid, gap, back, hgap, hback, rfl, -⟩ := Text.words_eq_cons_iff.mp hwords
    exact .intro hfront hgap (gap_ne_nil hrest hsolid.isTrimmed hne) hne hsolid hback

theorem bare_iff {keyword raw : Text} : Bare keyword raw ↔
    ∃ rest, OpensWith keyword rest raw ∧ (Text.words rest).head? = none := by
  simp only [List.head?_eq_none_iff, Text.words_eq_nil_iff]
  constructor
  · rintro ⟨hfront, hback⟩
    exact ⟨_, ⟨hback.endsWord, _, hfront, rfl⟩, hback⟩
  · rintro ⟨rest, ⟨-, front, hfront, rfl⟩, hback⟩
    exact .intro hfront hback

theorem described_iff {text raw : Text} : Described text raw ↔
    ∃ rest, OpensWith abbrWord rest raw ∧ Text.trim rest = text := by
  constructor
  · rintro ⟨hfront, hgap, hback, htext, hgap_ne⟩
    refine ⟨_, ⟨?_, _, hfront, rfl⟩, Text.trim_eq_iff.mpr ⟨htext, _, _, hgap, hback, rfl⟩⟩
    by_cases hne : text = []
    · subst hne
      have hrun : IsBlankRun _ := List.forall_mem_append.mpr ⟨hgap, hback⟩
      exact hrun.endsWord
    · exact endsWord_gap hgap (hgap_ne hne) _
  · rintro ⟨rest, ⟨hrest, front, hfront, rfl⟩, htrim⟩
    obtain ⟨htext, gap, back, hgap, hback, rfl⟩ := Text.trim_eq_iff.mp htrim
    exact .intro hfront hgap hback htext (gap_ne_nil hrest htext)

/-! ## Lines by their first word -/

theorem ofRaw_of_head?_trim {raw : Text} (h : (Text.trim raw).head? = some '#') :
    ofRaw raw = comment :=
  if_pos h

theorem ofRaw_of_isBlankRun {raw : Text} (h : IsBlankRun raw) : ofRaw raw = blank := by
  rw [ofRaw, Text.trim_eq_nil_iff.mpr h]
  rfl

section OpensWith

variable {rest raw : Text}

theorem ofRaw_snippetWord (h : OpensWith snippetWord rest raw) :
    ofRaw raw = header (Text.words rest).head? := by
  obtain ⟨hrest, front, hfront, rfl⟩ := h
  exact ofRaw_line hfront (by decide) (by decide) hrest (by decide)

theorem ofRaw_abbrWord (h : OpensWith abbrWord rest raw) : ofRaw raw = abbr (Text.trim rest) := by
  obtain ⟨hrest, front, hfront, rfl⟩ := h
  exact ofRaw_line hfront (by decide) (by decide) hrest (by decide)

theorem ofRaw_aliasWord (h : OpensWith aliasWord rest raw) :
    ofRaw raw = aliasName ((Text.words rest).headD []) := by
  obtain ⟨hrest, front, hfront, rfl⟩ := h
  exact ofRaw_line hfront (by decide) (by decide) hrest (by decide)

end OpensWith

/-- What the grammar reads has the meaning that the grammar gives it. -/
theorem Reads.ofRaw_eq {line : Line} {raw : Text} (h : line.Reads raw) : ofRaw raw = line := by
  cases h with
  | comment hfront =>
    have hsign : IsSolid ['#'] := by decide
    exact ofRaw_of_head?_trim (head?_trim_line hfront (List.cons_ne_nil _ _) hsign)
  | blank h => exact ofRaw_of_isBlankRun h
  | header h =>
    obtain ⟨rest, hopens, hname⟩ := named_iff.mp h
    rw [ofRaw_snippetWord hopens, hname]
  | bareHeader h =>
    obtain ⟨rest, hopens, hname⟩ := bare_iff.mp h
    rw [ofRaw_snippetWord hopens, hname]
  | abbr h =>
    obtain ⟨rest, hopens, htrim⟩ := described_iff.mp h
    rw [ofRaw_abbrWord hopens, htrim]
  | aliasName h =>
    obtain ⟨rest, hopens, hname⟩ := named_iff.mp h
    rw [ofRaw_aliasWord hopens, List.headD_eq_head?_getD, hname, Option.getD_some]
  | bareAlias h =>
    obtain ⟨rest, hopens, hname⟩ := bare_iff.mp h
    rw [ofRaw_aliasWord hopens, List.headD_eq_head?_getD, hname, Option.getD_none]
  | content hfront hne hword hrest hsign hsnippet habbr halias =>
    rw [ofRaw_line hfront hne hword hrest hsign, if_neg hsnippet, if_neg habbr, if_neg halias]

/-- The grammar reads every line. -/
theorem reads_ofRaw (raw : Text) : (ofRaw raw).Reads raw := by
  by_cases hcomment : (Text.trim raw).head? = some '#'
  · rw [ofRaw_of_head?_trim hcomment]
    obtain ⟨more, htrim⟩ := List.head?_eq_some_iff.mp hcomment
    obtain ⟨-, front, back, hfront, -, rfl⟩ := Text.trim_eq_iff.mp htrim
    exact .comment hfront
  by_cases hblank : Text.words raw = []
  · have hrun : IsBlankRun raw := Text.words_eq_nil_iff.mp hblank
    rw [ofRaw_of_isBlankRun hrun]
    exact .blank hrun
  obtain ⟨front, word, rest, hfront, hne, hword, hrest, rfl⟩ := Text.exists_first_word hblank
  have hopens : OpensWith word rest (front ++ (word ++ rest)) := ⟨hrest, front, hfront, rfl⟩
  rw [head?_trim_line hfront hne hword] at hcomment
  by_cases hsnippet : word = snippetWord
  · subst hsnippet
    rw [ofRaw_snippetWord hopens]
    cases hname : (Text.words rest).head? with
    | none => exact .bareHeader (bare_iff.mpr ⟨rest, hopens, hname⟩)
    | some name => exact .header (named_iff.mpr ⟨rest, hopens, hname⟩)
  by_cases habbr : word = abbrWord
  · subst habbr
    rw [ofRaw_abbrWord hopens]
    exact .abbr (described_iff.mpr ⟨rest, hopens, rfl⟩)
  by_cases halias : word = aliasWord
  · subst halias
    rw [ofRaw_aliasWord hopens, List.headD_eq_head?_getD]
    cases hname : (Text.words rest).head? with
    | none => exact .bareAlias (bare_iff.mpr ⟨rest, hopens, hname⟩)
    | some name => exact .aliasName (named_iff.mpr ⟨rest, hopens, hname⟩)
  · rw [ofRaw_line hfront hne hword hrest hcomment, if_neg hsnippet, if_neg habbr, if_neg halias]
    exact .content hfront hne hword hrest hcomment hsnippet habbr halias

/-! ## The bytes behind a keyword -/

/-- A description is what stands behind the bytes of its keyword, and these bytes can be cut off. -/
theorem exists_decode_drop_abbrWord {raw : Text}
    (h : (Text.words (Text.trim raw)).head? = some abbrWord) :
    (Text.trim raw).CutsAt 4 ∧
      ∃ rest, Utf8.decode ((Utf8.encode (Text.trim raw)).drop 4) = some rest ∧
        ofRaw raw = abbr (Text.trim rest) := by
  obtain ⟨more, hwords⟩ := List.head?_eq_some_iff.mp h
  rw [Text.words_trim] at hwords
  obtain ⟨hne, hword, front, rest, hfront, hrest, rfl, -⟩ := Text.words_eq_cons_iff.mp hwords
  have htrim : Text.trim (front ++ (abbrWord ++ rest)) = abbrWord ++ rest.trimEnd :=
    trim_line hfront hne hword
  have hbytes : (Utf8.encode abbrWord).length = abbrWord.length := rfl
  have hcut : (abbrWord ++ rest.trimEnd).CutsAt 4 := Text.cutsAt_length hbytes rest.trimEnd
  rw [htrim]
  refine ⟨hcut, rest.trimEnd, ?_, ?_⟩
  · rw [hcut.back]
    exact Utf8.decode_encode rest.trimEnd
  · rw [ofRaw_abbrWord ⟨hrest, front, hfront, rfl⟩, Text.trim_trimEnd]

/-- **Lines have exactly the meaning that the grammar gives them.** A line is content exactly when no
other rule reads it. Where a description is cut off behind its keyword, the four bytes of the keyword
lie inside the trimmed line and end between two characters. -/
theorem ofRaw_eq_iff_reads :
    (∀ (raw : Text) (line : Line), ofRaw raw = line ↔ line.Reads raw) ∧
      (∀ raw : Text, ofRaw raw = content ↔ ∀ line : Line, line ≠ content → ¬line.Reads raw) ∧
      Utf8.encode abbrWord = [0x61, 0x62, 0x62, 0x72] ∧
      ∀ raw : Text, (Text.words (Text.trim raw)).head? = some abbrWord →
        (Text.trim raw).CutsAt 4 ∧
          ∃ rest, Utf8.decode ((Utf8.encode (Text.trim raw)).drop 4) = some rest ∧
            ofRaw raw = abbr (Text.trim rest) := by
  have hreads (raw : Text) (line : Line) : ofRaw raw = line ↔ line.Reads raw := by
    constructor
    · rintro rfl
      exact reads_ofRaw raw
    · exact Reads.ofRaw_eq
  refine ⟨hreads, fun raw => ⟨?_, ?_⟩, rfl, fun raw => exists_decode_drop_abbrWord⟩
  · intro hcontent line hline hother
    exact hline (hother.ofRaw_eq.symm.trans hcontent)
  · intro hnone
    by_contra hcontent
    exact hnone (ofRaw raw) hcontent (reads_ofRaw raw)

/-- A description between white space of other kinds, which ends in a zero width space; and a
keyword that a zero width space goes on with. -/
theorem ofRaw_eq_iff_reads_wide_spaces :
    let described := "\u00a0abbr\u3000\u00e9 #\u200b\t".toList
    let glued := "abbr\u200b x".toList
    (Text.words (Text.trim described)).head? = some abbrWord ∧ (Text.trim described).CutsAt 4 ∧
      (abbr "\u00e9 #\u200b".toList).Reads described ∧
      content.Reads glued ∧ ¬(abbr "x".toList).Reads glued := by
  intro described glued
  obtain ⟨hreads, hcontent, -, hcuts⟩ := ofRaw_eq_iff_reads
  have hfirst : (Text.words (Text.trim described)).head? = some abbrWord := by decide
  have hglued : ofRaw glued = content := by decide
  refine ⟨hfirst, (hcuts described hfirst).1, (hreads _ _).mp (by decide), (hreads _ _).mp hglued, ?_⟩
  exact (hcontent glued).mp hglued _ (by decide)

end Snippets.Line
