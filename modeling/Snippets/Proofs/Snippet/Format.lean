/-
# Snippets.Proofs.Snippet.Format — the file format and the snippets it can hold

A well-formed snippet has a name of one word, an alias without white space, a description of one
line that is blank at neither end, and a body of at least one line, none of which reads as a comment
or a keyword line; its margin is the least indentation of a body line that is not blank.

Every snippet that is read from a text is well formed, and every list of well-formed snippets is read
back from its file, the text that writes each snippet as its header, its alias and description if
there are any, and its body lines (`exists_ofText_eq_iff_wellFormed`). Both halves go section by
section: `wellFormed_ofBelow` for what a section can give, `ofSections_fileLines` for the section that
a snippet is written as.
-/
import Snippets.Proofs.Snippet.Line
import Snippets.Proofs.Snippet.Sections
import Snippets.Proofs.Text.Lines

namespace Snippets.Snippet

/-! ## Well-formed snippets -/

/-- A line that can stand in a body. -/
structure IsBodyLine (line : Text) : Prop where
  /-- It is one line. -/
  one_line : '\n' ∉ line
  /-- It is no comment. -/
  not_comment : (Text.trim line).head? ≠ some '#'
  /-- Its first word is no keyword. -/
  not_keyword : ∀ word ∈ (Text.words (Text.trim line)).head?,
    word ≠ Line.snippetWord ∧ word ≠ Line.abbrWord ∧ word ≠ Line.aliasWord

instance (line : Text) : Decidable (IsBodyLine line) :=
  decidable_of_iff _ ⟨fun h => IsBodyLine.mk h.1 h.2.1 h.2.2,
    fun h => And.intro h.one_line (And.intro h.not_comment h.not_keyword)⟩

/-- The margin of a body: the least indentation of a line that is not blank. -/
def margin (body : List Text) : Option Nat :=
  ((body.filter fun line => !line.all Text.isBlank).map Text.indentation).min?

/-- A snippet that a file can hold. -/
structure WellFormed (s : Snippet) : Prop where
  /-- There is a name. -/
  name_ne_nil : s.name ≠ []
  /-- The name is one word. -/
  name_solid : Text.IsSolid s.name
  /-- The alias is one word or empty. -/
  alias_solid : Text.IsSolid s.aliasName
  /-- The description is one line. -/
  abbr_line : '\n' ∉ s.abbr
  /-- The description is blank at neither end. -/
  abbr_trimmed : Text.IsTrimmed s.abbr
  /-- There is a body. -/
  body_ne_nil : s.body ≠ []
  /-- Its lines can stand in a body. -/
  body_lines : ∀ line ∈ s.body, IsBodyLine line
  /-- The margin is that of the body. -/
  minIndent_eq : s.minIndent = margin s.body

instance (s : Snippet) : Decidable (WellFormed s) :=
  decidable_of_iff (_ ∧ _ ∧ _ ∧ _ ∧ _ ∧ _ ∧ _ ∧ _)
    ⟨fun ⟨h₁, h₂, h₃, h₄, h₅, h₆, h₇, h₈⟩ => WellFormed.mk h₁ h₂ h₃ h₄ h₅ h₆ h₇ h₈,
      fun ⟨h₁, h₂, h₃, h₄, h₅, h₆, h₇, h₈⟩ => ⟨h₁, h₂, h₃, h₄, h₅, h₆, h₇, h₈⟩⟩

/-! ## What a section gives is well formed -/

theorem isBody_iff {raw : Text} (h : '\n' ∉ raw) :
    (Line.ofRaw raw).isBody = true ↔ IsBodyLine raw := by
  cases hline : Line.ofRaw raw
  all_goals have hspec := Line.describes_of_ofRaw hline
  case comment =>
    constructor
    · intro hbody
      exact absurd hbody (by decide)
    · intro hbody
      exact absurd hspec hbody.not_comment
  case blank =>
    have hbody : IsBodyLine raw := by
      refine ⟨h, hspec.1, ?_⟩
      intro word hword
      rw [hspec.2] at hword
      exact absurd hword (by simp)
    exact iff_of_true rfl hbody
  case content =>
    obtain ⟨hcomment, first, more, hwords, hkeyword⟩ := hspec
    have hbody : IsBodyLine raw := by
      refine ⟨h, hcomment, ?_⟩
      intro word hword
      rw [hwords] at hword
      obtain rfl : first = word := by simpa using hword
      exact hkeyword
    exact iff_of_true rfl hbody
  -- the first word of the other lines is a keyword
  all_goals
    obtain ⟨more, hwords, -⟩ := hspec
    refine iff_of_false (by simp [Line.isBody]) ?_
    intro hbody
    have hkeyword := hbody.not_keyword _ (by rw [hwords]; rfl)
    simp at hkeyword

/-- What holds of the empty text and of all that a line gives holds of what is given last. -/
theorem lastGiven_getD {given? : Line → Option Text} {ls : List Text} {P : Text → Prop}
    (hnone : P []) (hsome : ∀ raw ∈ ls, ∀ text, given? (Line.ofRaw raw) = some text → P text) :
    P ((lastGiven given? ls).getD []) := by
  cases h : lastGiven given? ls with
  | none => exact hnone
  | some text =>
    obtain ⟨raw, hraw, hgiven⟩ := List.mem_filterMap.mp (List.mem_of_mem_getLast? h)
    exact hsome raw hraw text hgiven

theorem eq_abbr_of_abbr? {line : Line} {text : Text} (h : line.abbr? = some text) :
    line = .abbr text := by
  cases line <;> simp_all [Line.abbr?]

theorem eq_aliasName_of_aliasName? {line : Line} {name : Text} (h : line.aliasName? = some name) :
    line = .aliasName name := by
  cases line <;> simp_all [Line.aliasName?]

/-- The margin counts the content lines: they are the body lines that are not blank. -/
theorem margin_bodyLines (ls : List Text) : margin (bodyLines ls) = leastIndentation ls := by
  unfold margin bodyLines leastIndentation
  rw [List.filter_filter]
  simp only [Line.isContent_eq]

theorem wellFormed_ofBelow {name : Text} {below : List Text} (hne : name ≠ [])
    (hname : Text.IsSolid name) (hbelow : ∀ raw ∈ below, '\n' ∉ raw)
    (hbody : bodyLines below ≠ []) : WellFormed (ofBelow name below) where
  name_ne_nil := hne
  name_solid := hname
  alias_solid := lastGiven_getD (by simp [Text.IsSolid]) fun _ _ _ hgiven =>
    Line.isSolid_of_aliasName (eq_aliasName_of_aliasName? hgiven)
  abbr_line := lastGiven_getD (P := fun text => '\n' ∉ text) (by simp) fun raw hraw _ hgiven hmem =>
    hbelow raw hraw ((Line.text_of_abbr (eq_abbr_of_abbr? hgiven)).2 hmem)
  abbr_trimmed := lastGiven_getD ⟨by simp, by simp⟩ fun _ _ _ hgiven =>
    (Line.text_of_abbr (eq_abbr_of_abbr? hgiven)).1
  body_ne_nil := hbody
  body_lines := by
    intro line hline
    obtain ⟨hmem, hisBody⟩ := List.mem_filter.mp hline
    exact (isBody_iff (hbelow line hmem)).mp hisBody
  minIndent_eq := (margin_bodyLines below).symm

/-- Every snippet of lines without line feeds is well formed. -/
theorem wellFormed_of_mem_ofSections {ls : List Text} (hls : ∀ raw ∈ ls, '\n' ∉ raw) {s : Snippet}
    (h : s ∈ ofSections ls) : WellFormed s := by
  obtain ⟨lines, hlines, hsection⟩ := List.mem_filterMap.mp h
  have hsubset : ∀ raw ∈ lines, '\n' ∉ raw := by
    intro raw hraw
    apply hls raw
    rw [← List.flatten_splitBy (fun _ next : Text => !next.isHeader) ls]
    exact List.mem_flatten.mpr ⟨lines, hlines, hraw⟩
  unfold ofSection? at hsection
  split at hsection
  · exact absurd hsection (by simp)
  · rename_i first below
    split at hsection
    · rename_i name hheader
      obtain ⟨heq, hbody⟩ := Option.filter_eq_some_iff.mp hsection
      obtain rfl := Option.some.inj heq
      obtain ⟨hne, hname⟩ := Line.name_of_header hheader
      apply wellFormed_ofBelow hne hname
      · intro raw hraw
        exact hsubset raw (List.mem_cons_of_mem _ hraw)
      · simpa [ofBelow] using hbody
    · exact absurd hsection (by simp)

/-! ## The section that a snippet is written as -/

/-- The line of a keyword with a text, left out when the text is empty. -/
def keywordLine (word text : Text) : List Text :=
  if text.isEmpty then [] else [word ++ ' ' :: text]

/-- The lines of a snippet in a file. -/
def fileLines (s : Snippet) : List Text :=
  (Line.snippetWord ++ ' ' :: s.name) ::
    (keywordLine Line.aliasWord s.aliasName ++ keywordLine Line.abbrWord s.abbr ++ s.body)

/-- The file of a list of snippets: their lines, each ended by a carriage return and a line feed. -/
def file (ss : List Snippet) : Text := Text.ended (ss.flatMap fileLines)

/-- A keyword line is left out or holds the keyword and the text. -/
theorem keywordLine_cases (word text : Text) :
    text = [] ∧ keywordLine word text = [] ∨
      text ≠ [] ∧ keywordLine word text = [word ++ ' ' :: text] := by
  by_cases hne : text = []
  · exact .inl ⟨hne, by simp [keywordLine, hne]⟩
  · exact .inr ⟨hne, by simp [keywordLine, hne]⟩

theorem newline_notMem_keyword {word text : Text} (hword : Text.IsSolid word)
    (htext : '\n' ∉ text) : '\n' ∉ word ++ ' ' :: text := by
  simp [hword.newline_notMem, htext]

theorem newline_notMem_keywordLine {word text line : Text} (hword : Text.IsSolid word)
    (htext : '\n' ∉ text) (hline : line ∈ keywordLine word text) : '\n' ∉ line := by
  rcases keywordLine_cases word text with ⟨-, habsent⟩ | ⟨-, honly⟩
  · rw [habsent] at hline
    exact absurd hline List.not_mem_nil
  · rw [honly, List.mem_singleton] at hline
    rw [hline]
    exact newline_notMem_keyword hword htext

theorem mem_tail_fileLines {s : Snippet} {line : Text} (h : line ∈ s.fileLines.tail) :
    line ∈ keywordLine Line.aliasWord s.aliasName ∨ line ∈ keywordLine Line.abbrWord s.abbr ∨
      line ∈ s.body := by
  rcases List.mem_append.mp h with h | h
  · exact (List.mem_append.mp h).imp_right .inl
  · exact .inr (.inr h)

namespace WellFormed

variable {s : Snippet} (h : WellFormed s)
include h

theorem isBody_of_mem {line : Text} (hline : line ∈ s.body) : (Line.ofRaw line).isBody = true :=
  (isBody_iff (h.body_lines line hline).one_line).mpr (h.body_lines line hline)

theorem lastGiven_body {given? : Line → Option Text}
    (hgiven : ∀ line : Line, line.isBody = true → given? line = none) :
    lastGiven given? s.body = none := by
  unfold lastGiven
  rw [List.filterMap_eq_nil_iff.mpr fun line hline => hgiven _ (h.isBody_of_mem hline)]
  rfl

theorem bodyLines_body : bodyLines s.body = s.body :=
  List.filter_eq_self.mpr fun _ hline => h.isBody_of_mem hline

theorem leastIndentation_body : leastIndentation s.body = s.minIndent := by
  rw [← margin_bodyLines, h.bodyLines_body, h.minIndent_eq]

/-- A keyword line is absent or has the meaning that its keyword gives it. -/
theorem keywordLine_alias : s.aliasName = [] ∧ keywordLine Line.aliasWord s.aliasName = [] ∨
    ∃ raw, keywordLine Line.aliasWord s.aliasName = [raw] ∧
      Line.ofRaw raw = .aliasName s.aliasName := by
  rcases keywordLine_cases Line.aliasWord s.aliasName with habsent | ⟨hne, honly⟩
  · exact .inl habsent
  · exact .inr ⟨_, honly, Line.ofRaw_aliasName hne h.alias_solid⟩

theorem keywordLine_abbr : s.abbr = [] ∧ keywordLine Line.abbrWord s.abbr = [] ∨
    ∃ raw, keywordLine Line.abbrWord s.abbr = [raw] ∧ Line.ofRaw raw = .abbr s.abbr := by
  rcases keywordLine_cases Line.abbrWord s.abbr with habsent | ⟨-, honly⟩
  · exact .inl habsent
  · exact .inr ⟨_, honly, Line.ofRaw_abbr h.abbr_trimmed⟩

/-- The lines below the header give the snippet back. -/
theorem ofBelow_fileLines : ofBelow s.name s.fileLines.tail = s := by
  have habbr : lastGiven Line.abbr? s.body = none :=
    h.lastGiven_body fun line hline => by cases line <;> simp_all [Line.isBody, Line.abbr?]
  have halias : lastGiven Line.aliasName? s.body = none :=
    h.lastGiven_body fun line hline => by cases line <;> simp_all [Line.isBody, Line.aliasName?]
  have hbody := h.bodyLines_body
  have hleast := h.leastIndentation_body
  obtain ⟨name, abbr, aliasName, body, minIndent⟩ := s
  simp only at habbr halias hbody hleast
  -- each of the two keyword lines is there or not
  rcases h.keywordLine_alias with ⟨rfl, hline⟩ | ⟨raw, hline, hraw⟩ <;>
    rcases h.keywordLine_abbr with ⟨rfl, hline'⟩ | ⟨raw', hline', hraw'⟩ <;>
    simp_all [fileLines, ofBelow, lastGiven_cons, bodyLines_cons, leastIndentation_cons,
      Line.abbr?, Line.aliasName?, Line.isBody, Line.isContent]

/-- Below the header of a written snippet there is no other header. -/
theorem isHeader_of_mem_tail {line : Text} (hline : line ∈ s.fileLines.tail) :
    line.isHeader = false := by
  unfold Text.isHeader
  rcases mem_tail_fileLines hline with hline | hline | hline
  · rcases h.keywordLine_alias with ⟨-, habsent⟩ | ⟨raw, honly, hraw⟩
    · simp [habsent] at hline
    · obtain rfl : line = raw := by simpa [honly] using hline
      rw [hraw]
      rfl
  · rcases h.keywordLine_abbr with ⟨-, habsent⟩ | ⟨raw, honly, hraw⟩
    · simp [habsent] at hline
    · obtain rfl : line = raw := by simpa [honly] using hline
      rw [hraw]
      rfl
  · have hbody := h.isBody_of_mem hline
    cases hmeaning : Line.ofRaw line <;> simp_all [Line.isBody, Line.isHeader]

/-- The section of a written snippet gives the snippet. -/
theorem ofSections_fileLines : ofSections s.fileLines = [s] := by
  have hsection : ofSection? s.fileLines = some s := by
    have hbelow : ofBelow s.name (keywordLine Line.aliasWord s.aliasName ++
      keywordLine Line.abbrWord s.abbr ++ s.body) = s := h.ofBelow_fileLines
    rw [fileLines, ofSection?, Line.ofRaw_header h.name_ne_nil h.name_solid]
    simp only [hbelow]
    simp [h.body_ne_nil]
  have hone : sections s.fileLines = [s.fileLines] :=
    sections_of_headerless _ fun _ hline => h.isHeader_of_mem_tail hline
  rw [ofSections, hone, List.filterMap_cons_some hsection, List.filterMap_nil]

/-- Every line of a written snippet is one line. -/
theorem newline_notMem_fileLines {line : Text} (hline : line ∈ s.fileLines) : '\n' ∉ line := by
  rcases List.mem_cons.mp hline with rfl | hline
  · exact newline_notMem_keyword (by decide) h.name_solid.newline_notMem
  · rcases mem_tail_fileLines hline with hline | hline | hline
    · exact newline_notMem_keywordLine (by decide) h.alias_solid.newline_notMem hline
    · exact newline_notMem_keywordLine (by decide) h.abbr_line hline
    · exact (h.body_lines line hline).one_line

end WellFormed

/-! ## The file of a list of snippets -/

theorem ofSections_flatMap_fileLines {ss : List Snippet} (hss : ∀ s ∈ ss, WellFormed s) :
    ofSections (ss.flatMap fileLines) = ss := by
  induction ss with
  | nil => rfl
  | cons s ss ih =>
    rw [List.forall_mem_cons] at hss
    -- what follows starts with a header or is nothing, so the cut falls between the snippets
    have hnext : ∀ raw ∈ (ss.flatMap fileLines).head?, raw.isHeader = true := by
      intro raw hraw
      cases ss with
      | nil => exact absurd hraw (by simp)
      | cons next ss =>
        have hwf := (List.forall_mem_cons.mp hss.2).1
        obtain rfl : Line.snippetWord ++ ' ' :: next.name = raw := Option.some.inj hraw
        rw [Text.isHeader, Line.ofRaw_header hwf.name_ne_nil hwf.name_solid]
        rfl
    rw [List.flatMap_cons, ofSections_append hnext, hss.1.ofSections_fileLines, ih hss.2,
      List.singleton_append]

theorem ofLines_eq_ofSections (ls : List Text) : ofLines ls = ofSections ls :=
  Reader.snippets_readLines [] none ls

theorem ofText_eq_ofSections (s : Text) : ofText s = ofSections s.lines :=
  ofLines_eq_ofSections s.lines

theorem ofText_file {ss : List Snippet} (hss : ∀ s ∈ ss, WellFormed s) : ofText (file ss) = ss := by
  have hlines : ∀ line ∈ ss.flatMap fileLines, '\n' ∉ line := by
    intro line hline
    obtain ⟨s, hs, hline⟩ := List.mem_flatMap.mp hline
    exact (hss s hs).newline_notMem_fileLines hline
  rw [ofText_eq_ofSections, file, Text.lines_ended hlines, ofSections_flatMap_fileLines hss]

/-- **What can be read is what is well formed.** Every snippet of a text is well formed, and the file
of well-formed snippets is read back as them; so the lists of snippets that some text holds are the
lists of well-formed snippets. -/
theorem exists_ofText_eq_iff_wellFormed :
    (∀ text : Text, ∀ s ∈ ofText text, WellFormed s) ∧
    (∀ ss : List Snippet, (∀ s ∈ ss, WellFormed s) → ofText (file ss) = ss) ∧
    ∀ ss : List Snippet, (∃ text, ofText text = ss) ↔ ∀ s ∈ ss, WellFormed s := by
  have hread : ∀ text : Text, ∀ s ∈ ofText text, WellFormed s := by
    intro text s hs
    rw [ofText_eq_ofSections] at hs
    exact wellFormed_of_mem_ofSections (fun _ => Text.newline_notMem_of_mem_lines) hs
  refine ⟨hread, ?_, ?_⟩
  · intro ss hss
    exact ofText_file hss
  · intro ss
    constructor
    · rintro ⟨text, rfl⟩
      exact hread text
    · intro hss
      exact ⟨file ss, ofText_file hss⟩

/-- A name with a number sign, a description with a carriage return inside, body lines that are
blank, end with a carriage return or hold one, a body with a margin of two spaces, and a body of
blanks without a margin. -/
theorem ofText_file_carriage_returns :
    let ss : List Snippet := [
      { name := "#n".toList, abbr := "a\rb  c".toList, aliasName := "x#".toList,
        body := ["   ".toList, "\r".toList, "  snippets\r".toList, "\t$0".toList, [],
          "    a\rb #".toList],
        minIndent := some 0 },
      { name := "m".toList, abbr := [], aliasName := "y".toList,
        body := ["    if\r".toList, " ".toList, "  fi".toList], minIndent := some 2 },
      { name := "n".toList, abbr := [], aliasName := [], body := [" \r ".toList], minIndent := none }]
    (∀ s ∈ ss, WellFormed s) ∧ ofText (file ss) = ss := by
  intro ss
  have hss : ∀ s ∈ ss, WellFormed s := by decide
  exact ⟨hss, exists_ofText_eq_iff_wellFormed.2.1 ss hss⟩

end Snippets.Snippet
