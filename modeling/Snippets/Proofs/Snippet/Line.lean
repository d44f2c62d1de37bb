/-
# Snippets.Proofs.Snippet.Line — reading the meaning of a line backwards

`Line.Describes` says for each meaning what the line must have been. From it come the facts
about names, descriptions and aliases that hold however a line was written. The other way, the
meaning of a line follows from its first word and from what stands behind that word (`ofRaw_line`),
in particular for a line written as a keyword, a space and a text.
-/
import Snippets.Proofs.Text.Words
import Snippets.Snippet.Line

namespace Snippets.Line

/-- What a trimmed line must be to have a meaning. -/
def Describes : Line → Text → Prop
  | comment, trimmed => trimmed.head? = some '#'
  | blank, trimmed => trimmed.head? ≠ some '#' ∧ Text.words trimmed = []
  | header name, trimmed => ∃ more, Text.words trimmed = snippetWord :: more ∧ name = more.head?
  | abbr text, trimmed =>
    ∃ more, Text.words trimmed = abbrWord :: more ∧
      text = Text.trim (trimmed.drop abbrWord.length)
  | aliasName name, trimmed =>
    ∃ more, Text.words trimmed = aliasWord :: more ∧ name = more.headD []
  | content, trimmed =>
    trimmed.head? ≠ some '#' ∧ ∃ first more, Text.words trimmed = first :: more ∧
      first ≠ snippetWord ∧ first ≠ abbrWord ∧ first ≠ aliasWord

theorem describes_ofTrimmed (line : Text) : (ofTrimmed line).Describes line := by
  unfold ofTrimmed
  by_cases hcomment : line.head? = some '#'
  · simp [hcomment, Describes]
  · rw [if_neg hcomment]
    cases hwords : Text.words line with
    | nil => exact ⟨hcomment, hwords⟩
    | cons first more =>
      by_cases hsnippet : first = snippetWord
      · simp [hsnippet, Describes, hwords]
      by_cases habbr : first = abbrWord
      · simp [habbr, Describes, hwords, show abbrWord ≠ snippetWord by decide]
      by_cases halias : first = aliasWord
      · simp [halias, Describes, hwords, show aliasWord ≠ snippetWord by decide,
          show aliasWord ≠ abbrWord by decide]
      · simp [hcomment, Describes, hwords, hsnippet, habbr, halias]

theorem describes_of_ofRaw {raw : Text} {line : Line} (h : ofRaw raw = line) :
    line.Describes (Text.trim raw) := by
  rw [← h]
  exact describes_ofTrimmed (Text.trim raw)

/-! ## What a line can give -/

theorem name_of_header {raw name : Text} (h : ofRaw raw = header (some name)) :
    name ≠ [] ∧ Text.IsSolid name := by
  obtain ⟨more, hwords, hname⟩ := describes_of_ofRaw h
  have hmem : name ∈ Text.words (Text.trim raw) := by
    rw [hwords]
    exact List.mem_cons_of_mem _ (List.mem_of_mem_head? hname.symm)
  exact ⟨Text.ne_nil_of_mem_words hmem, Text.isSolid_of_mem_words hmem⟩

theorem isSolid_of_aliasName {raw name : Text} (h : ofRaw raw = aliasName name) :
    Text.IsSolid name := by
  obtain ⟨more, hwords, rfl⟩ := describes_of_ofRaw h
  cases more with
  | nil =>
    intro c hc
    exact absurd hc List.not_mem_nil
  | cons name more =>
    have hmem : name ∈ Text.words (Text.trim raw) := by
      rw [hwords]
      exact List.mem_cons_of_mem _ List.mem_cons_self
    exact Text.isSolid_of_mem_words hmem

theorem text_of_abbr {raw text : Text} (h : ofRaw raw = abbr text) :
    Text.IsTrimmed text ∧ text ⊆ raw := by
  obtain ⟨more, -, rfl⟩ := describes_of_ofRaw h
  refine ⟨Text.isTrimmed_trim _, List.Subset.trans (Text.trim_subset _) ?_⟩
  exact List.Subset.trans (List.drop_subset _ _) (Text.trim_subset raw)

/-- A body line is content exactly when it holds something that is not blank. -/
theorem isContent_eq (raw : Text) :
    (ofRaw raw).isContent = (!raw.all Text.isBlank && (ofRaw raw).isBody) := by
  have hwords : Text.words (Text.trim raw) = [] ↔ raw.all Text.isBlank = true := by
    rw [Text.words_trim, Text.words_eq_nil_iff, List.all_eq_true]
  cases hline : ofRaw raw with
  | blank =>
    obtain ⟨-, hnil⟩ := describes_of_ofRaw hline
    simp [isContent, hwords.mp hnil]
  | content =>
    obtain ⟨-, first, more, hcons, -⟩ := describes_of_ofRaw hline
    have hnot : raw.all Text.isBlank = false := by
      rw [← Bool.not_eq_true, ← hwords, hcons]
      simp
    simp [isContent, isBody, hnot]
  | _ => simp [isContent, isBody]

/-! ## The first word decides -/

section FirstWord

variable {front word rest : Text} (hfront : front.IsBlankRun) (hne : word ≠ [])
  (hword : word.IsSolid)
include hfront hne hword

theorem trim_line : Text.trim (front ++ (word ++ rest)) = word ++ rest.trimEnd := by
  rw [Text.trim_append_left hfront, Text.trim_append_of_isSolid hne hword]

/-- A line is a remark exactly when its first word begins with a number sign. -/
theorem head?_trim_line : (Text.trim (front ++ (word ++ rest))).head? = word.head? := by
  rw [trim_line hfront hne hword, List.head?_append_of_ne_nil _ hne]

/-- What a line means by its first word and what stands behind that word. -/
theorem ofRaw_line (hrest : rest.EndsWord) (hsign : word.head? ≠ some '#') :
    ofRaw (front ++ (word ++ rest)) =
      if word = snippetWord then header (Text.words rest).head?
      else if word = abbrWord then abbr (Text.trim rest)
      else if word = aliasWord then aliasName ((Text.words rest).headD [])
      else content := by
  have hwords : Text.words (Text.trim (front ++ (word ++ rest))) = word :: Text.words rest := by
    rw [Text.words_trim, Text.words_append_left hfront, Text.words_append_of_endsWord hne hword hrest]
  have hhead : (Text.trim (front ++ (word ++ rest))).head? ≠ some '#' := by
    rwa [head?_trim_line hfront hne hword]
  rw [ofRaw, ofTrimmed, if_neg hhead, hwords]
  by_cases habbr : word = abbrWord
  · -- behind the keyword nothing is lost but white space at the end
    rw [trim_line hfront hne hword, habbr, List.drop_left, Text.trim_trimEnd]
  · simp only [if_neg habbr]

end FirstWord

section Keyword

variable {keyword s : Text} (hkeyword : keyword.IsSolid) (hne : keyword ≠ [])
  (hsign : keyword.head? ≠ some '#')
include hkeyword hne hsign

/-- The meaning of a keyword, a space and a text. -/
theorem ofRaw_keyword : ofRaw (keyword ++ ' ' :: s) =
    if keyword = snippetWord then header (Text.words s).head?
    else if keyword = abbrWord then abbr (Text.trim s)
    else if keyword = aliasWord then aliasName ((Text.words s).headD [])
    else content := by
  have hspace : Text.isBlank ' ' = true := by decide
  have hrest : Text.EndsWord (' ' :: s) := Text.endsWord_cons hspace s
  have hline := ofRaw_line Text.isBlankRun_nil hne hkeyword hrest hsign
  rwa [List.nil_append, Text.words_cons_blank hspace, Text.trim_cons_blank hspace] at hline

end Keyword

theorem ofRaw_header {name : Text} (hne : name ≠ []) (h : Text.IsSolid name) :
    ofRaw (snippetWord ++ ' ' :: name) = header (some name) := by
  rw [ofRaw_keyword (by decide) (by decide) (by decide), Text.words_of_isSolid hne h]
  rfl

theorem ofRaw_aliasName {name : Text} (hne : name ≠ []) (h : Text.IsSolid name) :
    ofRaw (aliasWord ++ ' ' :: name) = aliasName name := by
  rw [ofRaw_keyword (by decide) (by decide) (by decide), Text.words_of_isSolid hne h]
  rfl

theorem ofRaw_abbr {text : Text} (h : Text.IsTrimmed text) :
    ofRaw (abbrWord ++ ' ' :: text) = abbr text := by
  rw [ofRaw_keyword (by decide) (by decide) (by decide), Text.trim_eq_self h]
  rfl

end Snippets.Line
