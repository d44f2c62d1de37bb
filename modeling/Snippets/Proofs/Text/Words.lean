/-
# Snippets.Proofs.Text.Words — laws of trimming and of words

A text is *solid* when no character of it is blank. Trimming leaves a text that is blank at neither
end as it is, and gives nothing exactly for a text of blanks. Words are solid and not empty; a solid
text is its only word, and a blank character separates the words before it from those behind it.

Both can be read backwards. A text trims to another exactly when it is that one between two runs of
white space (`trim_eq_iff`), and it has a first word exactly when that word stands behind a run of
white space and ends where white space or nothing follows (`words_eq_cons_iff`).
-/
import Mathlib.Data.List.DropRight
import Snippets.Text.Blank

namespace Snippets.Text

/-- A text without white space. -/
def IsSolid (s : Text) : Prop := ∀ c ∈ s, isBlank c = false

instance (s : Text) : Decidable (IsSolid s) := List.decidableBAll (fun c => isBlank c = false) s

/-- A text that is blank at neither end. -/
structure IsTrimmed (s : Text) : Prop where
  /-- The first character is not blank. -/
  head : ∀ c ∈ s.head?, isBlank c = false
  /-- The last character is not blank. -/
  last : ∀ c ∈ s.getLast?, isBlank c = false

instance (s : Text) : Decidable (IsTrimmed s) :=
  have (o : Option Char) : Decidable (∀ c ∈ o, isBlank c = false) := Option.decidableForallMem o
  decidable_of_iff _ ⟨fun h => IsTrimmed.mk h.1 h.2, fun h => And.intro h.head h.last⟩

theorem IsSolid.isTrimmed {s : Text} (h : IsSolid s) : IsTrimmed s where
  head := by
    intro c hc
    exact h c (List.mem_of_mem_head? hc)
  last := by
    intro c hc
    exact h c (List.mem_of_mem_getLast? hc)

/-- No white space of any kind stands in a solid text. -/
theorem IsSolid.notMem {s : Text} (h : IsSolid s) {c : Char} (hc : isBlank c = true) : c ∉ s := by
  intro hmem
  rw [h c hmem] at hc
  exact Bool.false_ne_true hc

/-- A line feed is blank. -/
theorem IsSolid.newline_notMem {s : Text} (h : IsSolid s) : '\n' ∉ s := h.notMem (by decide)

/-! ## Trimming -/

theorem trimEnd_eq_rdropWhile (s : Text) : trimEnd s = s.rdropWhile isBlank := rfl

theorem trim_eq_self {s : Text} (h : IsTrimmed s) : trim s = s := by
  have hstart : trimStart s = s := by
    cases s with
    | nil => rfl
    | cons c rest => exact List.dropWhile_cons_of_neg (by simp [h.head c rfl])
  rw [trim, hstart, trimEnd_eq_rdropWhile, List.rdropWhile_eq_self_iff]
  intro hne
  simp [h.last _ (List.getLast?_eq_some_getLast hne)]

theorem trim_cons_blank {c : Char} (h : isBlank c = true) (s : Text) : trim (c :: s) = trim s := by
  rw [trim, trimStart, List.dropWhile_cons_of_pos h]
  rfl

theorem trim_prefix_trimStart (s : Text) : trim s <+: trimStart s :=
  List.rdropWhile_prefix isBlank (trimStart s)

theorem isBlank_of_head?_trimStart {s : Text} {c : Char} (h : c ∈ (trimStart s).head?) :
    isBlank c = false := by
  have hnot := List.head?_dropWhile_not isBlank s
  rw [show (s.dropWhile isBlank).head? = some c from h] at hnot
  exact hnot

theorem isTrimmed_trim (s : Text) : IsTrimmed (trim s) where
  head := by
    intro c hc
    obtain ⟨back, hback⟩ := trim_prefix_trimStart s
    refine isBlank_of_head?_trimStart (s := s) ?_
    rw [← hback, List.head?_append, hc]
    rfl
  last := by
    intro c hc
    obtain ⟨hne, rfl⟩ := List.mem_getLast?_eq_getLast hc
    have hnot := List.rdropWhile_last_not isBlank (trimStart s) hne
    exact Bool.eq_false_iff.mpr hnot

/-- Trimming keeps some of the characters and brings in none. -/
theorem trim_subset (s : Text) : trim s ⊆ s :=
  List.Subset.trans (trim_prefix_trimStart s).subset (List.dropWhile_suffix _).subset

theorem trim_eq_nil_iff {s : Text} : trim s = [] ↔ ∀ c ∈ s, isBlank c = true := by
  rw [trim, trimEnd_eq_rdropWhile, List.rdropWhile_eq_nil_iff]
  constructor
  · intro hall
    refine List.dropWhile_eq_nil_iff.mp ?_
    cases hstart : trimStart s with
    | nil => exact hstart
    | cons c rest =>
      have hblank : isBlank c = true := hall c (by rw [hstart]; exact List.mem_cons_self)
      rw [isBlank_of_head?_trimStart (s := s) (by rw [hstart]; rfl)] at hblank
      exact absurd hblank Bool.false_ne_true
  · intro h c hc
    exact h c ((List.dropWhile_suffix _).subset hc)

/-! ## Words -/

/-- A piece between separators holds what was split, and what was passed already, but no separator. -/
theorem of_mem_splitOnPPrepend {α : Type} {p : α → Bool} {s passed piece : List α}
    (h : piece ∈ s.splitOnPPrepend p passed) {a : α} (ha : a ∈ piece) :
    a ∈ passed ∨ a ∈ s ∧ p a = false := by
  -- `passed` holds the elements since the last separator
  induction s generalizing passed with
  | nil =>
    obtain rfl : piece = passed.reverse := by simpa using h
    exact .inl (List.mem_reverse.mp ha)
  | cons b s ih =>
    cases hb : p b with
    | true =>
      rw [List.splitOnPPrepend_cons_pos hb, List.mem_cons] at h
      rcases h with rfl | h
      · exact .inl (List.mem_reverse.mp ha)
      · rcases ih h with hnil | ⟨hmem, hpa⟩
        · exact absurd hnil List.not_mem_nil
        · exact .inr ⟨List.mem_cons_of_mem b hmem, hpa⟩
    | false =>
      rw [List.splitOnPPrepend_cons_neg hb] at h
      rcases ih h with hpassed | ⟨hmem, hpa⟩
      · rcases List.mem_cons.mp hpassed with rfl | hpassed
        · exact .inr ⟨List.mem_cons_self, hb⟩
        · exact .inl hpassed
      · exact .inr ⟨List.mem_cons_of_mem b hmem, hpa⟩

/-- A piece between separators holds what was split, but no separator. -/
theorem of_mem_splitOnP {α : Type} {p : α → Bool} {s piece : List α} (h : piece ∈ s.splitOnP p)
    {a : α} (ha : a ∈ piece) : a ∈ s ∧ p a = false :=
  (of_mem_splitOnPPrepend h ha).resolve_left List.not_mem_nil

theorem isSolid_of_mem_words {s word : Text} (h : word ∈ words s) : IsSolid word := by
  intro c hc
  exact (of_mem_splitOnP (List.mem_filter.mp h).1 hc).2

theorem words_of_isSolid {s : Text} (hne : s ≠ []) (h : IsSolid s) : words s = [s] := by
  rw [words, List.splitOnP_eq_singleton h]
  simp [hne]

/-- A blank separates words. -/
theorem words_append_blank {c : Char} (hc : isBlank c = true) (s t : Text) :
    words (s ++ c :: t) = words s ++ words t := by
  rw [words, List.splitOnP_append_cons s t hc, List.filter_append]
  rfl

theorem words_cons_blank {c : Char} (hc : isBlank c = true) (s : Text) :
    words (c :: s) = words s :=
  words_append_blank hc [] s

theorem words_eq_nil_iff {s : Text} : words s = [] ↔ ∀ c ∈ s, isBlank c = true := by
  induction s with
  | nil => simp
  | cons c s ih =>
    rw [List.forall_mem_cons]
    cases hc : isBlank c with
    | true =>
      rw [words_cons_blank hc, ih]
      simp
    | false =>
      obtain ⟨first, more, hsplit⟩ :=
        List.exists_cons_of_ne_nil (List.splitOnP_ne_nil isBlank s)
      simp [words, List.splitOnP_cons_eq_if_modifyHead, hc, hsplit]

/-! ## Runs of white space -/

/-- A run of white space, which may be empty. -/
def IsBlankRun (s : Text) : Prop := ∀ c ∈ s, isBlank c = true

instance (s : Text) : Decidable (IsBlankRun s) :=
  List.decidableBAll (fun c => isBlank c = true) s

theorem isBlankRun_nil : IsBlankRun [] := List.forall_mem_nil _

theorem isBlankRun_takeWhile (s : Text) : IsBlankRun (s.takeWhile isBlank) :=
  fun _ hc => List.mem_takeWhile_imp hc

theorem isBlankRun_rtakeWhile (s : Text) : IsBlankRun (s.rtakeWhile isBlank) :=
  fun _ hc => List.mem_rtakeWhile_imp hc

section Runs

variable {front back : Text}

/-- A text is what it trims to, between two runs of white space. -/
theorem exists_eq_append_trim (s : Text) :
    ∃ front back, IsBlankRun front ∧ IsBlankRun back ∧ s = front ++ (trim s ++ back) := by
  refine ⟨s.takeWhile isBlank, (trimStart s).rtakeWhile isBlank, isBlankRun_takeWhile s,
    isBlankRun_rtakeWhile _, ?_⟩
  rw [trim, trimEnd_eq_rdropWhile, List.rdropWhile_append_rtakeWhile, trimStart,
    List.takeWhile_append_dropWhile]

theorem trim_append_left (h : IsBlankRun front) (s : Text) : trim (front ++ s) = trim s := by
  rw [trim, trimStart, List.dropWhile_append_of_pos h]
  rfl

theorem trimEnd_append_right (h : IsBlankRun back) (s : Text) :
    trimEnd (s ++ back) = trimEnd s := by
  have hreverse : ∀ c ∈ back.reverse, isBlank c = true := fun c hc => h c (List.mem_reverse.mp hc)
  rw [trimEnd, List.reverse_append, List.dropWhile_append_of_pos hreverse]
  rfl

theorem trim_append_right (h : IsBlankRun back) (s : Text) : trim (s ++ back) = trim s := by
  rw [trim, trimStart, List.dropWhile_append]
  split
  · rename_i hblank
    rw [List.dropWhile_eq_nil_iff.mpr h, trim, trimStart, List.isEmpty_iff.mp hblank]
  · rw [trimEnd_append_right h]
    rfl

/-- A text trims to another when it is that one between two runs of white space. -/
theorem trim_eq_iff {s t : Text} : trim s = t ↔
    IsTrimmed t ∧ ∃ front back, IsBlankRun front ∧ IsBlankRun back ∧ s = front ++ (t ++ back) := by
  constructor
  · rintro rfl
    exact ⟨isTrimmed_trim s, exists_eq_append_trim s⟩
  · rintro ⟨ht, front, back, hfront, hback, rfl⟩
    rw [trim_append_left hfront, trim_append_right hback, trim_eq_self ht]

theorem trim_trimEnd (s : Text) : trim (trimEnd s) = trim s := by
  have hback : IsBlankRun (s.rtakeWhile isBlank) := isBlankRun_rtakeWhile s
  have hparts : trimEnd s ++ s.rtakeWhile isBlank = s := List.rdropWhile_append_rtakeWhile
  calc trim (trimEnd s)
      = trim (trimEnd s ++ s.rtakeWhile isBlank) := (trim_append_right hback _).symm
    _ = trim s := by rw [hparts]

/-- A word at the start is kept, whatever stands behind it. -/
theorem trim_append_of_isSolid {word : Text} (hne : word ≠ []) (h : IsSolid word) (rest : Text) :
    trim (word ++ rest) = word ++ trimEnd rest := by
  have hstart : trimStart (word ++ rest) = word ++ rest := by
    obtain ⟨c, more, rfl⟩ := List.exists_cons_of_ne_nil hne
    exact List.dropWhile_cons_of_neg (by simp [h c List.mem_cons_self])
  have hword : trimEnd word = word := by
    rw [trimEnd_eq_rdropWhile, List.rdropWhile_eq_self_iff]
    intro hne
    simp [h _ (List.getLast_mem hne)]
  rw [trim, hstart, trimEnd, List.reverse_append, List.dropWhile_append]
  split
  · rename_i hblank
    have hrest : trimEnd rest = [] := by rw [trimEnd, List.isEmpty_iff.mp hblank, List.reverse_nil]
    rw [hrest, List.append_nil]
    exact hword
  · rw [List.reverse_append, List.reverse_reverse]
    rfl

theorem words_append_left (h : IsBlankRun front) (s : Text) : words (front ++ s) = words s := by
  induction front with
  | nil => rfl
  | cons c front ih =>
    obtain ⟨hc, hfront⟩ := List.forall_mem_cons.mp h
    rw [List.cons_append, words_cons_blank hc, ih hfront]

theorem words_append_right (h : IsBlankRun back) (s : Text) : words (s ++ back) = words s := by
  cases back with
  | nil => rw [List.append_nil]
  | cons c back =>
    obtain ⟨hc, hback⟩ := List.forall_mem_cons.mp h
    rw [words_append_blank hc, words_eq_nil_iff.mpr hback, List.append_nil]

/-- Trimming takes no word away. -/
theorem words_trim (s : Text) : words (trim s) = words s := by
  obtain ⟨front, back, hfront, hback, hs⟩ := exists_eq_append_trim s
  conv_rhs => rw [hs, words_append_left hfront, words_append_right hback]

end Runs

/-! ## The first word -/

/-- A text that a word in front of it does not run into: it is empty or starts with white space. -/
def EndsWord (rest : Text) : Prop := ∀ c ∈ rest.head?, isBlank c = true

instance (rest : Text) : Decidable (EndsWord rest) := Option.decidableForallMem rest.head?

theorem IsBlankRun.endsWord {s : Text} (h : IsBlankRun s) : EndsWord s :=
  fun c hc => h c (List.mem_of_mem_head? hc)

theorem endsWord_cons {c : Char} (h : isBlank c = true) (rest : Text) : EndsWord (c :: rest) := by
  intro d hd
  obtain rfl : c = d := Option.some.inj hd
  exact h

/-- A solid text up to white space or to the end is a word. -/
theorem words_append_of_endsWord {word rest : Text} (hne : word ≠ []) (h : IsSolid word)
    (hrest : EndsWord rest) : words (word ++ rest) = word :: words rest := by
  cases rest with
  | nil => rw [List.append_nil, words_of_isSolid hne h, words_nil]
  | cons c rest =>
    have hc : isBlank c = true := hrest c rfl
    rw [words_append_blank hc, words_of_isSolid hne h, words_cons_blank hc, List.singleton_append]

/-- Every text with a word in it begins with one, behind a run of white space. -/
theorem exists_first_word {s : Text} (h : words s ≠ []) : ∃ front word rest, IsBlankRun front ∧
    word ≠ [] ∧ IsSolid word ∧ EndsWord rest ∧ s = front ++ (word ++ rest) := by
  have hfront : s = s.takeWhile isBlank ++ s.dropWhile isBlank := List.takeWhile_append_dropWhile.symm
  cases hcore : s.dropWhile isBlank with
  | nil =>
    have hblank : words s = [] := words_eq_nil_iff.mpr (List.dropWhile_eq_nil_iff.mp hcore)
    exact absurd hblank h
  | cons c core =>
    -- the word goes up to the next blank
    have hc : isBlank c = false := isBlank_of_head?_trimStart (s := s) (by rw [trimStart, hcore]; rfl)
    refine ⟨_, (c :: core).takeWhile (!isBlank ·), (c :: core).dropWhile (!isBlank ·),
      isBlankRun_takeWhile s, ?_, ?_, ?_, ?_⟩
    · simp [hc]
    · intro d hd
      simpa using List.mem_takeWhile_imp hd
    · intro d hd
      have hnot := List.head?_dropWhile_not (!isBlank ·) (c :: core)
      rw [Option.mem_def.mp hd] at hnot
      simpa using hnot
    · rw [List.takeWhile_append_dropWhile, ← hcore, ← hfront]

/-- The first word of a text and the words behind it. -/
theorem words_eq_cons_iff {s word : Text} {more : List Text} : words s = word :: more ↔
    word ≠ [] ∧ IsSolid word ∧ ∃ front rest, IsBlankRun front ∧ EndsWord rest ∧
      s = front ++ (word ++ rest) ∧ words rest = more := by
  constructor
  · intro h
    obtain ⟨front, first, rest, hfront, hne, hfirst, hrest, rfl⟩ :=
      exists_first_word (s := s) (by simp [h])
    rw [words_append_left hfront, words_append_of_endsWord hne hfirst hrest] at h
    obtain ⟨rfl, hmore⟩ := List.cons.inj h
    exact ⟨hne, hfirst, front, rest, hfront, hrest, rfl, hmore⟩
  · rintro ⟨hne, hword, front, rest, hfront, hrest, rfl, rfl⟩
    rw [words_append_left hfront, words_append_of_endsWord hne hword hrest]

end Snippets.Text
