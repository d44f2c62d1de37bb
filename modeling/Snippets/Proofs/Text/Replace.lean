/-
# Snippets.Proofs.Text.Replace — how replacing passes over a text

Replacing goes through a text from left to right. At each place it either meets the target, writes
the value and goes on behind the target, or keeps one character. These are the equations, and the
induction along them, by which every statement about it is proved, so that the count of characters
still to be skipped is met nowhere else.
-/
import Snippets.Text.Replace

namespace Snippets.Text

variable {target value : Text}

/-- Skipping characters is going on behind them. -/
theorem replaceAfter_eq_drop (skip : Nat) (s : Text) :
    replaceAfter target value skip s = replaceAll target value (s.drop skip) := by
  induction s generalizing skip with
  | nil => simp [replaceAfter]
  | cons c rest ih =>
    cases skip with
    | zero => rfl
    | succ skip => simpa [replaceAfter] using ih skip

/-- Where the target does not stand, one character is kept. -/
theorem replaceAll_cons_of_no_match {c : Char} {rest : Text} (h : ¬target <+: c :: rest) :
    replaceAll target value (c :: rest) = c :: replaceAll target value rest := by
  rw [replaceAll, replaceAfter, if_neg (by simpa using h)]
  rfl

/-- Where the target stands, the value is written. -/
theorem replaceAll_append (h : target ≠ []) (rest : Text) :
    replaceAll target value (target ++ rest) = value ++ replaceAll target value rest := by
  obtain ⟨c, more, rfl⟩ := List.exists_cons_of_ne_nil h
  rw [List.cons_append, replaceAll, replaceAfter, if_pos (by simp)]
  rw [replaceAfter_eq_drop]
  simp

/-- A stretch in which the target begins nowhere is kept. -/
theorem replaceAll_append_of_not_prefix {s rest : Text}
    (h : ∀ back, back <:+ s → back ≠ [] → ¬target <+: back ++ rest) :
    replaceAll target value (s ++ rest) = s ++ replaceAll target value rest := by
  induction s with
  | nil => rfl
  | cons c s ih =>
    have hfirst : ¬target <+: c :: (s ++ rest) := h (c :: s) List.suffix_rfl (by simp)
    have hrest := ih fun back hback => h back (hback.trans (List.suffix_cons c s))
    rw [List.cons_append, replaceAll_cons_of_no_match hfirst, hrest, List.cons_append]

/-- Induction along a replacement: at the end, behind an occurrence of the target, and behind a
character where the target does not stand. -/
theorem replace_induction {motive : Text → Prop} (h : target ≠ []) (nil : motive [])
    (found : ∀ rest, motive rest → motive (target ++ rest))
    (kept : ∀ c rest, ¬target <+: c :: rest → motive rest → motive (c :: rest)) (s : Text) :
    motive s := by
  by_cases hprefix : target <+: s
  · obtain ⟨rest, rfl⟩ := hprefix
    have hlt : rest.length < (target ++ rest).length := by
      have hpos : 0 < target.length := List.length_pos_iff.mpr h
      rw [List.length_append]
      omega
    exact found rest (replace_induction h nil found kept rest)
  · cases s with
    | nil => exact nil
    | cons c rest => exact kept c rest hprefix (replace_induction h nil found kept rest)
termination_by s.length

/-- Replacing a text by itself keeps everything. -/
theorem replaceAll_self (h : target ≠ []) (s : Text) : replaceAll target target s = s := by
  induction s using replace_induction h with
  | nil => rfl
  | found rest ih => rw [replaceAll_append h, ih]
  | kept c rest hfirst ih => rw [replaceAll_cons_of_no_match hfirst, ih]

/-! ## What is written, and where -/

/-- Replacing writes characters of the text and of the value. -/
theorem mem_replaceAll (h : target ≠ []) {c : Char} {s : Text}
    (hmem : c ∈ replaceAll target value s) : c ∈ s ∨ c ∈ value := by
  induction s using replace_induction h with
  | nil => exact .inl hmem
  | found rest ih =>
    rw [replaceAll_append h, List.mem_append] at hmem
    rcases hmem with hvalue | hrest
    · exact .inr hvalue
    · exact (ih hrest).imp_left (List.mem_append_right _)
  | kept d rest hfirst ih =>
    rw [replaceAll_cons_of_no_match hfirst, List.mem_cons] at hmem
    rcases hmem with rfl | hrest
    · exact .inl List.mem_cons_self
    · exact (ih hrest).imp_left (List.mem_cons_of_mem d)

/-- The target ends before a character that it does not hold. -/
theorem prefix_of_prefix_append_cons {c : Char} (hc : c ∉ target) {s rest : Text}
    (h : target <+: s ++ c :: rest) : target <+: s := by
  have hback : s ++ [c] <+: s ++ c :: rest := ⟨rest, by simp⟩
  rcases List.prefix_or_prefix_of_prefix h hback with hinside | hover
  · rcases List.prefix_concat_iff.mp hinside with rfl | hinside
    · exact absurd (by simp) hc
    · exact hinside
  · exact absurd (hover.subset (by simp)) hc

/-- A character that the target does not hold parts the text: each side is replaced by itself. -/
theorem replaceAll_append_cons (h : target ≠ []) {c : Char} (hc : c ∉ target) (s rest : Text) :
    replaceAll target value (s ++ c :: rest) =
      replaceAll target value s ++ c :: replaceAll target value rest := by
  have hseparator (more : Text) : ¬target <+: c :: more := by
    intro hprefix
    exact h (List.prefix_nil.mp (prefix_of_prefix_append_cons (s := []) hc hprefix))
  induction s using replace_induction h with
  | nil => exact replaceAll_cons_of_no_match (hseparator rest)
  | found back ih => rw [List.append_assoc, replaceAll_append h, replaceAll_append h, ih,
      List.append_assoc]
  | kept d back hfirst ih =>
    have hover : ¬target <+: d :: (back ++ c :: rest) := by
      intro hprefix
      exact hfirst (prefix_of_prefix_append_cons (s := d :: back) hc hprefix)
    rw [List.cons_append, replaceAll_cons_of_no_match hover, replaceAll_cons_of_no_match hfirst, ih,
      List.cons_append]

/-! ## When something changes -/

/-- A text in which the target stands nowhere is kept. -/
theorem replaceAll_of_not_infix {s : Text} (h : ¬target <:+: s) : replaceAll target value s = s := by
  have hnowhere : ∀ back, back <:+ s → back ≠ [] → ¬target <+: back ++ [] := by
    intro back hback _ hfirst
    rw [List.append_nil] at hfirst
    exact h (hfirst.isInfix.trans hback.isInfix)
  simpa using replaceAll_append_of_not_prefix hnowhere

/-- The length changes by the same amount for each of the `n` places where the target is met. -/
theorem exists_length_replaceAll (h : target ≠ []) (s : Text) :
    ∃ n, (n = 0 → ¬target <:+: s) ∧
      (replaceAll target value s).length + n * target.length = s.length + n * value.length := by
  induction s using replace_induction h with
  | nil => exact ⟨0, by simp [h], by simp⟩
  | found rest ih =>
    obtain ⟨n, -, hlength⟩ := ih
    refine ⟨n + 1, by simp, ?_⟩
    rw [replaceAll_append h, List.length_append, List.length_append, Nat.succ_mul, Nat.succ_mul]
    omega
  | kept c rest hfirst ih =>
    obtain ⟨n, hn, hlength⟩ := ih
    refine ⟨n, ?_, ?_⟩
    · intro hzero hfound
      exact (List.infix_cons_iff.mp hfound).elim hfirst (hn hzero)
    · rw [replaceAll_cons_of_no_match hfirst, List.length_cons, List.length_cons]
      omega

/-- A value that is longer than the target makes a text with the target longer. -/
theorem length_lt_replaceAll (h : target ≠ []) (hlength : target.length < value.length) {s : Text}
    (hfound : target <:+: s) : s.length < (replaceAll target value s).length := by
  obtain ⟨n, hn, hcount⟩ : ∃ n, (n = 0 → ¬target <:+: s) ∧
      (replaceAll target value s).length + n * target.length = s.length + n * value.length :=
    exists_length_replaceAll h s
  have hpos : 0 < n := Nat.pos_of_ne_zero fun hzero => hn hzero hfound
  have hmore : n * target.length < n * value.length := Nat.mul_lt_mul_of_pos_left hlength hpos
  omega

/-- Where the target was, the value stands. -/
theorem infix_replaceAll (h : target ≠ []) {s : Text} (hfound : target <:+: s) :
    value <:+: replaceAll target value s := by
  induction s using replace_induction h with
  | nil => exact absurd (List.infix_nil.mp hfound) h
  | found rest ih =>
    rw [replaceAll_append h]
    exact (List.prefix_append _ _).isInfix
  | kept c rest hfirst ih =>
    rw [replaceAll_cons_of_no_match hfirst]
    exact List.infix_cons (ih ((List.infix_cons_iff.mp hfound).resolve_left hfirst))

end Snippets.Text
