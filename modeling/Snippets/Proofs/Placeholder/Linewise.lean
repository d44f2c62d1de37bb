/-
# Snippets.Proofs.Placeholder.Linewise — expanding goes line by line

No token holds a line feed, since the scanner stops at one, and a default stands inside its token.
So replacing a token in lines joined by line feeds is replacing it in each line, whatever its value,
and a line without a dollar sign is left as it is (`substitute_unlines`, `substitute_of_notMem`). When
the arguments hold no line feed either, none comes in (`newline_notMem_substitute`), and an expanded
text has the lines of the text, each expanded by itself (`splitOn_expand_unlines`).
-/
import Snippets.Proofs.Placeholder.SinglePass
import Snippets.Proofs.Text.Lines

namespace Snippets

namespace Text

/-- A target without a line feed is replaced in each line by itself. -/
theorem replaceAll_unlines {target value : Text} (h : target ≠ []) (hline : '\n' ∉ target)
    (ls : List Text) :
    replaceAll target value (unlines ls) = unlines (ls.map (replaceAll target value)) := by
  induction ls with
  | nil => rfl
  | cons line ls ih =>
    cases ls with
    | nil => simp [unlines]
    | cons next ls =>
      rw [unlines_cons_cons, replaceAll_append_cons h hline, ih]
      exact (unlines_cons_cons _ _ _).symm

end Text

namespace Placeholder

/-! ## Values without a line feed -/

theorem IsToken.newline_notMem {t : Text} (ht : IsToken t) : '\n' ∉ t := by
  cases ht with
  | @digit c hc =>
    intro hmem
    obtain rfl : '\n' = c := by simpa using hmem
    exact absurd hc (by decide)
  | @braced inner hinner =>
    intro hmem
    have hinside : '\n' ∈ inner := by simpa using hmem
    exact absurd (hinner '\n' hinside) (by decide)

/-- What the value of a token holds comes from the token or from an argument. -/
theorem mem_of_mem_tokenValue {args : List Text} {t : Text} (ht : IsToken t) {c : Char}
    (h : c ∈ tokenValue args t) : c ∈ t ∨ ∃ a ∈ args, c ∈ a := by
  obtain ⟨tail, rfl, -⟩ := ht.exists_cons
  cases hparse : parse? ('$' :: tail) with
  | none =>
    rw [tokenValue_of_malformed hparse] at h
    exact .inl h
  | some p =>
    rw [tokenValue_of_parse? hparse] at h
    exact (mem_of_mem_value h).imp_left fun hdefault =>
      List.mem_cons_of_mem _ (default_subset_of_parse? hparse hdefault)

theorem newline_notMem_substitute {args ts : List Text} (hargs : ∀ a ∈ args, '\n' ∉ a)
    (hts : ∀ t ∈ ts, IsToken t) {s : Text} (hs : '\n' ∉ s) : '\n' ∉ substitute args ts s := by
  induction ts generalizing s with
  | nil => exact hs
  | cons t ts ih =>
    obtain ⟨ht, hts⟩ := List.forall_mem_cons.mp hts
    refine ih hts fun hmem => ?_
    rcases Text.mem_replaceAll ht.ne_nil hmem with hmem | hmem
    · exact hs hmem
    · rcases mem_of_mem_tokenValue ht hmem with hmem | ⟨a, ha, hmem⟩
      · exact ht.newline_notMem hmem
      · exact hargs a ha hmem

/-! ## Line by line -/

theorem substitute_unlines {args ts : List Text} (hts : ∀ t ∈ ts, IsToken t) (ls : List Text) :
    substitute args ts (Text.unlines ls) = Text.unlines (ls.map (substitute args ts)) := by
  induction ts generalizing ls with
  | nil => rw [substitute_nil, List.map_congr_left fun line _ => substitute_nil args line, List.map_id']
  | cons t ts ih =>
    obtain ⟨ht, hts⟩ := List.forall_mem_cons.mp hts
    calc substitute args (t :: ts) (Text.unlines ls)
        = substitute args ts (Text.replaceAll t (tokenValue args t) (Text.unlines ls)) := rfl
      _ = substitute args ts (Text.unlines (ls.map (Text.replaceAll t (tokenValue args t)))) := by
          rw [Text.replaceAll_unlines ht.ne_nil ht.newline_notMem]
      _ = Text.unlines (ls.map (substitute args (t :: ts))) := by
          rw [ih hts, List.map_map]
          rfl

/-- Where no dollar sign stands, nothing is replaced. -/
theorem substitute_of_notMem {args ts : List Text} (hts : ∀ t ∈ ts, IsToken t) {s : Text}
    (hs : '$' ∉ s) : substitute args ts s = s := by
  induction ts with
  | nil => rfl
  | cons t ts ih =>
    obtain ⟨ht, hts⟩ := List.forall_mem_cons.mp hts
    have hnone : ¬t <:+: s := by
      obtain ⟨tail, rfl, -⟩ := ht.exists_cons
      intro hfound
      exact hs (hfound.subset List.mem_cons_self)
    rw [substitute, List.foldl_cons, Text.replaceAll_of_not_infix hnone]
    exact ih hts

/-- The lines of an expanded text are those of the text, each with the tokens of the whole text
replaced in it. -/
theorem splitOn_expand_unlines {args : List Text} (hargs : ∀ a ∈ args, '\n' ∉ a) {ls : List Text}
    (hne : ls ≠ []) (hls : ∀ line ∈ ls, '\n' ∉ line) :
    (expand (Text.unlines ls) args).splitOn '\n' =
      ls.map (substitute args (tokens (Text.unlines ls))) := by
  have htokens : ∀ t ∈ tokens (Text.unlines ls), IsToken t := fun _ => isToken_of_mem_tokens
  rw [expand, substitute_unlines htokens, Text.splitOn_unlines (by simpa using hne)]
  rintro line hline
  obtain ⟨before, hbefore, rfl⟩ := List.mem_map.mp hline
  exact newline_notMem_substitute hargs htokens (hls before hbefore)

end Placeholder

end Snippets
