/-
# Snippets.Proofs.Placeholder.Scan — which pieces a text is cut into

A token is a dollar sign and a decimal digit, or a dollar sign and braces around characters that
are neither a closing brace nor a line feed (`IsToken`). The scanner finds the token at the start of
a text exactly when there is one (`token?_eq_some_iff`), so no token continues another.

A row of pieces is *scanned* when every token piece is a token and no plain character begins one,
read together with the pieces behind it (`Scanned`). The pieces of a text are the only scanned row
that makes up the text (`pieces_eq_iff`). So a text can be scanned part by part: a token in front is
found as it is, and text in which no token begins, with what stands behind it, brings none in
(`tokens_append_of_isToken`, `tokens_append_of_isGap`).
-/
import Snippets.Placeholder.Token

namespace Snippets.Placeholder

/-! ## The two shapes of a token -/

/-- A token by its shape. -/
inductive IsToken : Text → Prop
  /-- A dollar sign and a decimal digit. -/
  | digit {c : Char} (h : Text.isDecimalDigit c = true) : IsToken ['$', c]
  /-- A dollar sign and braces around inner characters. -/
  | braced {inner : Text} (h : ∀ c ∈ inner, isInner c = true) :
      IsToken ('$' :: '{' :: (inner ++ ['}']))

theorem not_isDecimalDigit_brace : Text.isDecimalDigit '{' = false := by decide

theorem not_isDecimalDigit_closing : Text.isDecimalDigit '}' = false := by decide

theorem IsToken.exists_cons {t : Text} (h : IsToken t) : ∃ tail, t = '$' :: tail ∧ tail ≠ [] := by
  cases h with
  | digit => exact ⟨_, rfl, by simp⟩
  | braced => exact ⟨_, rfl, by simp⟩

theorem IsToken.ne_nil {t : Text} (h : IsToken t) : t ≠ [] := by
  cases h <;> simp

theorem isToken_of_token? {s t : Text} (h : token? s = some t) : IsToken t ∧ t <+: s := by
  unfold token? at h
  split at h
  · rename_i rest
    split at h
    · rename_i after hdrop
      obtain rfl := Option.some.inj h
      refine ⟨.braced ?_, after, ?_⟩
      · intro c hc
        simpa using List.all_eq_true.mp List.all_takeWhile c hc
      · simp only [List.cons_append, List.append_assoc, List.nil_append]
        rw [← hdrop, List.takeWhile_append_dropWhile]
    · exact absurd h (by simp)
  · rename_i c rest _
    split at h
    · rename_i hdigit
      obtain rfl := Option.some.inj h
      exact ⟨.digit hdigit, rest, rfl⟩
    · exact absurd h (by simp)
  · exact absurd h (by simp)

theorem token?_append {t : Text} (h : IsToken t) (rest : Text) : token? (t ++ rest) = some t := by
  cases h with
  | @digit c hc =>
    have hbrace : c ≠ '{' := by
      rintro rfl
      rw [not_isDecimalDigit_brace] at hc
      exact Bool.false_ne_true hc
    simp [token?, hc]
  | @braced inner hinner =>
    -- the scan of the inside stops at the closing brace, whatever stands behind it
    have hend : isInner '}' = false := by decide
    have htake : (inner ++ '}' :: rest).takeWhile isInner = inner := by
      rw [List.takeWhile_append_of_pos hinner, List.takeWhile_cons_of_neg (by simp [hend])]
      simp
    have hdrop : (inner ++ '}' :: rest).dropWhile isInner = '}' :: rest := by
      rw [List.dropWhile_append_of_pos hinner, List.dropWhile_cons_of_neg (by simp [hend])]
    simp [token?, htake, hdrop]

/-- The scanner finds exactly the tokens by shape. -/
theorem token?_eq_some_iff {s t : Text} : token? s = some t ↔ IsToken t ∧ t <+: s := by
  constructor
  · exact isToken_of_token?
  · rintro ⟨h, rest, rfl⟩
    exact token?_append h rest

theorem token?_eq_none_iff {s : Text} : token? s = none ↔ ∀ t, IsToken t → ¬t <+: s := by
  rw [Option.eq_none_iff_forall_ne_some]
  constructor
  · intro h t ht hprefix
    exact h t (token?_eq_some_iff.mpr ⟨ht, hprefix⟩)
  · intro h t htoken
    obtain ⟨ht, hprefix⟩ := token?_eq_some_iff.mp htoken
    exact h t ht hprefix

/-- Where there is no dollar sign, no token begins. -/
theorem token?_cons_of_ne {c : Char} (h : c ≠ '$') (s : Text) : token? (c :: s) = none := by
  refine token?_eq_none_iff.mpr ?_
  rintro t ht hprefix
  obtain ⟨tail, rfl, -⟩ := ht.exists_cons
  exact h (List.cons_prefix_cons.mp hprefix).1.symm

/-- No token continues another: of two tokens at one place, both are the same. -/
theorem IsToken.eq_of_prefix_append {t u rest : Text} (ht : IsToken t) (hu : IsToken u)
    (h : t <+: u ++ rest) : t = u := by
  have htoken : token? (u ++ rest) = some t := token?_eq_some_iff.mpr ⟨ht, h⟩
  rw [token?_append hu] at htoken
  exact (Option.some.inj htoken).symm

/-! ## A token inside another -/

/-- A token ends at its first closing brace. -/
theorem IsToken.eq_of_closing_prefix {t front : Text} (ht : IsToken t)
    (h : front ++ ['}'] <+: t) : front ++ ['}'] = t := by
  obtain ⟨more, hmore⟩ := h
  cases ht with
  | @digit c hc =>
    have hmem : '}' ∈ ['$', c] := by simp [← hmore]
    obtain rfl : '}' = c := by simpa using hmem
    rw [not_isDecimalDigit_closing] at hc
    exact absurd hc Bool.false_ne_true
  | @braced inner hinner =>
    rcases List.eq_nil_or_concat more with rfl | ⟨more, last, rfl⟩
    · rw [← hmore, List.append_nil]
    · -- a closing brace before the last character would stand inside the braces
      have hfront : front ++ '}' :: more = '$' :: '{' :: inner := by
        have heq : (front ++ '}' :: more) ++ [last] = ('$' :: '{' :: inner) ++ ['}'] := by
          simpa using hmore
        exact (List.append_inj' heq rfl).1
      have hmem : '}' ∈ '$' :: '{' :: inner := by simp [← hfront]
      have hinside : '}' ∈ inner := by simpa using hmem
      exact absurd (hinner '}' hinside) (by decide)

/-- A token that begins inside another one, behind its first character, ends inside it. -/
theorem IsToken.prefix_of_suffix_tail {t u back rest : Text} (ht : IsToken t) (hu : IsToken u)
    (hback : back <:+ u.tail) (hne : back ≠ []) (h : t <+: back ++ rest) : t <+: back := by
  rcases List.prefix_or_prefix_of_prefix h (List.prefix_append back rest) with hinside | hover
  · exact hinside
  cases hu with
  | @digit c hc =>
    -- the one character behind the dollar sign is a digit, and no token begins with it
    obtain rfl : back = [c] := (List.suffix_cons_iff.mp hback).resolve_right (by simpa using hne)
    obtain ⟨tail, rfl, -⟩ := ht.exists_cons
    obtain rfl : c = '$' := (List.cons_prefix_cons.mp hover).1
    exact absurd hc (by decide)
  | @braced inner hinner =>
    have hlast : back <:+ ('{' :: inner) ++ ['}'] := hback
    obtain ⟨inside, rfl, -⟩ := (List.suffix_concat_iff.mp hlast).resolve_left hne
    have hsame : inside ++ ['}'] = t := ht.eq_of_closing_prefix hover
    exact hsame ▸ List.prefix_rfl

/-! ## Scanned rows of pieces -/

theorem filterMap_token?_plain (s : Text) : (s.map Piece.plain).filterMap Piece.token? = [] := by
  rw [List.filterMap_map, List.filterMap_eq_nil_iff]
  intro c _
  rfl

theorem flatMap_text_plain (s : Text) : (s.map Piece.plain).flatMap Piece.text = s := by
  induction s with
  | nil => rfl
  | cons c s ih => rw [List.map_cons, List.flatMap_cons, ih, Piece.text, List.singleton_append]

/-- Every token piece is a token, and no plain character begins one. -/
inductive Scanned : List Piece → Prop
  | nil : Scanned []
  | token {t : Text} {ps : List Piece} : IsToken t → Scanned ps → Scanned (.token t :: ps)
  | plain {c : Char} {ps : List Piece} :
      token? (c :: ps.flatMap Piece.text) = none → Scanned ps → Scanned (.plain c :: ps)

theorem scanned_piecesAfter (skip : Nat) (s : Text) : Scanned (piecesAfter skip s) := by
  fun_induction piecesAfter skip s with
  | case1 => exact .nil
  | case2 skip _ rest ih => exact ih
  | case3 c rest t h ih => exact .token (isToken_of_token? h).1 ih
  | case4 c rest h ih =>
    refine .plain ?_ ih
    rw [flatMap_text_piecesAfter]
    exact h

/-- The pieces of a text are scanned. -/
theorem scanned_pieces (s : Text) : Scanned (pieces s) := scanned_piecesAfter 0 s

theorem Scanned.isToken {ps : List Piece} (h : Scanned ps) {t : Text}
    (ht : t ∈ ps.filterMap Piece.token?) : IsToken t := by
  induction h with
  | nil => simp at ht
  | token hu _ ih =>
    rcases List.mem_cons.mp ht with rfl | ht
    · exact hu
    · exact ih ht
  | plain _ _ ih => exact ih ht

/-- The tokens of a text are tokens by shape. -/
theorem isToken_of_mem_tokens {s t : Text} (h : t ∈ tokens s) : IsToken t :=
  (scanned_pieces s).isToken h

/-- A token that has been found stands in the text. -/
theorem isInfix_of_mem_tokens {s t : Text} (h : t ∈ tokens s) : t <:+: s := by
  obtain ⟨p, hp, hpt⟩ := List.mem_filterMap.mp h
  obtain rfl : p = .token t := by
    cases p with
    | plain c => exact absurd hpt (by simp [Piece.token?])
    | token u => rw [Option.some.inj hpt]
  obtain ⟨front, back, hpieces⟩ := List.append_of_mem hp
  refine ⟨front.flatMap Piece.text, back.flatMap Piece.text, ?_⟩
  rw [← flatMap_text_pieces s, hpieces]
  simp [Piece.text]

theorem piecesAfter_eq_drop (skip : Nat) (s : Text) : piecesAfter skip s = pieces (s.drop skip) := by
  induction s generalizing skip with
  | nil => simp [piecesAfter, pieces]
  | cons c rest ih =>
    cases skip with
    | zero => rfl
    | succ skip => simpa [piecesAfter] using ih skip

/-- A scanned row is the row of pieces of its text. -/
theorem pieces_flatMap_text {ps : List Piece} (h : Scanned ps) : pieces (ps.flatMap Piece.text) = ps := by
  induction h with
  | nil => rfl
  | @token t ps ht _ ih =>
    obtain ⟨tail, rfl, -⟩ := ht.exists_cons
    have hfirst := token?_append ht (ps.flatMap Piece.text)
    rw [List.cons_append] at hfirst
    rw [List.flatMap_cons, Piece.text, List.cons_append, pieces, piecesAfter, hfirst]
    simp only [piecesAfter_eq_drop, List.length_cons, Nat.add_one_sub_one, List.drop_left]
    rw [ih]
  | @plain c ps hc _ ih =>
    rw [List.flatMap_cons, Piece.text, List.singleton_append, pieces, piecesAfter, hc]
    exact congrArg _ ih

/-- The pieces of a text are the only scanned row that makes it up. -/
theorem pieces_eq_iff {s : Text} {ps : List Piece} :
    pieces s = ps ↔ Scanned ps ∧ ps.flatMap Piece.text = s := by
  constructor
  · rintro rfl
    exact ⟨scanned_pieces s, flatMap_text_pieces s⟩
  · rintro ⟨h, rfl⟩
    exact pieces_flatMap_text h

/-! ## Gaps -/

/-- At no place inside `gap`, with `rest` behind it, does a token begin. -/
def IsGap (gap rest : Text) : Prop :=
  ∀ i < gap.length, ∀ t, IsToken t → ¬t <+: gap.drop i ++ rest

theorem isGap_nil (rest : Text) : IsGap [] rest :=
  fun i hi => absurd hi (Nat.not_lt_zero i)

theorem isGap_cons_iff {c : Char} {gap rest : Text} :
    IsGap (c :: gap) rest ↔ token? (c :: (gap ++ rest)) = none ∧ IsGap gap rest := by
  rw [token?_eq_none_iff]
  constructor
  · intro h
    refine ⟨h 0 (Nat.zero_lt_succ _), fun i hi => ?_⟩
    exact h (i + 1) (Nat.succ_lt_succ hi)
  · rintro ⟨hfirst, hgap⟩ i hi
    cases i with
    | zero => exact hfirst
    | succ i => exact hgap i (Nat.lt_of_succ_lt_succ hi)

/-- Where there is no dollar sign, no token begins. -/
theorem isGap_of_notMem {gap : Text} (h : '$' ∉ gap) (rest : Text) : IsGap gap rest := by
  induction gap with
  | nil => exact isGap_nil rest
  | cons c gap ih =>
    rw [List.mem_cons, not_or] at h
    exact isGap_cons_iff.mpr ⟨token?_cons_of_ne (Ne.symm h.1) _, ih h.2⟩

/-- A gap in front of a scanned row is a row of plain characters. -/
theorem scanned_plain_append_iff {gap : Text} {ps : List Piece} :
    Scanned (gap.map Piece.plain ++ ps) ↔ IsGap gap (ps.flatMap Piece.text) ∧ Scanned ps := by
  induction gap with
  | nil => exact (and_iff_right (isGap_nil _)).symm
  | cons c gap ih =>
    have htext : (gap.map Piece.plain ++ ps).flatMap Piece.text = gap ++ ps.flatMap Piece.text := by
      rw [List.flatMap_append, flatMap_text_plain]
    rw [isGap_cons_iff, and_assoc, ← ih, ← htext]
    constructor
    · intro h
      cases h with
      | plain hc hrest => exact ⟨hc, hrest⟩
    · rintro ⟨hc, hrest⟩
      exact .plain hc hrest

/-- A gap in front of a text hides no token and brings none in. -/
theorem tokens_append_of_isGap {gap rest : Text} (h : IsGap gap rest) :
    tokens (gap ++ rest) = tokens rest := by
  have hpieces : pieces (gap ++ rest) = gap.map Piece.plain ++ pieces rest := by
    rw [pieces_eq_iff, scanned_plain_append_iff, flatMap_text_pieces, List.flatMap_append,
      flatMap_text_plain, flatMap_text_pieces]
    exact ⟨⟨h, scanned_pieces rest⟩, rfl⟩
  rw [tokens, hpieces, List.filterMap_append, filterMap_token?_plain, List.nil_append, tokens]

/-- A token at the start of a text is its first token, and the others are found behind it. -/
theorem tokens_append_of_isToken {t : Text} (h : IsToken t) (rest : Text) :
    tokens (t ++ rest) = t :: tokens rest := by
  have hpieces : pieces (t ++ rest) = .token t :: pieces rest := by
    rw [pieces_eq_iff, List.flatMap_cons, flatMap_text_pieces]
    exact ⟨.token h (scanned_pieces rest), rfl⟩
  rw [tokens, hpieces]
  rfl

/-- Braces that are not closed on their line begin no token. -/
theorem isGap_unclosed {inner rest : Text} (hinner : ∀ c ∈ inner, isInner c = true)
    (hrest : ∀ c ∈ rest.head?, c = '\n') : IsGap ['$', '{'] (inner ++ rest) := by
  have hbrace : IsGap ['{'] (inner ++ rest) := isGap_of_notMem (by decide) _
  refine isGap_cons_iff.mpr ⟨?_, hbrace⟩
  show token? ('$' :: '{' :: (inner ++ rest)) = none
  cases rest with
  | nil =>
    have hdrop : (inner ++ []).dropWhile isInner = [] := by
      rw [List.dropWhile_append_of_pos hinner]
      rfl
    simp only [token?, hdrop]
  | cons c rest =>
    obtain rfl : c = '\n' := hrest c rfl
    have hdrop : (inner ++ '\n' :: rest).dropWhile isInner = '\n' :: rest := by
      rw [List.dropWhile_append_of_pos hinner, List.dropWhile_cons_of_neg (by decide)]
    simp [token?, hdrop]

end Snippets.Placeholder
