/-
# Snippets.Proofs.Placeholder.FixedPoint — what an expansion leaves to expand

The tokens of an expanded text are looked for anew. Values stand there next to malformed tokens,
lone dollar signs and ordinary text, and might complete a token that was not there before. In an
untangled text they do not: the tokens of the result are exactly the malformed tokens of the text,
in their order, and so a second expansion, with any arguments, changes nothing (`expand_expand`).

The scanner is run over the row of pieces as it is shown. A token shown as itself is a token still,
and an image without a dollar sign falls apart into plain characters (`Piece.split`). The row of
these pieces is scanned again (`scanned_split`), and a text has only one such row.
-/
import Snippets.Proofs.Placeholder.Malformed
import Snippets.Proofs.Placeholder.SinglePass

namespace Snippets.Placeholder

/-! ## Scanning what is shown -/

/-- The pieces that a shown piece falls into: a token shown as itself stays one, and any other image
is plain text. -/
def Piece.split (image : Text → Text) : Piece → List Piece
  | plain c => [plain c]
  | token t => if image t = t then [token t] else (image t).map plain

theorem Piece.flatMap_text_split (image : Text → Text) (p : Piece) :
    (p.split image).flatMap Piece.text = p.shown image := by
  cases p with
  | plain c => rfl
  | token t =>
    rw [split, shown]
    by_cases hsame : image t = t
    · rw [if_pos hsame, hsame]
      simp [text]
    · rw [if_neg hsame, flatMap_text_plain]

/-- The pieces put together are what is shown. -/
theorem flatMap_text_flatMap_split (image : Text → Text) (ps : List Piece) :
    (ps.flatMap (Piece.split image)).flatMap Piece.text = ps.flatMap (Piece.shown image) := by
  rw [List.flatMap_assoc]
  exact List.flatMap_congr fun p _ => p.flatMap_text_split image

/-- Text without a dollar sign in front of a scanned row is a row of plain characters. -/
theorem Scanned.plain_append {s : Text} {ps : List Piece} (hs : '$' ∉ s) (h : Scanned ps) :
    Scanned (s.map Piece.plain ++ ps) :=
  scanned_plain_append_iff.mpr ⟨isGap_of_notMem hs _, h⟩

/-- **The shown row is scanned.** Neither a value nor a malformed token, next to what stands around
it, begins or completes a token. -/
theorem scanned_split {image : Text → Text} {ps : List Piece} (hps : Scanned ps)
    (hlone : ps.IsChain fun p next => p = .plain '$' → OpensNothing (next.shown image))
    (himage : ∀ u ∈ ps.filterMap Piece.token?, image u = u ∨ '$' ∉ image u) :
    Scanned (ps.flatMap (Piece.split image)) := by
  induction hps with
  | nil => exact .nil
  | @plain c ps hc hps ih =>
    have hrest := ih (List.isChain_cons.mp hlone).2 himage
    rw [List.flatMap_cons, Piece.split, List.singleton_append]
    refine .plain ?_ hrest
    by_cases hdollar : c = '$'
    · -- a lone dollar sign: what follows it is shown as it was
      subst hdollar
      rw [flatMap_text_flatMap_split, token?_eq_none_iff]
      intro t ht
      apply not_prefix_of_lone_dollar ht
      intro next hnext
      exact ht.not_mayBegin_of_opensNothing ((List.isChain_cons.mp hlone).1 next hnext rfl)
    · exact token?_cons_of_ne hdollar _
  | @token u ps hu hps ih =>
    simp only [List.filterMap_cons, Piece.token?, List.forall_mem_cons] at himage
    have hrest := ih (List.isChain_cons.mp hlone).2 himage.2
    rw [List.flatMap_cons, Piece.split]
    by_cases hsame : image u = u
    · rw [if_pos hsame]
      exact .token hu hrest
    · rw [if_neg hsame]
      exact hrest.plain_append (himage.1.resolve_left hsame)

/-- The tokens among the pieces of a shown row are those shown as themselves. -/
theorem filterMap_token?_split (image : Text → Text) (ps : List Piece) :
    (ps.flatMap (Piece.split image)).filterMap Piece.token? =
      (ps.filterMap Piece.token?).filter fun t => image t = t := by
  induction ps with
  | nil => rfl
  | cons p ps ih =>
    rw [List.flatMap_cons, List.filterMap_append, ih]
    cases p with
    | plain c => rfl
    | token t =>
      by_cases hsame : image t = t
      · simp [Piece.split, Piece.token?, hsame]
      · simp [Piece.split, Piece.token?, hsame]

/-! ## A second expansion -/

/-- The tokens of an expanded text are the malformed tokens of the text. -/
theorem tokens_expand {s : Text} {args : List Text} (hargs : ∀ a ∈ args, '$' ∉ a)
    (hs : Untangled s) :
    tokens (expand s args) = (tokens s).filter fun t => (parse? t).isNone := by
  have hfree : ∀ t ∈ tokens s, tokenValue args t = t ∨ '$' ∉ tokenValue args t := by
    intro t ht
    exact tokenValue_eq_or_notMem hargs (isToken_of_mem_tokens ht) (hs.token_tail t ht)
  have hfill : expand s args = (pieces s).flatMap (Piece.shown (tokenValue args)) :=
    (hs.separated hargs).substitute_eq_fill fun _ => Iff.rfl
  -- the shown row is scanned, so it is the row of pieces of the expanded text
  have hlone := (scanned_pieces s).isChain_opensNothing hs.lone_dollar (tokenValue args)
  have hscanned := scanned_split (scanned_pieces s) hlone hfree
  rw [hfill, tokens, pieces_eq_iff.mpr ⟨hscanned, flatMap_text_flatMap_split _ _⟩,
    filterMap_token?_split]
  apply List.filter_congr
  intro t ht
  cases hparse : parse? t with
  | none => simp [tokenValue_of_malformed hparse]
  | some p =>
    -- a value without a dollar sign is not the token, which begins with one
    have hvalue : '$' ∉ tokenValue args t :=
      dollar_notMem_tokenValue hargs (isToken_of_mem_tokens ht) (hs.token_tail t ht) hparse
    obtain ⟨tail, rfl, -⟩ := (isToken_of_mem_tokens ht).exists_cons
    have hne : tokenValue args ('$' :: tail) ≠ '$' :: tail := by
      intro heq
      rw [heq] at hvalue
      exact hvalue List.mem_cons_self
    simp [hne]

/-- **Expanding an expanded text changes nothing**, whatever the second arguments: of the tokens,
exactly the malformed ones are left. -/
theorem expand_expand {s : Text} {args : List Text} (hargs : ∀ a ∈ args, '$' ∉ a)
    (hs : Untangled s) :
    (∀ more, expand (expand s args) more = expand s args) ∧
      tokens (expand s args) = (tokens s).filter fun t => (parse? t).isNone := by
  have htokens := tokens_expand hargs hs
  refine ⟨expand_of_malformed ?_, htokens⟩
  intro t ht
  rw [htokens, List.mem_filter] at ht
  exact Option.isNone_iff_eq_none.mp ht.2

/-- A text with malformed tokens around good ones, and lone dollar signs; the braces are written by
their numbers. -/
def malformedText : Text := "$ $\x7ba\x7d$0$\x7b08\x7d\x7b1:\x7d$\x7b1:x\x7d$$".toList

/-- Values that hold a digit and braces. -/
def malformedArgs : List Text := ["7\x7b0\x7d".toList]

theorem expand_expand_malformed :
    (∀ a ∈ malformedArgs, '$' ∉ a) ∧ Untangled malformedText ∧
      tokens (expand malformedText malformedArgs) =
        ["$\x7ba\x7d".toList, "$\x7b08\x7d".toList] ∧
      expand (expand malformedText malformedArgs) ["b".toList, "c".toList] =
        "$ $\x7ba\x7d7\x7b0\x7d$\x7b08\x7d\x7b1:\x7dx$$".toList := by
  have hargs : ∀ a ∈ malformedArgs, '$' ∉ a := by decide
  have hs : Untangled malformedText := by decide
  obtain ⟨hfixed, htokens⟩ := expand_expand hargs hs
  refine ⟨hargs, hs, ?_, ?_⟩
  · rw [htokens]
    decide
  · rw [hfixed]
    decide

end Snippets.Placeholder
