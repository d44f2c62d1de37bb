/-
# Snippets.Proofs.Placeholder.SinglePass — replacing token by token is filling in one pass

Expanding replaces each token in turn in everything the text has become. A value put in earlier
could complete a later token, or run into one. In an untangled text it cannot: when no argument
holds a dollar sign, no token holds one behind its first, and no dollar sign outside the tokens
stands before an opening brace or a token, then the result is the text with each token filled where
it stands (`expand_eq_fill`).

The induction is over the tokens still to be replaced. The invariant is that the text is the row of
pieces it was at the start, each token piece shown as itself or as text in which the token to be
replaced does not begin (`Piece.shown`, `replaceAll_shown`); so it is met where it stood at the start,
and nowhere else. What the invariant needs is `Separated`, a condition on the tokens found and on
their values. It also allows values with dollar signs, and values that are tokens, as long as the text
has no such token; an untangled text meets it when no argument holds a dollar sign.
-/
import Mathlib.Data.List.Chain
import Mathlib.Data.List.Infix
import Snippets.Placeholder.Expand
import Snippets.Proofs.Placeholder.Scan
import Snippets.Proofs.Text.Replace

namespace Snippets.Placeholder

/-! ## Filling in one pass -/

/-- A piece with its token shown in some way. -/
def Piece.shown (image : Text → Text) : Piece → Text
  | plain c => [c]
  | token t => image t

/-- The text with each token replaced by its value where it stands, and every other character
kept. -/
def fill (s : Text) (args : List Text) : Text := (pieces s).flatMap (Piece.shown (tokenValue args))

/-- A text in which no token holds a dollar sign behind its first, and no dollar sign outside the
tokens stands before an opening brace or before a token. -/
structure Untangled (s : Text) : Prop where
  /-- A token holds no dollar sign behind its first. -/
  token_tail : ∀ t ∈ tokens s, '$' ∉ t.tail
  /-- A dollar sign outside the tokens is followed by neither an opening brace nor a token. -/
  lone_dollar : (pieces s).IsChain fun p next =>
    p = .plain '$' → next ≠ .plain '{' ∧ next.token? = none

/-- Deciding whether a text is untangled goes over its pieces. -/
instance (s : Text) : Decidable (Untangled s) :=
  decidable_of_iff _ ⟨fun h => Untangled.mk h.1 h.2, fun h => And.intro h.token_tail h.lone_dollar⟩

/-! ## Values without a dollar sign -/

theorem dropDollar_cons (s : Text) : dropDollar ('$' :: s) = s := rfl

theorem dropBraces_subset (s : Text) : dropBraces s ⊆ s := by
  unfold dropBraces
  split
  · split
    · intro c hc
      exact List.mem_cons_of_mem _ (List.dropLast_subset _ hc)
    · exact List.Subset.refl _
  · exact List.Subset.refl _

theorem splitColon_snd_subset (s : Text) : (splitColon s).2 ⊆ s := by
  induction s with
  | nil => exact List.Subset.refl _
  | cons c rest ih =>
    unfold splitColon
    split
    · exact List.subset_cons_self _ _
    · exact List.Subset.trans ih (List.subset_cons_self _ _)

/-- The default of a placeholder stands in its token, behind the dollar sign. -/
theorem default_subset_of_parse? {tail : Text} {p : Placeholder}
    (h : parse? ('$' :: tail) = some p) : p.default ⊆ tail := by
  simp only [parse?, dropDollar_cons, Option.map_eq_some_iff] at h
  obtain ⟨n, -, rfl⟩ := h
  exact List.Subset.trans (splitColon_snd_subset _) (dropBraces_subset tail)

theorem mem_of_effectiveArgument {args : List Text} {i : Nat} {a : Text}
    (h : effectiveArgument args i = some a) : a ∈ args := by
  exact List.mem_of_getElem? (effectiveArgument_eq_some_iff.mp h).1

/-- What a value holds comes from the default or from an argument. -/
theorem mem_of_mem_value {p : Placeholder} {args : List Text} {c : Char} (h : c ∈ p.value args) :
    c ∈ p.default ∨ ∃ a ∈ args, c ∈ a := by
  unfold value at h
  cases harg : effectiveArgument args p.index with
  | none =>
    rw [harg, Option.getD_none] at h
    exact .inl h
  | some a =>
    rw [harg, Option.getD_some] at h
    exact .inr ⟨a, mem_of_effectiveArgument harg, h⟩

/-- The value of a placeholder holds no dollar sign: neither the arguments nor the default do. -/
theorem dollar_notMem_tokenValue {args : List Text} (hargs : ∀ a ∈ args, '$' ∉ a) {t : Text}
    (ht : IsToken t) (htail : '$' ∉ t.tail) {p : Placeholder} (hparse : parse? t = some p) :
    '$' ∉ tokenValue args t := by
  obtain ⟨tail, rfl, -⟩ := ht.exists_cons
  rw [tokenValue_of_parse? hparse]
  intro hmem
  rcases mem_of_mem_value hmem with hdefault | ⟨a, ha, harg⟩
  · exact htail (default_subset_of_parse? hparse hdefault)
  · exact hargs a ha harg

/-- The value of a token is the token itself or holds no dollar sign. -/
theorem tokenValue_eq_or_notMem {args : List Text} (hargs : ∀ a ∈ args, '$' ∉ a) {t : Text}
    (ht : IsToken t) (htail : '$' ∉ t.tail) :
    tokenValue args t = t ∨ '$' ∉ tokenValue args t := by
  cases hparse : parse? t with
  | none => exact .inl (tokenValue_of_malformed hparse)
  | some p => exact .inr (dollar_notMem_tokenValue hargs ht htail hparse)

/-! ## Where a token may begin -/

/-- An occurrence of `t` may begin with `s`: as far as both go, they are the same. -/
def MayBegin (t s : Text) : Prop := t <+: s ∨ s <+: t

instance (t s : Text) : Decidable (MayBegin t s) := inferInstanceAs (Decidable (_ ∨ _))

theorem mayBegin_of_prefix_append {t s rest : Text} (h : t <+: s ++ rest) : MayBegin t s :=
  List.prefix_or_prefix_of_prefix h (List.prefix_append s rest)

theorem mayBegin_cons_cons {a b : Char} {t s : Text} :
    MayBegin (a :: t) (b :: s) ↔ a = b ∧ MayBegin t s := by
  unfold MayBegin
  rw [List.cons_prefix_cons, List.cons_prefix_cons, eq_comm (a := b), and_or_left]

/-- A text in which `t` begins nowhere, whatever stands behind the text. -/
def Avoids (s t : Text) : Prop := ∀ back, back <:+ s → back ≠ [] → ¬MayBegin t back

instance (s t : Text) : Decidable (Avoids s t) :=
  decidable_of_iff (∀ back ∈ s.tails, back ≠ [] → ¬MayBegin t back) <| by
    simp only [Avoids, List.mem_tails]

theorem IsToken.avoids_of_notMem {t s : Text} (ht : IsToken t) (h : '$' ∉ s) : Avoids s t := by
  obtain ⟨tail, rfl, -⟩ := ht.exists_cons
  intro back hback hne hbegin
  obtain ⟨c, back, rfl⟩ := List.exists_cons_of_ne_nil hne
  obtain ⟨rfl, -⟩ := mayBegin_cons_cons.mp hbegin
  exact h (hback.subset List.mem_cons_self)

/-- Text that a dollar sign in front of it does not make the start of a token: its first character
is neither an opening brace nor a digit. -/
def OpensNothing : Text → Prop
  | [] => False
  | c :: _ => c ≠ '{' ∧ Text.isDecimalDigit c = false

/-- A dollar sign in front of a token begins no other one. -/
theorem IsToken.opensNothing {t : Text} (ht : IsToken t) : OpensNothing t := by
  obtain ⟨tail, rfl, -⟩ := ht.exists_cons
  exact ⟨by decide, by decide⟩

theorem IsToken.not_mayBegin_of_opensNothing {t s : Text} (ht : IsToken t) (h : OpensNothing s) :
    ¬MayBegin t ('$' :: s) := by
  intro hbegin
  cases s with
  | nil => exact h
  | cons c s =>
    cases ht with
    | digit hd =>
      obtain ⟨rfl, -⟩ := mayBegin_cons_cons.mp (mayBegin_cons_cons.mp hbegin).2
      rw [h.2] at hd
      exact Bool.false_ne_true hd
    | braced _ =>
      obtain ⟨rfl, -⟩ := mayBegin_cons_cons.mp (mayBegin_cons_cons.mp hbegin).2
      exact h.1 rfl

/-- Where a token stands that another does not stand inside, the other begins nowhere. -/
theorem IsToken.not_prefix_of_suffix {t u back : Text} (ht : IsToken t) (hu : IsToken u)
    (hne : t ≠ u) (hnested : ¬t <:+: u.tail) (hback : back <:+ u) (hback_ne : back ≠ [])
    (rest : Text) : ¬t <+: back ++ rest := by
  intro hprefix
  obtain ⟨tail, rfl, -⟩ := hu.exists_cons
  rcases List.suffix_cons_iff.mp hback with rfl | hback
  · exact hne (ht.eq_of_prefix_append hu hprefix)
  · have hinside : t <+: back := ht.prefix_of_suffix_tail hu hback hback_ne hprefix
    exact hnested (hinside.isInfix.trans hback.isInfix)

/-! ## One replacement -/

/-- How the tokens are shown after `t` has been replaced by `v`: only a token that was still shown
as itself changes. -/
def replacedImage (image : Text → Text) (t v u : Text) : Text :=
  if u = t ∧ image u = u then v else image u

/-- A dollar sign outside the tokens begins no token that it cannot begin with the piece behind it. -/
theorem not_prefix_of_lone_dollar {image : Text → Text} {ps : List Piece} {t : Text}
    (ht : IsToken t) (hlone : ∀ next ∈ ps.head?, ¬MayBegin t ('$' :: next.shown image)) :
    ¬t <+: '$' :: ps.flatMap (Piece.shown image) := by
  cases ps with
  | nil =>
    -- a token has a second character
    obtain ⟨tail, rfl, htail⟩ := ht.exists_cons
    intro hprefix
    exact htail (List.prefix_nil.mp (List.cons_prefix_cons.mp hprefix).2)
  | cons next ps =>
    rw [List.flatMap_cons, ← List.cons_append]
    intro hprefix
    exact hlone next rfl (mayBegin_of_prefix_append hprefix)

/-- **One replacement.** In a row of pieces whose tokens are shown as themselves or as text that
avoids a token, replacing this token changes the pieces that show it, and nothing else. -/
theorem replaceAll_shown {image : Text → Text} {ps : List Piece} {t v : Text} (ht : IsToken t)
    (hps : Scanned ps) (hnested : ∀ u ∈ ps.filterMap Piece.token?, ¬t <:+: u.tail)
    (hlone : ps.IsChain fun p next => p = .plain '$' → ¬MayBegin t ('$' :: next.shown image))
    (himage : ∀ u ∈ ps.filterMap Piece.token?, image u = u ∨ Avoids (image u) t) :
    Text.replaceAll t v (ps.flatMap (Piece.shown image)) =
      ps.flatMap (Piece.shown (replacedImage image t v)) := by
  induction hps with
  | nil => rfl
  | @plain c ps hc hps ih =>
    have hrest := ih hnested (List.isChain_cons.mp hlone).2 himage
    have hfirst : ¬t <+: c :: ps.flatMap (Piece.shown image) := by
      by_cases hdollar : c = '$'
      · subst hdollar
        apply not_prefix_of_lone_dollar ht
        intro next hnext
        exact (List.isChain_cons.mp hlone).1 next hnext rfl
      · obtain ⟨tail, rfl, -⟩ := ht.exists_cons
        intro hprefix
        exact hdollar (List.cons_prefix_cons.mp hprefix).1.symm
    simp only [List.flatMap_cons, Piece.shown, List.singleton_append]
    rw [Text.replaceAll_cons_of_no_match hfirst, hrest]
  | @token u ps hu hps ih =>
    simp only [List.filterMap_cons, Piece.token?, List.forall_mem_cons] at hnested himage
    have hrest := ih hnested.2 (List.isChain_cons.mp hlone).2 himage.2
    simp only [List.flatMap_cons, Piece.shown, replacedImage]
    by_cases hsame : image u = u
    · by_cases hut : u = t
      · -- the token itself: its value is written
        rw [if_pos ⟨hut, hsame⟩, hsame, hut, Text.replaceAll_append ht.ne_nil, hrest]
      · -- another token: the two differ before either ends, and none stands inside it
        rw [if_neg fun h => hut h.1, hsame, Text.replaceAll_append_of_not_prefix, hrest]
        intro back hback hback_ne
        exact ht.not_prefix_of_suffix hu (Ne.symm hut) hnested.1 hback hback_ne _
    · have havoids : Avoids (image u) t := himage.1.resolve_left hsame
      rw [if_neg fun h => hsame h.2, Text.replaceAll_append_of_not_prefix, hrest]
      intro back hback hback_ne hprefix
      exact havoids back hback hback_ne (mayBegin_of_prefix_append hprefix)

/-! ## All replacements -/

/-- How the tokens are shown when those in `done` have been replaced. -/
def imageAfter (args : List Text) (done : List Text) (u : Text) : Text :=
  if u ∈ done then tokenValue args u else u

theorem replacedImage_imageAfter (args done : List Text) (t : Text) :
    replacedImage (imageAfter args done) t (tokenValue args t) = imageAfter args (t :: done) := by
  funext u
  unfold replacedImage imageAfter
  by_cases hut : u = t
  · subst hut
    by_cases hdone : u ∈ done
    · simp [hdone]
    · simp [hdone]
  · simp [hut]

/-- A text and arguments for which neither the tokens found nor their values run into one another.
Only the tokens of the text count; a value may hold any other. -/
structure Separated (s : Text) (args : List Text) : Prop where
  /-- The value of a token is the token itself, or no token of the text begins in it. -/
  value : ∀ t ∈ tokens s, tokenValue args t = t ∨ ∀ u ∈ tokens s, Avoids (tokenValue args t) u
  /-- No token stands inside another. -/
  nested : ∀ t ∈ tokens s, ∀ u ∈ tokens s, ¬t <:+: u.tail
  /-- No token of the text may begin with a dollar sign outside the tokens and the piece behind it,
  shown as it ends up. -/
  lone_dollar : (pieces s).IsChain fun p next =>
    p = .plain '$' → ∀ t ∈ tokens s, ¬MayBegin t ('$' :: next.shown (tokenValue args))

instance (s : Text) (args : List Text) : Decidable (Separated s args) :=
  decidable_of_iff (_ ∧ _ ∧ _)
    ⟨fun h => Separated.mk h.1 h.2.1 h.2.2, fun h => ⟨h.value, h.nested, h.lone_dollar⟩⟩

section Turns

variable {s : Text} {args : List Text} {t u : Text}

theorem Separated.value_imageAfter (h : Separated s args) (done : List Text) (ht : t ∈ tokens s)
    (hu : u ∈ tokens s) : imageAfter args done u = u ∨ Avoids (imageAfter args done u) t := by
  unfold imageAfter
  split
  · exact (h.value u hu).imp_right fun havoids => havoids t ht
  · exact .inl rfl

theorem Separated.lone_dollar_imageAfter (h : Separated s args) (done : List Text)
    (ht : t ∈ tokens s) : (pieces s).IsChain fun p next =>
      p = .plain '$' → ¬MayBegin t ('$' :: next.shown (imageAfter args done)) := by
  refine h.lone_dollar.imp_of_mem_imp fun p next _ hnext hlone hp => ?_
  cases next with
  | plain c => exact hlone hp t ht
  | token u =>
    rw [Piece.shown, imageAfter]
    split
    · exact hlone hp t ht
    · -- a token that has had no turn still stands behind the dollar sign
      have hu : IsToken u := isToken_of_mem_tokens (List.mem_filterMap.mpr ⟨_, hnext, rfl⟩)
      exact (isToken_of_mem_tokens ht).not_mayBegin_of_opensNothing hu.opensNothing

/-- **All replacements.** Replacing tokens one after the other shows each of them as its value. -/
theorem Separated.substitute_shown (h : Separated s args) {ts : List Text}
    (hts : ∀ t ∈ ts, t ∈ tokens s) (done : List Text) :
    substitute args ts ((pieces s).flatMap (Piece.shown (imageAfter args done))) =
      (pieces s).flatMap (Piece.shown (imageAfter args (ts.reverse ++ done))) := by
  induction ts generalizing done with
  | nil => rfl
  | cons t ts ih =>
    obtain ⟨ht, hrest⟩ := List.forall_mem_cons.mp hts
    have hstep := replaceAll_shown (v := tokenValue args t) (isToken_of_mem_tokens ht)
      (scanned_pieces s) (h.nested t ht) (h.lone_dollar_imageAfter done ht)
      fun u hu => h.value_imageAfter done ht hu
    rw [replacedImage_imageAfter] at hstep
    calc substitute args (t :: ts) ((pieces s).flatMap (Piece.shown (imageAfter args done)))
        = substitute args ts (Text.replaceAll t (tokenValue args t)
            ((pieces s).flatMap (Piece.shown (imageAfter args done)))) := rfl
      _ = substitute args ts
            ((pieces s).flatMap (Piece.shown (imageAfter args (t :: done)))) := by rw [hstep]
      _ = (pieces s).flatMap (Piece.shown (imageAfter args (ts.reverse ++ t :: done))) :=
          ih hrest (t :: done)
      _ = _ := by rw [List.reverse_cons, List.append_assoc, List.singleton_append]

theorem shown_imageAfter_nil (args : List Text) (p : Piece) :
    p.shown (imageAfter args []) = p.text := by
  cases p <;> simp [Piece.shown, Piece.text, imageAfter]

/-- A row of pieces shows the same under two images that agree on its tokens. -/
theorem flatMap_shown_congr {image image' : Text → Text} {ps : List Piece}
    (h : ∀ t ∈ ps.filterMap Piece.token?, image t = image' t) :
    ps.flatMap (Piece.shown image) = ps.flatMap (Piece.shown image') := by
  apply List.flatMap_congr
  intro p hp
  cases p with
  | plain c => rfl
  | token t => exact h t (List.mem_filterMap.mpr ⟨_, hp, rfl⟩)

/-- When every token of the text has its turn, the text is filled, however often each has one and in
whatever order. -/
theorem Separated.substitute_eq_fill (h : Separated s args) {ts : List Text}
    (hts : ∀ t, t ∈ ts ↔ t ∈ tokens s) : substitute args ts s = fill s args := by
  have hstart : (pieces s).flatMap (Piece.shown (imageAfter args [])) = s := by
    rw [List.flatMap_congr fun p _ => shown_imageAfter_nil args p, flatMap_text_pieces]
  have hend : ∀ t ∈ tokens s, imageAfter args (ts.reverse ++ []) t = tokenValue args t := by
    intro t ht
    simp [imageAfter, (hts t).mpr ht]
  calc substitute args ts s
      = substitute args ts ((pieces s).flatMap (Piece.shown (imageAfter args []))) := by rw [hstart]
    _ = (pieces s).flatMap (Piece.shown (imageAfter args (ts.reverse ++ []))) :=
        h.substitute_shown (fun t ht => (hts t).mp ht) []
    _ = fill s args := flatMap_shown_congr hend

end Turns

/-! ## Untangled texts -/

/-- A dollar sign outside the tokens stands before a plain character that is no digit, or it would
begin a token. -/
theorem Scanned.isChain_opensNothing {ps : List Piece} (hps : Scanned ps)
    (hlone : ps.IsChain fun p next => p = .plain '$' → next ≠ .plain '{' ∧ next.token? = none)
    (image : Text → Text) :
    ps.IsChain fun p next => p = .plain '$' → OpensNothing (next.shown image) := by
  induction hps with
  | nil => exact .nil
  | token hu _ ih => exact List.isChain_cons.mpr ⟨by simp, ih (List.isChain_cons.mp hlone).2⟩
  | @plain c ps hc hps ih =>
    refine List.isChain_cons.mpr ⟨?_, ih (List.isChain_cons.mp hlone).2⟩
    intro next hnext hdollar
    obtain rfl : c = '$' := Piece.plain.inj hdollar
    obtain ⟨hbrace, htoken⟩ := (List.isChain_cons.mp hlone).1 next hnext rfl
    cases next with
    | token u => exact absurd htoken (by simp [Piece.token?])
    | plain d =>
      refine ⟨fun hd => hbrace (congrArg Piece.plain hd), Bool.eq_false_iff.mpr fun hd => ?_⟩
      obtain ⟨rest, rfl⟩ := List.head?_eq_some_iff.mp hnext
      have hfirst := token?_append (.digit hd) (rest.flatMap Piece.text)
      simp only [List.flatMap_cons, Piece.text, List.cons_append, List.nil_append] at hc hfirst
      rw [hc] at hfirst
      exact absurd hfirst (by simp)

/-- In an untangled text no token stands inside another. -/
theorem Untangled.not_infix_tail {s t u : Text} (hs : Untangled s) (ht : IsToken t)
    (hu : u ∈ tokens s) : ¬t <:+: u.tail := by
  obtain ⟨tail, rfl, -⟩ := ht.exists_cons
  intro hinside
  exact hs.token_tail u hu (hinside.subset List.mem_cons_self)

/-- In an untangled text nothing runs together when no argument holds a dollar sign. -/
theorem Untangled.separated {s : Text} {args : List Text} (hs : Untangled s)
    (hargs : ∀ a ∈ args, '$' ∉ a) : Separated s args where
  value := by
    intro t ht
    exact (tokenValue_eq_or_notMem hargs (isToken_of_mem_tokens ht) (hs.token_tail t ht)).imp_right
      fun hvalue u hu => (isToken_of_mem_tokens hu).avoids_of_notMem hvalue
  nested := by
    intro t ht u hu
    exact hs.not_infix_tail (isToken_of_mem_tokens ht) hu
  lone_dollar := ((scanned_pieces s).isChain_opensNothing hs.lone_dollar (tokenValue args)).imp
    fun _ _ hopens hp _ ht => (isToken_of_mem_tokens ht).not_mayBegin_of_opensNothing (hopens hp)

/-- **Expanding an untangled text fills it in one pass.** -/
theorem expand_eq_fill {s : Text} {args : List Text} (hargs : ∀ a ∈ args, '$' ∉ a)
    (hs : Untangled s) : expand s args = fill s args :=
  (hs.separated hargs).substitute_eq_fill fun _ => Iff.rfl

/-- A text with a repeated token, a malformed one, and lone dollar signs, one of them before a value
that could continue it; the braces are written by their numbers. -/
def bracesText : Text := "$ $0$\x7b2:\x7bx\x7d$0$\x7by\x7d$1$\x7b1:7\x7d$$ $".toList

/-- Values with braces and digits, and an empty value. -/
def bracesArgs : List Text := ["\x7b1\x7d".toList, [], "0\x7d".toList]

theorem expand_eq_fill_braces :
    (∀ a ∈ bracesArgs, '$' ∉ a) ∧ Untangled bracesText ∧
      expand bracesText bracesArgs = "$ \x7b1\x7d0\x7d\x7b1\x7d$\x7by\x7d7$$ $".toList := by
  have hargs : ∀ a ∈ bracesArgs, '$' ∉ a := by decide
  have hs : Untangled bracesText := by decide
  refine ⟨hargs, hs, ?_⟩
  rw [expand_eq_fill hargs hs]
  decide

end Snippets.Placeholder
