/-
# Snippets.Proofs.Placeholder.Malformed — tokens that denote no placeholder change nothing

A token that denotes no placeholder is its own value, and replacing a text by itself keeps every
text. So the turns of such tokens can be left out (`substitute_filter`): expanding is giving a turn
to the tokens that denote a placeholder and to no others (`expand_ignores_malformed`).

These tokens still take part in the scan, which goes on behind them and finds nothing inside. For a
dollar sign and a digit of another script that makes no difference, because no token begins at either
of the two when such digits are not recognised. Recognising fewer digits finds the same tokens but
for these (`tokensWith_eq_filter`), and so it does not show in any result which decimal digits are
recognised besides the ASCII ones (`substitute_tokensWith`).
-/
import Snippets.Proofs.Placeholder.Written

namespace Snippets.Placeholder

/-! ## Which tokens denote no placeholder -/

/-- Between braces, what stands before the first colon has to denote an index. -/
theorem parse?_braced_eq_none_iff {inner : Text} :
    parse? (braced inner) = none ↔ ∀ n < indexLimit, ¬Denotes (splitColon inner).1 n := by
  rw [parse?_braced, Option.map_eq_none_iff, Option.eq_none_iff_forall_ne_some]
  constructor
  · intro h n hlt hdenotes
    exact h n (index?_eq_some_iff.mpr ⟨hdenotes, hlt⟩)
  · intro h n hn
    obtain ⟨hdenotes, hlt⟩ := index?_eq_some_iff.mp hn
    exact h n hlt hdenotes

theorem isSome_index?_singleton (c : Char) : (index? [c]).isSome = c.isDigit := by
  by_cases hplus : c = '+'
  · subst hplus
    decide
  have hdrop : dropPlus [c] = [c] := by
    unfold dropPlus
    split <;> simp_all
  have hradix : announcedRadix [c] = (.decimal, [c]) := by
    unfold announcedRadix
    split <;> simp_all
  rw [← Radix.isSome_digit?_decimal, index?, hdrop, hradix]
  cases hd : Radix.decimal.digit? c with
  | none => simp [Radix.numeral?, Radix.digitsFrom?, hd]
  | some d =>
    have hlt : d < 10 := (Radix.digit?_eq_some_iff.mp hd).1
    have hlimit : d < indexLimit := hlt.trans (by decide)
    simp [Radix.numeral?, Radix.digitsFrom?, hd, hlimit]

/-- Behind a dollar sign, a digit denotes an index exactly when it is an ASCII digit. -/
theorem isSome_parse?_digit (c : Char) : (parse? ['$', c]).isSome = c.isDigit := by
  have hbraces : dropBraces (dropDollar ['$', c]) = [c] := by
    unfold dropBraces dropDollar
    split <;> simp_all
  by_cases hcolon : c = ':'
  · subst hcolon
    decide
  · have hsplit : splitColon [c] = ([c], []) := splitColon_of_notMem (by simpa using Ne.symm hcolon)
    rw [parse?, hbraces, hsplit, Option.isSome_map, isSome_index?_singleton]

/-! ## Turns that change nothing -/

theorem replaceAll_tokenValue_of_malformed {args : List Text} {t : Text} (ht : t ≠ [])
    (h : parse? t = none) (s : Text) : Text.replaceAll t (tokenValue args t) s = s := by
  rw [tokenValue_of_malformed h, Text.replaceAll_self ht]

/-- Only the turns of tokens that denote a placeholder count. -/
theorem substitute_filter {args ts : List Text} (hts : ∀ t ∈ ts, t ≠ []) (s : Text) :
    substitute args (ts.filter fun t => (parse? t).isSome) s = substitute args ts s := by
  induction ts generalizing s with
  | nil => rfl
  | cons t ts ih =>
    obtain ⟨ht, hrest⟩ := List.forall_mem_cons.mp hts
    cases hparse : parse? t with
    | none =>
      rw [List.filter_cons_of_neg (by simp [hparse]), ih hrest, substitute, substitute, List.foldl_cons,
        replaceAll_tokenValue_of_malformed ht hparse]
    | some p =>
      rw [List.filter_cons_of_pos (by simp [hparse]), substitute, List.foldl_cons]
      exact ih hrest _

theorem expand_eq_substitute_filter (s : Text) (args : List Text) :
    expand s args = substitute args ((tokens s).filter fun t => (parse? t).isSome) s :=
  (substitute_filter (fun _ ht => (isToken_of_mem_tokens ht).ne_nil) s).symm

/-- A text whose tokens are all malformed stays as it is, whatever the arguments. -/
theorem expand_of_malformed {s : Text} (h : ∀ t ∈ tokens s, parse? t = none) (args : List Text) :
    expand s args = s := by
  have hnone : ((tokens s).filter fun t => (parse? t).isSome) = [] := by
    rw [List.filter_eq_nil_iff]
    intro t ht
    simp [h t ht]
  rw [expand_eq_substitute_filter, hnone, substitute_nil]

/-! ## Recognising fewer digits -/

/-- The token at the start of a text, if there is one, when the digits are those of a class. -/
def tokenWith? (digit : Char → Bool) : Text → Option Text
  | '$' :: '{' :: rest => token? ('$' :: '{' :: rest)
  | '$' :: c :: _ => if digit c then some ['$', c] else none
  | _ => none

/-- The tokens of a text, when the digits are those of a class, after `skip` characters that belong
to the token before. -/
def tokensWithAfter (digit : Char → Bool) : (skip : Nat) → Text → List Text
  | _, [] => []
  | skip + 1, _ :: rest => tokensWithAfter digit skip rest
  | 0, c :: rest =>
    match tokenWith? digit (c :: rest) with
    | some t => t :: tokensWithAfter digit (t.length - 1) rest
    | none => tokensWithAfter digit 0 rest

/-- The tokens of a text, from left to right, when the digits are those of a class. -/
def tokensWith (digit : Char → Bool) (s : Text) : List Text := tokensWithAfter digit 0 s

section Digits

variable {digit : Char → Bool}

theorem tokensWithAfter_eq_drop (skip : Nat) (s : Text) :
    tokensWithAfter digit skip s = tokensWith digit (s.drop skip) := by
  induction s generalizing skip with
  | nil => simp [tokensWithAfter, tokensWith]
  | cons c rest ih =>
    cases skip with
    | zero => rfl
    | succ skip => simpa [tokensWithAfter] using ih skip

theorem tokensWith_cons_of_none {c : Char} {rest : Text} (h : tokenWith? digit (c :: rest) = none) :
    tokensWith digit (c :: rest) = tokensWith digit rest := by
  rw [tokensWith, tokensWithAfter, h]
  rfl

theorem tokensWith_append {t rest : Text} (hne : t ≠ [])
    (h : tokenWith? digit (t ++ rest) = some t) :
    tokensWith digit (t ++ rest) = t :: tokensWith digit rest := by
  obtain ⟨c, tail, rfl⟩ := List.exists_cons_of_ne_nil hne
  rw [List.cons_append] at h ⊢
  rw [tokensWith, tokensWithAfter, h]
  simp [tokensWithAfter_eq_drop]

theorem tokenWith?_braced {inner : Text} (hinner : ∀ c ∈ inner, isInner c = true) (rest : Text) :
    tokenWith? digit (braced inner ++ rest) = some (braced inner) :=
  token?_append (.braced hinner) rest

theorem tokenWith?_digit {c : Char} (hc : Text.isDecimalDigit c = true) (rest : Text) :
    tokenWith? digit ('$' :: c :: rest) = if digit c then some ['$', c] else none := by
  have hbrace : c ≠ '{' := by
    rintro rfl
    rw [not_isDecimalDigit_brace] at hc
    exact Bool.false_ne_true hc
  simp [tokenWith?]

theorem tokenWith?_cons_of_ne {c : Char} (hc : c ≠ '$') (rest : Text) :
    tokenWith? digit (c :: rest) = none := by
  unfold tokenWith?
  split <;> simp_all

/-- A token at the start of a text is found when its digit is recognised, and is passed over when
it is not. -/
theorem tokensWith_append_of_isToken {t : Text} (ht : IsToken t) (rest : Text) :
    tokensWith digit (t ++ rest) =
      if (tokenWith? digit t).isSome then t :: tokensWith digit rest else tokensWith digit rest := by
  have hpresent (h : ∀ back, tokenWith? digit (t ++ back) = some t) :
      tokensWith digit (t ++ rest) =
        if (tokenWith? digit t).isSome then t :: tokensWith digit rest else tokensWith digit rest := by
    have halone : tokenWith? digit t = some t := by simpa using h []
    rw [tokensWith_append ht.ne_nil (h rest), halone]
    rfl
  cases ht with
  | @digit c hc =>
    cases hdigit : digit c with
    | true =>
      apply hpresent
      intro back
      rw [List.cons_append, List.singleton_append, tokenWith?_digit hc, if_pos hdigit]
    | false =>
      have hnone (back : Text) : tokenWith? digit ('$' :: c :: back) = none := by
        rw [tokenWith?_digit hc, if_neg (by simp [hdigit])]
      have hdollar : c ≠ '$' := by
        rintro rfl
        exact absurd hc (by decide)
      -- nothing begins at the dollar sign, and nothing at the digit
      rw [List.cons_append, List.singleton_append, tokensWith_cons_of_none (hnone rest),
        tokensWith_cons_of_none (tokenWith?_cons_of_ne hdollar rest), hnone []]
      rfl
  | braced hinner => exact hpresent (tokenWith?_braced hinner)

/-- Where there is no token, there is none with fewer digits. -/
theorem tokenWith?_eq_none (hsub : ∀ c, digit c = true → Text.isDecimalDigit c = true) {s : Text}
    (h : token? s = none) : tokenWith? digit s = none := by
  unfold tokenWith?
  split
  · exact h
  · rename_i c rest _
    rw [if_neg]
    intro hdigit
    have htoken : IsToken ['$', c] := .digit (hsub c hdigit)
    exact token?_eq_none_iff.mp h _ htoken ⟨rest, rfl⟩
  · rfl

/-- **Recognising fewer digits shifts no other token**: what is found are the tokens of the text but
for those with another digit. -/
theorem tokensWith_eq_filter (hsub : ∀ c, digit c = true → Text.isDecimalDigit c = true) (s : Text) :
    tokensWith digit s = (tokens s).filter fun t => (tokenWith? digit t).isSome := by
  have hscanned (ps : List Piece) (hps : Scanned ps) : tokensWith digit (ps.flatMap Piece.text) =
      (ps.filterMap Piece.token?).filter fun t => (tokenWith? digit t).isSome := by
    induction hps with
    | nil => rfl
    | @token t ps ht _ ih =>
      rw [List.flatMap_cons, Piece.text, tokensWith_append_of_isToken ht, ih,
        List.filterMap_cons_some (by rfl), List.filter_cons]
    | @plain c ps hc _ ih =>
      rw [List.flatMap_cons, Piece.text, List.singleton_append,
        tokensWith_cons_of_none (tokenWith?_eq_none hsub hc), ih]
      rfl
  have hpieces := hscanned (pieces s) (scanned_pieces s)
  rwa [flatMap_text_pieces] at hpieces

/-- A token is recognised unless it is a digit that is not. -/
theorem isSome_tokenWith? {t : Text} (ht : IsToken t)
    (h : ∀ c, t = ['$', c] → Text.isDecimalDigit c = true → digit c = true) :
    (tokenWith? digit t).isSome = true := by
  cases ht with
  | @digit c hc =>
    rw [tokenWith?_digit hc, if_pos (h c rfl hc)]
    rfl
  | @braced inner hinner =>
    have halone : tokenWith? digit (braced inner ++ []) = some _ := tokenWith?_braced hinner []
    rw [List.append_nil] at halone
    exact Option.isSome_of_eq_some halone

/-- What denotes a placeholder is found with the ASCII digits. -/
theorem filter_tokensWith (hascii : ∀ c, c.isDigit = true → digit c = true)
    (hsub : ∀ c, digit c = true → Text.isDecimalDigit c = true) (s : Text) :
    ((tokensWith digit s).filter fun t => (parse? t).isSome) =
      (tokens s).filter fun t => (parse? t).isSome := by
  rw [tokensWith_eq_filter hsub, List.filter_filter]
  apply List.filter_congr
  intro t ht
  rw [Bool.and_eq_left_iff_imp]
  intro hparse
  apply isSome_tokenWith? (isToken_of_mem_tokens ht)
  rintro c rfl -
  rw [isSome_parse?_digit] at hparse
  exact hascii c hparse

/-- **It does not matter which digits are recognised** besides the ASCII ones. -/
theorem substitute_tokensWith (hascii : ∀ c, c.isDigit = true → digit c = true)
    (hsub : ∀ c, digit c = true → Text.isDecimalDigit c = true) (s : Text) (args : List Text) :
    substitute args (tokensWith digit s) s = expand s args := by
  have hne : ∀ t ∈ tokensWith digit s, t ≠ [] := by
    intro t ht
    rw [tokensWith_eq_filter hsub] at ht
    exact (isToken_of_mem_tokens (List.mem_of_mem_filter ht)).ne_nil
  calc substitute args (tokensWith digit s) s
      = substitute args ((tokensWith digit s).filter fun t => (parse? t).isSome) s :=
        (substitute_filter hne s).symm
    _ = substitute args ((tokens s).filter fun t => (parse? t).isSome) s := by
        rw [filter_tokensWith hascii hsub]
    _ = expand s args := (expand_eq_substitute_filter s args).symm

end Digits

/-- With the decimal digits of all scripts, the tokens are found. -/
theorem tokensWith_isDecimalDigit (s : Text) : tokensWith Text.isDecimalDigit s = tokens s := by
  rw [tokensWith_eq_filter fun _ hc => hc, List.filter_eq_self]
  intro t ht
  exact isSome_tokenWith? (isToken_of_mem_tokens ht) fun _ _ hc => hc

/-! ## Malformed tokens change nothing -/

/-- A number that is too great for an index denotes no placeholder. -/
theorem parse?_braced_of_indexLimit_le {index : Text} {n : Nat} (h : Denotes index n)
    (hlimit : indexLimit ≤ n) :
    parse? (braced index) = none ∧ ∀ d, parse? (braced (index ++ ':' :: d)) = none := by
  have hcolon : ':' ∉ index := h.notMem (by decide) (by decide)
  have hnone : ∀ m < indexLimit, ¬Denotes index m := by
    intro m hm hdenotes
    rw [hdenotes.unique h] at hm
    omega
  refine ⟨parse?_braced_eq_none_iff.mpr ?_, fun d => parse?_braced_eq_none_iff.mpr ?_⟩
  · rw [splitColon_of_notMem hcolon]
    exact hnone
  · rw [splitColon_append hcolon]
    exact hnone

/-- Braces around a letter, around nothing, and around a digit that is not octal; the braces are
written by their numbers. -/
def malformedTokens : List Text :=
  ["$\x7ba\x7d".toList, "$\x7b\x7d".toList, "$\x7b08\x7d".toList]

/-- **Malformed tokens change nothing.** Expanding gives a turn to the tokens that denote a
placeholder, in their order, and the turn of any other token keeps every text. Among those others are
tokens with a number of `2 ^ 64` or more and the digits of other scripts, so that recognising only
ASCII digits gives the same result for every text; and a text in which all tokens are malformed stays
as it is. -/
theorem expand_ignores_malformed :
    (∀ (s : Text) (args : List Text),
      expand s args = substitute args ((tokens s).filter fun t => (parse? t).isSome) s) ∧
    (∀ t : Text, t ≠ [] → parse? t = none → ∀ (args : List Text) (s : Text),
      Text.replaceAll t (tokenValue args t) s = s) ∧
    (∀ t ∈ malformedTokens, tokens t = [t] ∧ parse? t = none) ∧
    (∀ (index : Text) (n : Nat), Denotes index n → indexLimit ≤ n →
      parse? (braced index) = none ∧ ∀ d : Text, parse? (braced (index ++ ':' :: d)) = none) ∧
    (∀ c : Char, Text.isDecimalDigit c = true → c.isDigit = false →
      tokens ['$', c] = [['$', c]] ∧ parse? ['$', c] = none) ∧
    (∀ (s : Text) (args : List Text), tokensWith Text.isDecimalDigit s = tokens s ∧
      substitute args (tokensWith Char.isDigit s) s = expand s args) ∧
    ∀ (s : Text) (args : List Text), (∀ t ∈ tokens s, parse? t = none) → expand s args = s := by
  refine ⟨expand_eq_substitute_filter, ?_, by decide, ?_, ?_, ?_, fun s args h => ?_⟩
  · intro t ht hparse args s
    exact replaceAll_tokenValue_of_malformed ht hparse s
  · intro index n
    exact parse?_braced_of_indexLimit_le
  · intro c hc hdigit
    refine ⟨tokens_of_isToken (.digit hc), ?_⟩
    rw [← Option.isNone_iff_eq_none, ← Option.not_isSome, isSome_parse?_digit, hdigit]
    rfl
  · intro s args
    refine ⟨tokensWith_isDecimalDigit s, substitute_tokensWith (fun _ hc => hc) ?_ s args⟩
    exact fun _ => Text.isDecimalDigit_of_isDigit
  · exact expand_of_malformed h args

/-- A malformed token around another token, a digit of another script before an ASCII one, and a
number that is one too great; the braces are written by their numbers. -/
def malformedMixture : Text :=
  "$0$\x7ba$0\x7d$\u06633$1$\x7b18446744073709551616:x\x7d".toList

theorem expand_ignores_malformed_mixture :
    let args : List Text := ["z".toList]
    let text : Text := "$\x7ba$0\x7d$\u06633".toList
    (tokens malformedMixture).filter (fun t => (parse? t).isSome) = ["$0".toList, "$1".toList] ∧
      expand malformedMixture args = "z$\x7baz\x7d$\u06633$\x7b18446744073709551616:x\x7d".toList ∧
      parse? (braced "18446744073709551616:x".toList) = none ∧ parse? ['$', '\u0663'] = none ∧
      (∀ s, Text.replaceAll ['$', '\u0663'] (tokenValue args ['$', '\u0663']) s = s) ∧
      tokensWith Char.isDigit malformedMixture ≠ tokens malformedMixture ∧
      substitute args (tokensWith Char.isDigit malformedMixture) malformedMixture =
        expand malformedMixture args ∧
      expand text args = text := by
  intro args text
  obtain ⟨hexpand, hidle, -, hlimit, hforeign, hascii, hkept⟩ := expand_ignores_malformed
  have hfilter : (tokens malformedMixture).filter (fun t => (parse? t).isSome) =
      ["$0".toList, "$1".toList] := by decide
  have hbehind : Denotes "18446744073709551616".toList indexLimit :=
    ⟨_, .inl rfl, .decimal (by decide) (Radix.numeral?_eq_some_iff.mp rfl)⟩
  obtain ⟨-, hparse⟩ := hforeign '\u0663' (by decide) (by decide)
  refine ⟨hfilter, ?_, (hlimit _ _ hbehind le_rfl).2 _, hparse, ?_, by decide, (hascii _ _).2, ?_⟩
  · rw [hexpand, hfilter]
    decide
  · exact hidle _ (by decide) hparse args
  · exact hkept text args (by decide)

end Snippets.Placeholder
