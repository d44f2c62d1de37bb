/-
# Snippets.Proofs.Placeholder.Written — a placeholder that is written is understood

A placeholder is written in braces: its index in any of its forms, and behind a colon its default; an
empty default may be left out with the colon (`Writes`). Every number has a form in each base, with
and without a sign (`denotes_of_mem_spellings`).

What is written is read back (`Writes.parse?_eq`), also when the default holds colons, closing braces
or line feeds: the outermost braces and the first colon count, and no index holds a colon. A default
with neither a closing brace nor a line feed leaves the text a single token, so that expanding it
gives the value of the placeholder and nothing else, whatever the value holds
(`expand_of_writes`).
-/
import Snippets.Placeholder.Expand
import Snippets.Proofs.Placeholder.Index
import Snippets.Proofs.Placeholder.Scan
import Snippets.Proofs.Text.Replace

namespace Snippets.Placeholder

/-! ## Spellings of an index -/

/-- A number in decimal digits, in octal digits behind a zero, and in the digits of each base that a
letter announces. -/
def forms (i : Nat) : List Text :=
  [Text.ofNat i, '0' :: Nat.toDigits 8 i, '0' :: 'b' :: Nat.toDigits 2 i,
   '0' :: 'o' :: Nat.toDigits 8 i, '0' :: 'x' :: Nat.toDigits 16 i]

/-- These forms, without a sign and with one. -/
def spellings (i : Nat) : List Text := forms i ++ (forms i).map ('+' :: ·)

theorem head?_toDigits_ne_zero {n : Nat} (hn : n ≠ 0) : (Nat.toDigits 10 n).head? ≠ some '0' := by
  induction n using Nat.strongRecOn with
  | _ n ih =>
    by_cases hlt : n < 10
    · rw [Nat.toDigits_of_lt_base hlt]
      have hdigits : ∀ d < 10, d ≠ 0 → [Nat.digitChar d].head? ≠ some '0' := by decide
      exact hdigits n hlt hn
    · have hne : Nat.toDigits 10 (n / 10) ≠ [] := (Radix.isNumeral_toDigits .decimal (n / 10)).1
      rw [Nat.toDigits_of_base_le (by decide) (by omega), List.head?_append_of_ne_nil _ hne]
      exact ih (n / 10) (by omega) (by omega)

theorem isIndexForm_ofNat (i : Nat) : IsIndexForm (Text.ofNat i) i := by
  by_cases hi : i = 0
  · subst hi
    exact .zero
  · exact .decimal (head?_toDigits_ne_zero hi) (Radix.isNumeral_toDigits .decimal i)

theorem isIndexForm_of_mem_forms {i : Nat} {form : Text} (h : form ∈ forms i) :
    IsIndexForm form i := by
  simp only [forms, List.mem_cons, List.not_mem_nil, or_false] at h
  rcases h with rfl | rfl | rfl | rfl | rfl
  · exact isIndexForm_ofNat i
  · exact .leadingZero (Radix.isNumeral_toDigits .octal i)
  · exact .lettered (by decide) (Radix.isNumeral_toDigits .binary i)
  · exact .lettered (by decide) (Radix.isNumeral_toDigits .octal i)
  · exact .lettered (by decide) (Radix.isNumeral_toDigits .hexadecimal i)

/-- A number can be denoted in each of its spellings. -/
theorem denotes_of_mem_spellings {i : Nat} {s : Text} (h : s ∈ spellings i) : Denotes s i := by
  rcases List.mem_append.mp h with hplain | hsigned
  · exact ⟨s, .inl rfl, isIndexForm_of_mem_forms hplain⟩
  · obtain ⟨form, hform, rfl⟩ := List.mem_map.mp hsigned
    exact ⟨form, .inr rfl, isIndexForm_of_mem_forms hform⟩

/-- What an index does not hold: anything but a sign, ASCII letters and digits. -/
theorem Denotes.notMem {s : Text} {i : Nat} (h : Denotes s i) {c : Char} (hplus : c ≠ '+')
    (hc : c.isAlphanum = false) : c ∉ s := by
  obtain ⟨form, hs, hform⟩ := h
  intro hmem
  have hinside : c ∈ form := by
    rcases hs with rfl | rfl
    · exact hmem
    · exact (List.mem_cons.mp hmem).resolve_left hplus
  rw [hform.isAlphanum c hinside] at hc
  exact Bool.noConfusion hc

/-! ## Reading what is written -/

/-- Text between the marks of a placeholder. -/
def braced (inner : Text) : Text := '$' :: '{' :: (inner ++ ['}'])

/-- A text that writes a placeholder. -/
inductive Writes (p : Placeholder) : Text → Prop
  /-- The index, a colon and the default. -/
  | withDefault {index : Text} (h : Denotes index p.index) :
      Writes p (braced (index ++ ':' :: p.default))
  /-- The index alone, for an empty default. -/
  | withoutDefault {index : Text} (h : Denotes index p.index) (hempty : p.default = []) :
      Writes p (braced index)

theorem splitColon_append {s : Text} (h : ':' ∉ s) (d : Text) : splitColon (s ++ ':' :: d) = (s, d) := by
  induction s with
  | nil => rfl
  | cons c s ih =>
    rw [List.mem_cons, not_or] at h
    rw [List.cons_append, splitColon, if_neg (Ne.symm h.1), ih h.2]

theorem splitColon_of_notMem {s : Text} (h : ':' ∉ s) : splitColon s = (s, []) := by
  induction s with
  | nil => rfl
  | cons c s ih =>
    rw [List.mem_cons, not_or] at h
    rw [splitColon, if_neg (Ne.symm h.1), ih h.2]

theorem dropBraces_closed (s : Text) : dropBraces ('{' :: (s ++ ['}'])) = s := by
  simp [dropBraces]

/-- Between the marks of a placeholder, the first colon separates. -/
theorem parse?_braced (inner : Text) : parse? (braced inner) =
    (index? (splitColon inner).1).map fun n => { index := n, default := (splitColon inner).2 } := by
  have hinner : dropBraces (dropDollar (braced inner)) = inner := dropBraces_closed inner
  rw [parse?, hinner]

variable {p : Placeholder} {s : Text}

/-- What is written is read back, whatever the default holds. -/
theorem Writes.parse?_eq (h : p.Writes s) (hlimit : p.index < indexLimit) : parse? s = some p := by
  cases h with
  | withDefault hindex =>
    have hcolon : ':' ∉ _ := hindex.notMem (by decide) (by decide)
    rw [parse?_braced, splitColon_append hcolon, index?_eq_some_iff.mpr ⟨hindex, hlimit⟩]
    rfl
  | withoutDefault hindex hempty =>
    have hcolon : ':' ∉ _ := hindex.notMem (by decide) (by decide)
    rw [parse?_braced, splitColon_of_notMem hcolon, index?_eq_some_iff.mpr ⟨hindex, hlimit⟩,
      Option.map_some, ← hempty]

/-! ## Expanding what is written -/

theorem isToken_braced {inner : Text} (hclosing : '}' ∉ inner) (hline : '\n' ∉ inner) :
    IsToken (braced inner) := by
  refine .braced fun c hc => ?_
  have hne : c ≠ '}' := fun heq => hclosing (heq ▸ hc)
  have hne' : c ≠ '\n' := fun heq => hline (heq ▸ hc)
  simp [isInner, hne, hne']

/-- A placeholder is written as a single token when its default holds neither a closing brace nor a
line feed. -/
theorem Writes.isToken (h : p.Writes s) (hclosing : '}' ∉ p.default) (hline : '\n' ∉ p.default) :
    IsToken s := by
  cases h with
  | withDefault hindex =>
    have hclosing' : '}' ∉ _ := hindex.notMem (by decide) (by decide)
    have hline' : '\n' ∉ _ := hindex.notMem (by decide) (by decide)
    apply isToken_braced
    · simp [hclosing, hclosing']
    · simp [hline, hline']
  | withoutDefault hindex _ =>
    exact isToken_braced (hindex.notMem (by decide) (by decide)) (hindex.notMem (by decide) (by decide))

theorem tokens_of_isToken {t : Text} (ht : IsToken t) : tokens t = [t] := by
  have htokens := tokens_append_of_isToken ht []
  rwa [List.append_nil] at htokens

/-- A text that is a single token expands to the value of the token. -/
theorem expand_of_isToken {t : Text} (ht : IsToken t) (args : List Text) :
    expand t args = tokenValue args t := by
  have hreplace : Text.replaceAll t (tokenValue args t) (t ++ []) = tokenValue args t ++ [] :=
    Text.replaceAll_append ht.ne_nil []
  rw [expand, tokens_of_isToken ht, substitute, List.foldl_cons, List.foldl_nil]
  simpa using hreplace

/-- **A written placeholder is understood.** Every number can be written, in decimal and octal digits
and behind the letters of the bases, with and without a sign. What is written is read back as the
placeholder it writes. Expanding it gives the argument at its index when that is there and not empty,
and its default otherwise, as they stand. -/
theorem expand_of_writes :
    (∀ (i : Nat) (s : Text), s ∈ spellings i → Denotes s i) ∧
      ∀ (p : Placeholder) (s : Text), p.Writes s → p.index < indexLimit →
        parse? s = some p ∧
          ('}' ∉ p.default → '\n' ∉ p.default → ∀ args : List Text,
            (∀ a, args[p.index]? = some a → a ≠ [] → expand s args = a) ∧
              ((∀ a, args[p.index]? = some a → a = []) → expand s args = p.default)) := by
  refine ⟨fun i s => denotes_of_mem_spellings, ?_⟩
  intro p s hwrites hlimit
  have hparse : parse? s = some p := hwrites.parse?_eq hlimit
  refine ⟨hparse, fun hclosing hline args => ?_⟩
  have hexpand : expand s args = p.value args := by
    rw [expand_of_isToken (hwrites.isToken hclosing hline), tokenValue, hparse]
  constructor
  · intro a harg hne
    rw [hexpand, value, effectiveArgument_eq_some_iff.mpr ⟨harg, hne⟩, Option.getD_some]
  · intro hmissing
    rw [hexpand, value, effectiveArgument_eq_none_iff.mpr hmissing, Option.getD_none]

/-- The greatest index, with a default that holds a colon and the start of a token; the brace is
written by its number. -/
def greatestPlaceholder : Placeholder := { index := indexLimit - 1, default := " a:$\x7b1\r".toList }

/-- A placeholder whose default holds a closing brace and a line feed. -/
def closingPlaceholder : Placeholder := { index := 1, default := "\x7d\n".toList }

theorem expand_of_writes_greatest :
    let greatestText := braced ("+0xffffffffffffffff".toList ++ ':' :: greatestPlaceholder.default)
    let closingText := braced ("01".toList ++ ':' :: closingPlaceholder.default)
    let bareText := braced "01".toList
    greatestPlaceholder.Writes greatestText ∧ parse? greatestText = some greatestPlaceholder ∧
      expand greatestText [greatestText] = greatestPlaceholder.default ∧
      parse? closingText = some closingPlaceholder ∧
      expand bareText [[], '$' :: bareText] = '$' :: bareText := by
  intro greatestText closingText bareText
  obtain ⟨hspelled, hunderstood⟩ := expand_of_writes
  have hdigits : Radix.hexadecimal.IsNumeral "ffffffffffffffff".toList greatestPlaceholder.index :=
    Radix.numeral?_eq_some_iff.mp rfl
  have hindex : Denotes "+0xffffffffffffffff".toList greatestPlaceholder.index :=
    ⟨_, .inr rfl, .lettered (by decide) hdigits⟩
  have hone : Denotes "01".toList 1 := hspelled 1 _ (by decide)
  have hwrites : greatestPlaceholder.Writes greatestText := .withDefault hindex
  obtain ⟨hparse, hexpand⟩ := hunderstood _ _ hwrites (by decide)
  obtain ⟨hclosing, -⟩ := hunderstood closingPlaceholder closingText (.withDefault hone) (by decide)
  obtain ⟨-, hbare⟩ := hunderstood ⟨1, []⟩ bareText (.withoutDefault hone rfl) (by decide)
  refine ⟨hwrites, hparse, ?_, hclosing, ?_⟩
  · -- no argument stands at the greatest index
    exact (hexpand (by decide) (by decide) _).2 (by simp [greatestPlaceholder, indexLimit])
  · exact (hbare (by decide) (by decide) _).1 _ rfl (by simp)

end Snippets.Placeholder
