/-
# Snippets.Proofs.Placeholder.Numeral — which texts are numerals, and of which numbers

A digit of a base stands in a row of digits at the place of its value; there are two rows, one with
small letters and one with capital ones. A numeral is one digit or more, and its number is the sum of
their values, each times the power of the base that belongs to its place (`IsNumeral`). Reading digit
by digit gives exactly that number (`numeral?_eq_some_iff`), and the digits of a number in a base are
a numeral of it (`isNumeral_toDigits`).

Numbers have no bound here. A reader that keeps its value in a word of 64 bits has to give up at the
first product or sum that does not fit. It gives up on exactly the numerals whose number does not fit,
since the value never falls from one digit to the next (`wordFrom?_eq_some_iff`).
-/
import Mathlib.Data.List.Forall2
import Mathlib.Data.Nat.Digits.Defs
import Mathlib.Tactic.Ring
import Snippets.Placeholder.Index

namespace Snippets.Radix

variable {radix : Radix}

/-! ## Digits -/

/-- The digits in ascending order of their values, with small letters. -/
def smallDigits : Text := "0123456789abcdef".toList

/-- The digits in ascending order of their values, with capital letters. -/
def capitalDigits : Text := "0123456789ABCDEF".toList

/-- A character is a digit of a base, with some value. -/
def IsDigit (radix : Radix) (c : Char) (d : Nat) : Prop :=
  d < radix.base ∧ (smallDigits[d]? = some c ∨ capitalDigits[d]? = some c)

theorem base_pos (radix : Radix) : 0 < radix.base := by
  cases radix <;> decide

theorem base_le (radix : Radix) : radix.base ≤ 16 := by
  cases radix <;> decide

/-- A row whose digits are read as their places. -/
theorem alphanumericValue?_of_getElem? {row : Text}
    (hrow : ∀ d < row.length, row[d]?.bind alphanumericValue? = some d) {c : Char} {d : Nat}
    (h : row[d]? = some c) : alphanumericValue? c = some d := by
  obtain ⟨hd, -⟩ := List.getElem?_eq_some_iff.mp h
  have hvalue := hrow d hd
  rwa [h] at hvalue

/-- A digit in one of the two rows is read as its place. -/
theorem alphanumericValue?_of_row {c : Char} {d : Nat}
    (h : smallDigits[d]? = some c ∨ capitalDigits[d]? = some c) : alphanumericValue? c = some d := by
  rcases h with h | h
  · exact alphanumericValue?_of_getElem? (by decide) h
  · exact alphanumericValue?_of_getElem? (by decide) h

/-- A stretch of a row, from the place `first` on, whose code points go up from `low`. -/
theorem getElem?_of_stretch {row : Text} {first low count : Nat}
    (hrow : ∀ n < count, row[n + first]? = some (Char.ofNat (n + low))) {c : Char}
    (hlow : low ≤ c.toNat) (hcount : c.toNat - low < count) :
    row[c.toNat - low + first]? = some c := by
  have hplace := hrow (c.toNat - low) hcount
  rwa [Nat.sub_add_cancel hlow, Char.ofNat_toNat] at hplace

/-- A character that is read as a digit stands in one of the two rows. -/
theorem row_of_alphanumericValue? {c : Char} {d : Nat} (h : alphanumericValue? c = some d)
    (hd : d < 16) : smallDigits[d]? = some c ∨ capitalDigits[d]? = some c := by
  -- the stretches of the rows: decimal digits, small letters, capital letters
  have hdecimal : ∀ n < 10, smallDigits[n + 0]? = some (Char.ofNat (n + 48)) := by decide
  have hsmall : ∀ n < 6, smallDigits[n + 10]? = some (Char.ofNat (n + 97)) := by decide
  have hcapital : ∀ n < 6, capitalDigits[n + 10]? = some (Char.ofNat (n + 65)) := by decide
  unfold alphanumericValue? at h
  split at h
  · rename_i hrange
    have hhigh : c.toNat ≤ 57 := hrange.2
    obtain rfl : c.toNat - 48 = d := Option.some.inj h
    exact .inl (getElem?_of_stretch hdecimal hrange.1 (by omega))
  split at h
  · rename_i hrange
    obtain rfl : c.toNat - 97 + 10 = d := Option.some.inj h
    exact .inl (getElem?_of_stretch hsmall hrange.1 (by omega))
  split at h
  · rename_i hrange
    obtain rfl : c.toNat - 65 + 10 = d := Option.some.inj h
    exact .inr (getElem?_of_stretch hcapital hrange.1 (by omega))
  · exact absurd h (by simp)

/-- Digits are read as what they are worth, and nothing else is read. -/
theorem digit?_eq_some_iff {c : Char} {d : Nat} : radix.digit? c = some d ↔ radix.IsDigit c d := by
  rw [digit?, Option.filter_eq_some_iff, decide_eq_true_eq]
  constructor
  · rintro ⟨hvalue, hlt⟩
    exact ⟨hlt, row_of_alphanumericValue? hvalue (hlt.trans_le radix.base_le)⟩
  · rintro ⟨hlt, hrow⟩
    exact ⟨alphanumericValue?_of_row hrow, hlt⟩

/-- A digit of any base stands in one of the two rows. -/
theorem IsDigit.mem_rows {c : Char} {d : Nat} (h : radix.IsDigit c d) :
    c ∈ smallDigits ++ capitalDigits :=
  List.mem_append.mpr (h.2.imp List.mem_of_getElem? List.mem_of_getElem?)

theorem isDigit_digitChar {d : Nat} (h : d < radix.base) : radix.IsDigit (Nat.digitChar d) d := by
  have hrow : ∀ d < 16, smallDigits[d]? = some (Nat.digitChar d) := by decide
  exact ⟨h, .inl (hrow d (h.trans_le radix.base_le))⟩

/-- The character that is written for a value is read as that value. -/
theorem digit?_digitChar {d : Nat} (h : d < radix.base) :
    radix.digit? (Nat.digitChar d) = some d :=
  digit?_eq_some_iff.mpr (isDigit_digitChar h)

/-- The decimal digits are the ASCII ones. -/
theorem isSome_digit?_decimal (c : Char) : (decimal.digit? c).isSome = c.isDigit := by
  have hascii : c.isDigit = true ↔ '0' ≤ c ∧ c ≤ '9' := by
    simp only [Char.isDigit, Bool.and_eq_true, decide_eq_true_eq]
    exact Iff.rfl
  rw [Bool.eq_iff_iff, hascii, digit?, alphanumericValue?]
  split
  · rename_i hrange
    have hhigh : c.toNat ≤ 57 := hrange.2
    have hlt : c.toNat - 48 < 10 := by omega
    simp [hrange, base, hlt]
  · -- a letter is worth ten or more
    rename_i hrange
    refine iff_of_false ?_ hrange
    split
    · simp [base]
    split
    · simp [base]
    · simp

/-! ## Numerals -/

/-- A numeral of a base and its number: one digit or more, in positional notation. -/
def IsNumeral (radix : Radix) (s : Text) (n : Nat) : Prop :=
  s ≠ [] ∧ ∃ ds : List Nat, List.Forall₂ radix.IsDigit s ds ∧
    n = Nat.ofDigits radix.base ds.reverse

/-- The digits read so far move up by one place for each digit that follows. -/
theorem digitsFrom?_eq_some_iff {value n : Nat} {s : Text} : radix.digitsFrom? value s = some n ↔
    ∃ ds : List Nat, List.Forall₂ radix.IsDigit s ds ∧
      n = value * radix.base ^ s.length + Nat.ofDigits radix.base ds.reverse := by
  induction s generalizing value with
  | nil =>
    rw [digitsFrom?]
    constructor
    · intro h
      exact ⟨[], .nil, by simpa using (Option.some.inj h).symm⟩
    · rintro ⟨ds, hds, rfl⟩
      cases hds
      simp
  | cons c rest ih =>
    -- a digit in front counts with the power of the base that the rest leaves to it
    have hplace (d : Nat) (ds : List Nat) (hds : List.Forall₂ radix.IsDigit rest ds) :
        (value * radix.base + d) * radix.base ^ rest.length + Nat.ofDigits radix.base ds.reverse =
          value * radix.base ^ (c :: rest).length + Nat.ofDigits radix.base (d :: ds).reverse := by
      rw [List.reverse_cons, Nat.ofDigits_append, Nat.ofDigits_singleton, List.length_reverse,
        ← hds.length_eq, List.length_cons, pow_succ]
      ring
    rw [digitsFrom?, Option.bind_eq_some_iff]
    constructor
    · rintro ⟨d, hd, hrest⟩
      obtain ⟨ds, hds, rfl⟩ := ih.mp hrest
      exact ⟨d :: ds, .cons (digit?_eq_some_iff.mp hd) hds, hplace d ds hds⟩
    · rintro ⟨_, hds, rfl⟩
      cases hds with
      | @cons _ d _ ds hd hds =>
        exact ⟨d, digit?_eq_some_iff.mpr hd, ih.mpr ⟨ds, hds, (hplace d ds hds).symm⟩⟩

/-- Reading a numeral gives its number, and nothing but a numeral is read. -/
theorem numeral?_eq_some_iff {s : Text} {n : Nat} :
    radix.numeral? s = some n ↔ radix.IsNumeral s n := by
  unfold numeral? IsNumeral
  split
  · rename_i hempty
    simp [List.isEmpty_iff.mp hempty]
  · rename_i hne
    rw [digitsFrom?_eq_some_iff]
    simp only [Nat.zero_mul, Nat.zero_add]
    constructor
    · intro h
      exact ⟨by simpa using hne, h⟩
    · exact And.right

/-- Reading never falls below the value it starts from. -/
theorem le_of_digitsFrom? {value n : Nat} {s : Text} (h : radix.digitsFrom? value s = some n) :
    value ≤ n := by
  obtain ⟨ds, -, rfl⟩ := digitsFrom?_eq_some_iff.mp h
  calc value = value * 1 := (Nat.mul_one value).symm
    _ ≤ value * radix.base ^ s.length := Nat.mul_le_mul_left _ (Nat.pow_pos radix.base_pos)
    _ ≤ _ := Nat.le_add_right _ _

/-- What holds of the digits in the two rows holds of the digits of a numeral. -/
theorem IsNumeral.forall_of_rows {p : Char → Bool} (hrows : (smallDigits ++ capitalDigits).all p = true)
    {s : Text} {n : Nat} (h : radix.IsNumeral s n) : ∀ c ∈ s, p c = true := by
  obtain ⟨-, ds, hds, -⟩ := h
  have hboth : List.Forall₂ (fun c d => p c = true ∧ radix.IsDigit c d) s ds :=
    hds.imp fun c _ hd => ⟨List.all_eq_true.mp hrows c hd.mem_rows, hd⟩
  exact ((List.forall₂_and_left s ds).mp hboth).1

/-- Numerals are made of ASCII letters and digits. -/
theorem IsNumeral.isAlphanum {s : Text} {n : Nat} (h : radix.IsNumeral s n) :
    ∀ c ∈ s, c.isAlphanum = true :=
  h.forall_of_rows (by decide)

theorem IsNumeral.exists_isDigit {c : Char} {s : Text} {n : Nat} (h : radix.IsNumeral (c :: s) n) :
    ∃ d, radix.IsDigit c d := by
  obtain ⟨-, ds, hds, -⟩ := h
  cases hds with
  | cons hd _ => exact ⟨_, hd⟩

/-! ## Writing a number -/

/-- One more digit at the end. -/
theorem IsNumeral.concat {s : Text} {n d : Nat} {c : Char} (h : radix.IsNumeral s n)
    (hd : radix.IsDigit c d) : radix.IsNumeral (s ++ [c]) (n * radix.base + d) := by
  obtain ⟨-, ds, hds, rfl⟩ := h
  refine ⟨by simp, ds ++ [d], List.rel_append hds (.cons hd .nil), ?_⟩
  rw [List.reverse_append, List.reverse_singleton, List.singleton_append, Nat.ofDigits_cons]
  ring

/-- The digits of a number in a base are a numeral of the number. -/
theorem isNumeral_toDigits (radix : Radix) (n : Nat) :
    radix.IsNumeral (Nat.toDigits radix.base n) n := by
  have hbase : 1 < radix.base := by cases radix <;> decide
  induction n using Nat.strongRecOn with
  | _ n ih =>
    by_cases hn : n < radix.base
    · rw [Nat.toDigits_of_lt_base hn]
      exact ⟨by simp, [n], .cons (isDigit_digitChar hn) .nil, by simp⟩
    · have hlt : n / radix.base < n := Nat.div_lt_self (by omega) hbase
      have hmod : n % radix.base < radix.base := Nat.mod_lt n radix.base_pos
      have hwritten := (ih _ hlt).concat (isDigit_digitChar hmod)
      rw [Nat.div_add_mod'] at hwritten
      rw [Nat.toDigits_of_base_le hbase (by omega)]
      exact hwritten

/-! ## Reading into a word -/

/-- The word that holds a number, if the number fits into one. -/
def word? (n : Nat) : Option UInt64 := if n < UInt64.size then some n.toUInt64 else none

/-- A value in a word with one more digit, if first the product and then the sum fits. -/
def pushDigit? (radix : Radix) (value : UInt64) (d : Nat) : Option UInt64 :=
  (word? (value.toNat * radix.base)).bind fun product => word? (product.toNat + d)

/-- The value of a row of digits after the digits that make up `value`, kept in a word. Reading ends
without a value at the first character that is no digit or does not fit any more. -/
def wordFrom? (radix : Radix) : (value : UInt64) → Text → Option UInt64
  | value, [] => some value
  | value, c :: rest =>
    (radix.digit? c).bind fun d => (radix.pushDigit? value d).bind fun next => radix.wordFrom? next rest

theorem toNat_toUInt64 {n : Nat} (h : n < UInt64.size) : n.toUInt64.toNat = n :=
  UInt64.toNat_ofNat_of_lt' h

theorem word?_eq_some_iff {n : Nat} {w : UInt64} : word? n = some w ↔ w.toNat = n := by
  rw [word?, Option.ite_none_right_eq_some, Option.some.injEq]
  constructor
  · rintro ⟨hfits, rfl⟩
    exact toNat_toUInt64 hfits
  · rintro rfl
    exact ⟨w.toNat_lt, UInt64.toNat_inj.mp (toNat_toUInt64 w.toNat_lt)⟩

/-- A word takes one more digit exactly when the new value fits into it. -/
theorem pushDigit?_eq_some_iff {value next : UInt64} {d : Nat} :
    radix.pushDigit? value d = some next ↔ next.toNat = value.toNat * radix.base + d := by
  rw [pushDigit?, Option.bind_eq_some_iff]
  simp only [word?_eq_some_iff]
  constructor
  · rintro ⟨product, hproduct, hsum⟩
    rw [hsum, hproduct]
  · intro h
    -- the product is at most the new value, so it fits as well
    have hnext : next.toNat < UInt64.size := next.toNat_lt
    have hproduct : (value.toNat * radix.base).toUInt64.toNat = value.toNat * radix.base :=
      toNat_toUInt64 (by omega)
    exact ⟨(value.toNat * radix.base).toUInt64, hproduct, by rw [hproduct, h]⟩

/-- **Reading into a word.** It gives a value exactly when the number fits into the word, and then
that number. -/
theorem wordFrom?_eq_some_iff {value result : UInt64} {s : Text} :
    radix.wordFrom? value s = some result ↔
      radix.digitsFrom? value.toNat s = some result.toNat := by
  induction s generalizing value with
  | nil => simp [wordFrom?, digitsFrom?, UInt64.toNat_inj]
  | cons c rest ih =>
    rw [wordFrom?, digitsFrom?, Option.bind_eq_some_iff, Option.bind_eq_some_iff]
    refine exists_congr fun d => and_congr_right fun _ => ?_
    rw [Option.bind_eq_some_iff]
    simp only [pushDigit?_eq_some_iff]
    constructor
    · rintro ⟨next, hnext, hrest⟩
      rw [← hnext]
      exact ih.mp hrest
    · intro hrest
      -- the value never falls, so it fits now if it fits at the end
      have hfits : value.toNat * radix.base + d < UInt64.size :=
        (le_of_digitsFrom? hrest).trans_lt result.toNat_lt
      refine ⟨(value.toNat * radix.base + d).toUInt64, toNat_toUInt64 hfits, ?_⟩
      rw [ih, toNat_toUInt64 hfits]
      exact hrest

end Snippets.Radix
