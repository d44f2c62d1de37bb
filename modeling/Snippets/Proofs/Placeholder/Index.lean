/-
# Snippets.Proofs.Placeholder.Index — which texts denote an index

An index is a numeral behind the announcement of its base, or a decimal numeral without a leading
zero, with at most one plus sign in front of all that (`IsIndexForm`, `Denotes`). The parser of
indexes accepts exactly the texts that denote a number below `2 ^ 64`, and gives that number
(`index?_eq_some_iff_denotes`). Every other text is refused: a number that is too great is not
reduced, and a reader that keeps its value in a word of 64 bits refuses the same texts.

The announcements overlap, since octal digits may stand behind a zero with or without a letter. That
the choice between them is never ambiguous rests on the letters being no octal digits.
-/
import Snippets.Proofs.Placeholder.Numeral

namespace Snippets

/-- The letters that announce a base behind a zero. -/
def Radix.letters : Radix → List Char
  | binary => ['b', 'B']
  | octal => ['o', 'O']
  | decimal => []
  | hexadecimal => ['x', 'X']

namespace Placeholder

/-! ## The forms of an index -/

/-- The forms of an index without its sign, and the number that each denotes. -/
inductive IsIndexForm : Text → Nat → Prop
  /-- A zero and a letter for the base, before digits of that base. -/
  | lettered {radix : Radix} {letter : Char} {digits : Text} {n : Nat}
      (hletter : letter ∈ radix.letters) (h : radix.IsNumeral digits n) :
      IsIndexForm ('0' :: letter :: digits) n
  /-- A zero before octal digits. -/
  | leadingZero {digits : Text} {n : Nat} (h : Radix.octal.IsNumeral digits n) :
      IsIndexForm ('0' :: digits) n
  /-- A zero by itself. -/
  | zero : IsIndexForm ['0'] 0
  /-- Decimal digits, of which the first is not zero. -/
  | decimal {digits : Text} {n : Nat} (hzero : digits.head? ≠ some '0')
      (h : Radix.decimal.IsNumeral digits n) : IsIndexForm digits n

/-- A text that denotes a number: one of the forms, with at most one plus sign in front. -/
def Denotes (s : Text) (n : Nat) : Prop :=
  ∃ form, (s = form ∨ s = '+' :: form) ∧ IsIndexForm form n

/-- An index without its sign holds ASCII letters and digits only. -/
theorem IsIndexForm.isAlphanum {s : Text} {n : Nat} (h : IsIndexForm s n) :
    ∀ c ∈ s, c.isAlphanum = true := by
  have hzero : '0'.isAlphanum = true := by decide
  cases h with
  | @lettered radix letter digits n hletter h =>
    have hletters : radix.letters.all Char.isAlphanum = true := by cases radix <;> decide
    rw [List.forall_mem_cons, List.forall_mem_cons]
    exact ⟨hzero, List.all_eq_true.mp hletters letter hletter, h.isAlphanum⟩
  | leadingZero h =>
    rw [List.forall_mem_cons]
    exact ⟨hzero, h.isAlphanum⟩
  | zero =>
    rw [List.forall_mem_singleton]
    exact hzero
  | decimal _ h => exact h.isAlphanum

/-! ## The announced base -/

theorem announcedRadix_of_letter {radix : Radix} {letter : Char} (h : letter ∈ radix.letters)
    (digits : Text) : announcedRadix ('0' :: letter :: digits) = (radix, digits) := by
  cases radix <;> simp only [Radix.letters, List.mem_cons, List.not_mem_nil, or_false] at h
  all_goals rcases h with rfl | rfl <;> rfl

/-- A character behind a leading zero that is no letter of a base is the first octal digit. -/
theorem announcedRadix_of_leadingZero {c : Char} (h : ∀ radix : Radix, c ∉ radix.letters)
    (digits : Text) : announcedRadix ('0' :: c :: digits) = (.octal, c :: digits) := by
  have hx := h .hexadecimal
  have ho := h .octal
  have hb := h .binary
  simp only [Radix.letters, List.mem_cons, List.not_mem_nil, or_false, not_or] at hx ho hb
  unfold announcedRadix
  split <;> simp_all

theorem announcedRadix_of_decimal {s : Text} (h : s.head? ≠ some '0') :
    announcedRadix s = (.decimal, s) := by
  unfold announcedRadix
  split <;> simp_all

/-- No letter of a base is an octal digit. -/
theorem notMem_letters_of_isDigit {c : Char} {d : Nat} (h : Radix.octal.IsDigit c d)
    (radix : Radix) : c ∉ radix.letters := by
  intro hmem
  have hnone : radix.letters.all (Radix.octal.digit? · = none) = true := by cases radix <;> decide
  have hletter : Radix.octal.digit? c = none := by simpa using List.all_eq_true.mp hnone c hmem
  have hdigit : Radix.octal.digit? c = some d := Radix.digit?_eq_some_iff.mpr h
  rw [hletter] at hdigit
  exact absurd hdigit (by simp)

/-- **The announcements are unambiguous.** The base that is announced, with the digits behind it,
reads exactly the forms of an index. -/
theorem numeral?_announcedRadix_eq_some_iff {s : Text} {n : Nat} :
    (announcedRadix s).1.numeral? (announcedRadix s).2 = some n ↔ IsIndexForm s n := by
  constructor
  · intro h
    by_cases hzero : s.head? = some '0'
    · obtain ⟨rest, rfl⟩ := List.head?_eq_some_iff.mp hzero
      cases rest with
      | nil =>
        obtain rfl : 0 = n := Option.some.inj h
        exact .zero
      | cons c digits =>
        by_cases hletter : ∃ radix : Radix, c ∈ radix.letters
        · obtain ⟨radix, hletter⟩ := hletter
          rw [announcedRadix_of_letter hletter] at h
          exact .lettered hletter (Radix.numeral?_eq_some_iff.mp h)
        · rw [announcedRadix_of_leadingZero (not_exists.mp hletter)] at h
          exact .leadingZero (Radix.numeral?_eq_some_iff.mp h)
    · rw [announcedRadix_of_decimal hzero] at h
      exact .decimal hzero (Radix.numeral?_eq_some_iff.mp h)
  · intro h
    cases h with
    | lettered hletter h =>
      rw [announcedRadix_of_letter hletter]
      exact Radix.numeral?_eq_some_iff.mpr h
    | @leadingZero digits n h =>
      obtain ⟨c, more, rfl⟩ := List.exists_cons_of_ne_nil h.1
      obtain ⟨d, hd⟩ := h.exists_isDigit
      rw [announcedRadix_of_leadingZero (notMem_letters_of_isDigit hd)]
      exact Radix.numeral?_eq_some_iff.mpr h
    | zero => rfl
    | decimal hzero h =>
      rw [announcedRadix_of_decimal hzero]
      exact Radix.numeral?_eq_some_iff.mpr h

/-! ## The sign -/

/-- What stands behind the sign, if there is one, is the form of an index. -/
theorem denotes_iff {s : Text} {n : Nat} : Denotes s n ↔ IsIndexForm (dropPlus s) n := by
  constructor
  · rintro ⟨form, rfl | rfl, h⟩
    · -- no form begins with a plus sign, so that a second one is never dropped
      have hplus : dropPlus s = s := by
        unfold dropPlus
        split
        · exact absurd (h.isAlphanum '+' List.mem_cons_self) (by decide)
        · rfl
      rwa [hplus]
    · exact h
  · intro h
    unfold dropPlus at h
    split at h
    · exact ⟨_, .inr rfl, h⟩
    · exact ⟨_, .inl rfl, h⟩

/-- A text denotes one number at most. -/
theorem Denotes.unique {s : Text} {n m : Nat} (hn : Denotes s n) (hm : Denotes s m) : n = m := by
  rw [denotes_iff, ← numeral?_announcedRadix_eq_some_iff] at hn hm
  exact Option.some.inj (hn.symm.trans hm)

theorem Denotes.isAlphanum {s : Text} {n : Nat} (h : Denotes s n) :
    ∀ c ∈ dropPlus s, c.isAlphanum = true :=
  (denotes_iff.mp h).isAlphanum

theorem index?_eq_some_iff {s : Text} {n : Nat} :
    index? s = some n ↔ Denotes s n ∧ n < indexLimit := by
  rw [denotes_iff, ← numeral?_announcedRadix_eq_some_iff]
  simp only [index?, Option.filter_eq_some_iff, decide_eq_true_eq]

/-! ## Words -/

/-- The index that a text denotes, read into a word. -/
def wordIndex? (s : Text) : Option UInt64 :=
  let (radix, digits) := announcedRadix (dropPlus s)
  if digits.isEmpty then none else radix.wordFrom? 0 digits

/-- Reading an index into a word is reading it. -/
theorem map_toNat_wordIndex? (s : Text) : (wordIndex? s).map UInt64.toNat = index? s := by
  have hword (w : UInt64) : wordIndex? s = some w ↔ index? s = some w.toNat := by
    have hfits : w.toNat < indexLimit := w.toNat_lt
    simp only [wordIndex?, index?, Radix.numeral?, Option.filter_eq_some_iff, decide_eq_true_eq, hfits,
      and_true]
    split
    · simp
    · exact Radix.wordFrom?_eq_some_iff
  ext n
  rw [Option.map_eq_some_iff]
  constructor
  · rintro ⟨w, hw, rfl⟩
    exact (hword w).mp hw
  · intro hn
    have hvalue : n.toUInt64.toNat = n := Radix.toNat_toUInt64 (lt_indexLimit_of_index? hn)
    exact ⟨n.toUInt64, (hword _).mpr (by rw [hvalue, hn]), hvalue⟩

/-- **Exactly the texts that denote an index are read, and to what they denote.** A text that denotes
a number of `2 ^ 64` or more is refused, as is one with anything but ASCII letters and digits behind
its sign; and reading into a word of 64 bits, which ends when a product or a sum does not fit, gives
the same answers. -/
theorem index?_eq_some_iff_denotes :
    (∀ (s : Text) (n : Nat), index? s = some n ↔ Denotes s n ∧ n < indexLimit) ∧
      (∀ (s : Text) (n : Nat), Denotes s n → indexLimit ≤ n → index? s = none) ∧
      (∀ (s : Text) (c : Char), c ∈ dropPlus s → c.isAlphanum = false → index? s = none) ∧
      ∀ s : Text, index? s = (wordIndex? s).map UInt64.toNat := by
  refine ⟨fun s n => index?_eq_some_iff, ?_, ?_, fun s => (map_toNat_wordIndex? s).symm⟩
  · intro s n hn hlimit
    rw [Option.eq_none_iff_forall_ne_some]
    intro m hm
    obtain ⟨hdenotes, hlt⟩ := index?_eq_some_iff.mp hm
    rw [hdenotes.unique hn] at hlt
    omega
  · intro s c hc hletter
    rw [Option.eq_none_iff_forall_ne_some]
    intro m hm
    have hletters := (index?_eq_some_iff.mp hm).1.isAlphanum c hc
    rw [hletter] at hletters
    exact Bool.false_ne_true hletters

/-- The greatest index in hexadecimal digits, the number behind it in octal digits with zeros in
front, and a numeral with a mark between its digits. -/
theorem index?_eq_some_iff_denotes_limit :
    index? "+0XffffFFFFffffFFFF".toList = some (indexLimit - 1) ∧
      index? "00002000000000000000000000".toList = none ∧ index? "+1_0".toList = none := by
  obtain ⟨hread, hlimit, hletters, -⟩ := index?_eq_some_iff_denotes
  have hdigits : Radix.hexadecimal.IsNumeral "ffffFFFFffffFFFF".toList (indexLimit - 1) :=
    Radix.numeral?_eq_some_iff.mp rfl
  have hgreatest : IsIndexForm "0XffffFFFFffffFFFF".toList (indexLimit - 1) :=
    .lettered (by decide) hdigits
  have hbehind : IsIndexForm "00002000000000000000000000".toList indexLimit :=
    .leadingZero (Radix.numeral?_eq_some_iff.mp rfl)
  refine ⟨?_, ?_, ?_⟩
  · exact (hread _ _).mpr ⟨⟨_, .inr rfl, hgreatest⟩, by decide⟩
  · exact hlimit _ _ ⟨_, .inl rfl, hbehind⟩ le_rfl
  · exact hletters _ '_' (by decide) (by decide)

end Placeholder

end Snippets
