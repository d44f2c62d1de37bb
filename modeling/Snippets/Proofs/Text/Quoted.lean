/-
# Snippets.Proofs.Text.Quoted — a quoted text can be read back

Inside quotes every character has a written form of its own, and none begins with the closing quote:
a quote is written behind a backslash, and so is a backslash. A reader that goes from character to
character therefore finds the end of a quoted text, whatever stands behind it, and what was quoted
(`unquote?_quote`). So two texts that begin with quoted texts are equal only when the quoted texts are,
and what stands behind them (`quote_append_inj`).

Everything that stands in a quoted text can be seen: an obscure character is written by number, and
the marks and digits of the written forms are printable ASCII characters.
-/
import Mathlib.Tactic.SplitIfs
import Snippets.Proofs.Placeholder.Numeral
import Snippets.Text.Quoted

namespace Snippets

namespace Text

/-! ## The written forms of a character -/

/-- The character that a letter or mark behind a backslash stands for. -/
def unescape? : Char → Option Char
  | '0' => some '\x00'
  | 't' => some '\t'
  | 'r' => some '\r'
  | 'n' => some '\n'
  | '\\' => some '\\'
  | '"' => some '"'
  | _ => none

/-- A printable ASCII character. -/
def isPrintable (c : Char) : Bool := 0x20 ≤ c.toNat && c.toNat < 0x7F

/-- A character is written with a backslash and a mark, or by its number, or as it is; then it is
neither a mark of the quotation nor obscure. -/
theorem quoteChar_cases (c : Char) :
    (∃ mark, unescape? mark = some c ∧ isPrintable mark = true ∧ quoteChar c = ['\\', mark]) ∨
      quoteChar c = ['\\', 'u', '\x7b'] ++ codePointDigits c ++ ['\x7d'] ∨
      (c ≠ '\\' ∧ c ≠ '"' ∧ isObscure c = false ∧ quoteChar c = [c]) := by
  unfold quoteChar
  split_ifs with hnull htab hreturn hfeed hback hquote hobscure
  · exact .inl ⟨'0', congrArg some hnull.symm, rfl, rfl⟩
  · exact .inl ⟨'t', congrArg some htab.symm, rfl, rfl⟩
  · exact .inl ⟨'r', congrArg some hreturn.symm, rfl, rfl⟩
  · exact .inl ⟨'n', congrArg some hfeed.symm, rfl, rfl⟩
  · exact .inl ⟨'\\', congrArg some hback.symm, rfl, rfl⟩
  · exact .inl ⟨'"', congrArg some hquote.symm, rfl, rfl⟩
  · exact .inr (.inl rfl)
  · exact .inr (.inr ⟨hback, hquote, Bool.eq_false_iff.mpr hobscure, rfl⟩)

/-! ## Reading a quoted text -/

/-- What reading a quoted text is in the middle of. -/
inductive QuoteMode where
  /-- Between two characters. -/
  | between
  /-- Behind a backslash. -/
  | escape
  /-- Behind a backslash and the letter `u`. -/
  | opening
  /-- Behind a brace and some digits. -/
  | number (digits : Text)
deriving DecidableEq, Repr

/-- The character with a code point in hexadecimal digits. A surrogate is no character. -/
def charOfDigits? (digits : Text) : Option Char :=
  ((Radix.hexadecimal.numeral? digits).filter fun n => decide n.isValidChar).map Char.ofNat

/-- Reading on up to the quote that ends a quoted text: what has been quoted, and the text behind. -/
def unquoteFrom? : (mode : QuoteMode) → (quoted : Text) → Text → Option (Text × Text)
  | _, _, [] => none
  | .between, quoted, c :: rest =>
    if c = '"' then some (quoted, rest)
    else if c = '\\' then unquoteFrom? .escape quoted rest
    else unquoteFrom? .between (quoted ++ [c]) rest
  | .escape, quoted, c :: rest =>
    if c = 'u' then unquoteFrom? .opening quoted rest
    else (unescape? c).bind fun d => unquoteFrom? .between (quoted ++ [d]) rest
  | .opening, quoted, c :: rest =>
    if c = '\x7b' then unquoteFrom? (.number []) quoted rest else none
  | .number digits, quoted, c :: rest =>
    if c = '\x7d' then
      (charOfDigits? digits).bind fun d => unquoteFrom? .between (quoted ++ [d]) rest
    else unquoteFrom? (.number (digits ++ [c])) quoted rest

/-- The text that is quoted at the start of a text, and the text behind it. -/
def unquote? : Text → Option (Text × Text)
  | '"' :: rest => unquoteFrom? .between [] rest
  | _ => none

/-! ## Reading what is written -/

variable {quoted rest : Text}

theorem codePointDigits_eq (c : Char) : Radix.hexadecimal.numeral? (codePointDigits c) = some c.toNat :=
  Radix.numeral?_eq_some_iff.mpr (Radix.isNumeral_toDigits .hexadecimal c.toNat)

/-- What holds of the hexadecimal digits holds of the digits of a code point. -/
theorem forall_mem_codePointDigits {p : Char → Bool}
    (hrows : (Radix.smallDigits ++ Radix.capitalDigits).all p = true) (c : Char) :
    ∀ d ∈ codePointDigits c, p d = true :=
  (Radix.isNumeral_toDigits .hexadecimal c.toNat).forall_of_rows hrows

theorem charOfDigits?_codePointDigits (c : Char) : charOfDigits? (codePointDigits c) = some c := by
  have hvalid : c.toNat.isValidChar := c.valid
  simp [charOfDigits?, codePointDigits_eq, hvalid]

/-- Digits are kept up to the closing brace. -/
theorem unquoteFrom?_number {digits more : Text} (h : '\x7d' ∉ more) :
    unquoteFrom? (.number digits) quoted (more ++ '\x7d' :: rest) =
      (charOfDigits? (digits ++ more)).bind fun d => unquoteFrom? .between (quoted ++ [d]) rest := by
  induction more generalizing digits with
  | nil => simp [unquoteFrom?]
  | cons c more ih =>
    obtain ⟨hc, hmore⟩ := not_or.mp (List.mem_cons.not.mp h)
    rw [List.cons_append, unquoteFrom?, if_neg (Ne.symm hc), ih hmore, List.append_assoc,
      List.singleton_append]

/-- The written form of a character is read as that character. -/
theorem unquoteFrom?_quoteChar (c : Char) :
    unquoteFrom? .between quoted (quoteChar c ++ rest) =
      unquoteFrom? .between (quoted ++ [c]) rest := by
  rcases quoteChar_cases c with ⟨mark, hmark, -, hform⟩ | hform | ⟨hback, hquote, -, hform⟩
  · have hnumber : mark ≠ 'u' := by
      rintro rfl
      exact absurd hmark (by simp [unescape?])
    simp [hform, unquoteFrom?, hnumber, hmark]
  · -- a code point in braces: its digits hold no closing brace
    have hletters : ∀ d ∈ codePointDigits c, d.isAlphanum = true :=
      forall_mem_codePointDigits (by decide) c
    have hclosing : '\x7d' ∉ codePointDigits c := fun hmem =>
      absurd (hletters _ hmem) (by decide)
    have hnumber : unquoteFrom? (.number []) quoted (codePointDigits c ++ '\x7d' :: rest) =
        unquoteFrom? .between (quoted ++ [c]) rest := by
      rw [unquoteFrom?_number hclosing, List.nil_append, charOfDigits?_codePointDigits,
        Option.bind_some]
    simpa [hform, unquoteFrom?] using hnumber
  · rw [hform, List.singleton_append, unquoteFrom?, if_neg hquote, if_neg hback]

theorem unquoteFrom?_flatMap_quoteChar (s : Text) :
    unquoteFrom? .between quoted (s.flatMap quoteChar ++ '"' :: rest) = some (quoted ++ s, rest) := by
  induction s generalizing quoted with
  | nil => simp [unquoteFrom?]
  | cons c s ih =>
    rw [List.flatMap_cons, List.append_assoc, unquoteFrom?_quoteChar, ih, List.append_assoc,
      List.singleton_append]

/-- A quoted text is read back, whatever stands behind it. -/
theorem unquote?_quote (s rest : Text) : unquote? (quote s ++ rest) = some (s, rest) := by
  have hread : unquoteFrom? .between [] (s.flatMap quoteChar ++ '"' :: rest) = some (s, rest) := by
    rw [unquoteFrom?_flatMap_quoteChar, List.nil_append]
  simpa [quote, unquote?] using hread

/-- Texts that begin with quoted texts are equal only when these are, and what stands behind. -/
theorem quote_append_inj {s t more : Text} :
    quote s ++ rest = quote t ++ more ↔ s = t ∧ rest = more := by
  constructor
  · intro h
    have hread : some (s, rest) = some (t, more) := by
      rw [← unquote?_quote, h, unquote?_quote]
    exact Prod.mk.inj (Option.some.inj hread)
  · rintro ⟨rfl, rfl⟩
    rfl

theorem quote_inj {s t : Text} : quote s = quote t ↔ s = t := by
  constructor
  · intro h
    have hboth : s = t ∧ ([] : Text) = [] := quote_append_inj.mp (by rw [h])
    exact hboth.1
  · rintro rfl
    rfl

/-! ## What can be seen -/

/-- The code points of the control characters, the general category Cc. -/
def controlRanges : CodeRanges := [(0x0, 0x1F), (0x7F, 0x9F)]

/-- The code points of the characters that end a line wherever they stand: the line feed and the
tabulation, form feed and carriage return behind it, the next line character, and the separators of
lines and of paragraphs. -/
def lineBreakRanges : CodeRanges := [(0xA, 0xD), (0x85, 0x85), (0x2028, 0x2029)]

/-- A character outside a class is outside of each class whose ranges lie in those of the first. -/
theorem holds_eq_false_of_ranges {ranges wider : CodeRanges}
    (h : ∀ range ∈ ranges, ∃ other ∈ wider, other.1 ≤ range.1 ∧ range.2 ≤ other.2) {c : Char}
    (hc : wider.holds c = false) : ranges.holds c = false := by
  refine Bool.eq_false_iff.mpr fun hinside => ?_
  obtain ⟨range, hrange, hlow, hhigh⟩ := CodeRanges.holds_iff.mp hinside
  obtain ⟨other, hother, hlow', hhigh'⟩ := h range hrange
  have hwider : wider.holds c = true :=
    CodeRanges.holds_iff.mpr ⟨other, hother, hlow'.trans hlow, hhigh.trans hhigh'⟩
  exact Bool.false_ne_true (hc.symm.trans hwider)

/-- A character that is not obscure is no control character and breaks no line. -/
theorem not_holds_of_not_isObscure {c : Char} (h : isObscure c = false) :
    controlRanges.holds c = false ∧ lineBreakRanges.holds c = false := by
  have hwithin : ∀ range ∈ controlRanges ++ lineBreakRanges,
      ∃ other ∈ obscureRanges, other.1 ≤ range.1 ∧ range.2 ≤ other.2 := by
    decide +kernel
  obtain ⟨hcontrol, hbreak⟩ := List.forall_mem_append.mp hwithin
  exact ⟨holds_eq_false_of_ranges hcontrol h, holds_eq_false_of_ranges hbreak h⟩

theorem not_isObscure_of_isPrintable {c : Char} (h : isPrintable c = true) :
    isObscure c = false := by
  have hranges : obscureRanges.all (fun range => range.2 < 0x20 || 0x7F ≤ range.1) = true := by
    decide +kernel
  simp only [isPrintable, Bool.and_eq_true, decide_eq_true_eq] at h
  refine Bool.eq_false_iff.mpr fun hc => ?_
  obtain ⟨range, hrange, hfirst, hlast⟩ := CodeRanges.holds_iff.mp hc
  have hbeside := List.all_eq_true.mp hranges range hrange
  simp only [Bool.or_eq_true, decide_eq_true_eq] at hbeside
  omega

/-- A text of printable characters can be seen. -/
theorem not_isObscure_of_all_isPrintable {s : Text} (h : s.all isPrintable = true) {c : Char}
    (hc : c ∈ s) : isObscure c = false :=
  not_isObscure_of_isPrintable (List.all_eq_true.mp h c hc)

theorem not_isObscure_of_mem_quoteChar {c d : Char} (h : d ∈ quoteChar c) : isObscure d = false := by
  rcases quoteChar_cases c with ⟨mark, -, hprintable, hform⟩ | hform | ⟨-, -, hseen, hform⟩
  · have hback : isPrintable '\\' = true := by decide
    have hboth : ['\\', mark].all isPrintable = true := by simp [hback, hprintable]
    exact not_isObscure_of_all_isPrintable hboth (hform ▸ h)
  · have hdigits : (codePointDigits c).all isPrintable = true :=
      List.all_eq_true.mpr (forall_mem_codePointDigits (by decide) c)
    have hall : (quoteChar c).all isPrintable = true := by
      rw [hform, List.all_append, List.all_append, hdigits]
      rfl
    exact not_isObscure_of_all_isPrintable hall h
  · obtain rfl : d = c := List.mem_singleton.mp (hform ▸ h)
    exact hseen

/-- A quoted text can be seen, whatever is quoted. -/
theorem not_isObscure_of_mem_quote {s : Text} {c : Char} (h : c ∈ quote s) : isObscure c = false := by
  rcases List.mem_cons.mp h with rfl | h
  · exact not_isObscure_of_isPrintable (by decide)
  rcases List.mem_append.mp h with hinside | hclosing
  · obtain ⟨d, -, hd⟩ := List.mem_flatMap.mp hinside
    exact not_isObscure_of_mem_quoteChar hd
  · exact not_isObscure_of_all_isPrintable (by decide) hclosing

end Text

end Snippets
