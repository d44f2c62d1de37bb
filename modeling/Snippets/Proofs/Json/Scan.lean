/-
# Snippets.Proofs.Json.Scan — the written forms of a value have its tokens

Scanning the compact form of a value, or the pretty form, gives the tokens of the value
(`tokens?_compact`, `tokens?_pretty`). So the two forms differ only in the space between tokens, and
no character of a string is taken for one of the marks around it.

Each statement is about a scan that stands between tokens, with any text behind the form, so that the
forms of the parts follow one another. Only the text behind a number matters: it must not begin with
a digit.
-/
import Mathlib.Tactic.IntervalCases
import Mathlib.Tactic.SplitIfs
import Snippets.Json.Token
import Snippets.Proofs.Placeholder.Numeral

namespace Snippets.Json

namespace Scan

variable {found : List Token} {rest : Text}

/-! ## Marks and space -/

theorem run_cons (scan : Scan) (c : Char) (rest : Text) :
    scan.run (c :: rest) = (scan.step c).bind fun next => next.run rest := rfl

@[simp] theorem run_openArray :
    (after found).run ('[' :: rest) = (after (found ++ [.openArray])).run rest := rfl

@[simp] theorem run_closeArray :
    (after found).run (']' :: rest) = (after (found ++ [.closeArray])).run rest := rfl

@[simp] theorem run_openObject :
    (after found).run ('\x7b' :: rest) = (after (found ++ [.openObject])).run rest := rfl

@[simp] theorem run_closeObject :
    (after found).run ('\x7d' :: rest) = (after (found ++ [.closeObject])).run rest := rfl

@[simp] theorem run_comma :
    (after found).run (',' :: rest) = (after (found ++ [.comma])).run rest := rfl

@[simp] theorem run_colon :
    (after found).run (':' :: rest) = (after (found ++ [.colon])).run rest := rfl

@[simp] theorem run_space : (after found).run (' ' :: rest) = (after found).run rest := rfl

@[simp] theorem run_newline (level : Nat) :
    (after found).run (newline level ++ rest) = (after found).run rest := by
  have hspaces (count : Nat) :
      (after found).run (List.replicate count ' ' ++ rest) = (after found).run rest := by
    induction count with
    | zero => rfl
    | succ count ih => rw [List.replicate_succ, List.cons_append, run_space, ih]
  exact hspaces (2 * level)

theorem run_null :
    (after found).run ("null".toList ++ rest) = (after (found ++ [.null])).run rest := rfl

theorem run_writeBool (b : Bool) :
    (after found).run (writeBool b ++ rest) = (after (found ++ [.bool b])).run rest := by
  cases b <;> rfl

/-! ## Numbers -/

/-- A text that does not begin with a digit. -/
def NoDigit (s : Text) : Prop := ∀ c ∈ s.head?, Radix.decimal.digit? c = none

theorem NoDigit.nil : NoDigit [] := by
  intro c hc
  exact absurd hc (by simp)

theorem NoDigit.cons {c : Char} (h : Radix.decimal.digit? c = none) (s : Text) :
    NoDigit (c :: s) := by
  intro d hd
  obtain rfl : c = d := by simpa using hd
  exact h

theorem NoDigit.newline (level : Nat) (s : Text) : NoDigit (newline level ++ s) :=
  NoDigit.cons rfl _

/-- The scan behind the digits of a number. -/
def inNumber (found : List Token) (n : Nat) : Scan :=
  { found, mode := if n = 0 then .zero else .number n }

theorem step_digitChar {n : Nat} (h : n < 10) :
    (after found).step (Nat.digitChar n) = some (inNumber found n) := by
  interval_cases n <;> rfl

theorem step_inNumber_digitChar (found : List Token) {n d : Nat} (hn : n ≠ 0) (hd : d < 10) :
    (inNumber found n).step (Nat.digitChar d) = some (inNumber found (n * 10 + d)) := by
  have hpos : n * 10 + d ≠ 0 := by omega
  have hdigit : Radix.decimal.digit? (Nat.digitChar d) = some d := Radix.digit?_digitChar hd
  simp only [inNumber, if_neg hn, if_neg hpos, step, hdigit]

theorem run_toDigits (n : Nat) :
    (after found).run (Nat.toDigits 10 n ++ rest) = (inNumber found n).run rest := by
  induction n using Nat.strongRecOn generalizing rest with
  | _ n ih =>
    by_cases hn : n < 10
    · rw [Nat.toDigits_of_lt_base hn, List.singleton_append, run_cons, step_digitChar hn]
      rfl
    · -- the digits in front are those of a number that is not zero
      have hdigit := step_inNumber_digitChar found (show n / 10 ≠ 0 by omega)
        (Nat.mod_lt n (by decide))
      rw [Nat.toDigits_of_base_le (by decide) (by omega), List.append_assoc, ih _ (by omega),
        List.singleton_append, run_cons, hdigit, Nat.div_add_mod']
      rfl

theorem run_inNumber {n : Nat} (h : NoDigit rest) :
    (inNumber found n).run rest = (after (found ++ [.number n])).run rest := by
  cases rest with
  | nil => by_cases hn : n = 0 <;> simp [inNumber, run, finish, after, hn]
  | cons c rest =>
    have hstep : (inNumber found n).step c = (after (found ++ [.number n])).step c := by
      have hc := h c (by simp)
      by_cases hn : n = 0 <;> simp [inNumber, step, after, hn, hc]
    rw [run_cons, run_cons, hstep]

theorem run_ofNat (n : Nat) (h : NoDigit rest) :
    (after found).run (Text.ofNat n ++ rest) = (after (found ++ [.number n])).run rest :=
  (run_toDigits n).trans (run_inNumber h)

/-! ## Strings -/

/-- The scan in a string, behind some of its characters. -/
def inString (found : List Token) (s : Text) : Scan := { found, mode := .string s }

theorem run_unicodeEscape {c : Char} (h : c.toNat < 256) (s : Text) :
    (inString found s).run (unicodeEscape c ++ rest) = (inString found (s ++ [c])).run rest := by
  have hhigh : Radix.hexadecimal.digit? (Nat.digitChar (c.toNat / 16)) = some (c.toNat / 16) :=
    Radix.digit?_digitChar (show c.toNat / 16 < 16 by omega)
  have hlow : Radix.hexadecimal.digit? (Nat.digitChar (c.toNat % 16)) = some (c.toNat % 16) :=
    Radix.digit?_digitChar (show c.toNat % 16 < 16 by omega)
  have hzero : Radix.hexadecimal.digit? '0' = some 0 := by decide
  have hvalid : c.toNat.isValidChar := c.valid
  simp [unicodeEscape, run_cons, inString, step, hzero, hhigh, hlow, Nat.div_add_mod', hvalid]

theorem run_escapeChar (c : Char) (s : Text) :
    (inString found s).run (escapeChar c ++ rest) = (inString found (s ++ [c])).run rest := by
  unfold escapeChar
  split_ifs with hquote hback hbs hff hlf hcr htab hlow
  · subst hquote; rfl
  · subst hback; rfl
  · subst hbs; rfl
  · subst hff; rfl
  · subst hlf; rfl
  · subst hcr; rfl
  · subst htab; rfl
  · exact run_unicodeEscape (by omega) s
  · simp [run_cons, inString, step, hquote, hback, hlow]

theorem run_escaped (s t : Text) :
    (inString found s).run (t.flatMap escapeChar ++ '"' :: rest) =
      (after (found ++ [.string (s ++ t)])).run rest := by
  induction t generalizing s with
  | nil => simp; rfl
  | cons c t ih =>
    rw [List.flatMap_cons, List.append_assoc, run_escapeChar, ih, List.append_assoc,
      List.singleton_append]

theorem run_writeString (s : Text) :
    (after found).run (writeString s ++ rest) = (after (found ++ [.string s])).run rest := by
  have hopen : (after found).step '"' = some (inString found []) := rfl
  rw [writeString, List.cons_append, run_cons, hopen, List.append_assoc]
  exact run_escaped [] s

/-! ## The compact form -/

mutual

theorem run_compact (found : List Token) {rest : Text} (h : NoDigit rest) :
    (j : Json) → (after found).run (j.compact ++ rest) = (after (found ++ j.tokens)).run rest
  | .null => run_null
  | .bool b => run_writeBool b
  | .number n => run_ofNat n h
  | .string s => run_writeString s
  | .array items => by
    simp only [compact, tokens, List.cons_append, List.append_assoc, List.nil_append]
    rw [run_openArray, run_compactItems _ (NoDigit.cons rfl rest) items, run_closeArray]
    simp only [List.append_assoc, List.cons_append, List.nil_append]
  | .object members => by
    simp only [compact, tokens, List.cons_append, List.append_assoc, List.nil_append]
    rw [run_openObject, run_compactMembers _ (NoDigit.cons rfl rest) members, run_closeObject]
    simp only [List.append_assoc, List.cons_append, List.nil_append]

theorem run_compactItems (found : List Token) {rest : Text} (h : NoDigit rest) :
    (items : List Json) → (after found).run (compactItems items ++ rest) =
      (after (found ++ itemTokens items)).run rest
  | [] => by simp [compactItems, itemTokens]
  | [item] => run_compact found h item
  | item :: next :: items => by
    simp only [compactItems, itemTokens, List.append_assoc, List.cons_append]
    rw [run_compact _ (NoDigit.cons rfl _) item, run_comma, run_compactItems _ h (next :: items)]
    simp only [List.append_assoc, List.cons_append, List.nil_append]

theorem run_compactMembers (found : List Token) {rest : Text} (h : NoDigit rest) :
    (members : List (Text × Json)) → (after found).run (compactMembers members ++ rest) =
      (after (found ++ memberTokens members)).run rest
  | [] => by simp [compactMembers, memberTokens]
  | [(name, value)] => by
    simp only [compactMembers, memberTokens, List.append_assoc, List.cons_append]
    rw [run_writeString, run_colon, run_compact _ h value]
    simp only [List.append_assoc, List.cons_append, List.nil_append]
  | (name, value) :: next :: members => by
    simp only [compactMembers, memberTokens, List.append_assoc, List.cons_append]
    rw [run_writeString, run_colon, run_compact _ (NoDigit.cons rfl _) value, run_comma,
      run_compactMembers _ h (next :: members)]
    simp only [List.append_assoc, List.cons_append, List.nil_append]

end

/-! ## The pretty form -/

mutual

theorem run_prettyAt (level : Nat) (found : List Token) {rest : Text} (h : NoDigit rest) :
    (j : Json) → (after found).run (j.prettyAt level ++ rest) = (after (found ++ j.tokens)).run rest
  | .null => run_null
  | .bool b => run_writeBool b
  | .number n => run_ofNat n h
  | .string s => run_writeString s
  | .array [] => by
    simp only [prettyAt, tokens, itemTokens, List.cons_append, List.nil_append]
    rw [run_openArray, run_closeArray, List.append_assoc, List.singleton_append]
  | .array (item :: items) => by
    simp only [prettyAt, tokens, List.cons_append, List.append_assoc, List.nil_append]
    rw [run_openArray, run_prettyItems (level + 1) _ (NoDigit.newline level _) (item :: items),
      run_newline, run_closeArray]
    simp only [List.append_assoc, List.cons_append, List.nil_append]
  | .object [] => by
    simp only [prettyAt, tokens, memberTokens, List.cons_append, List.nil_append]
    rw [run_openObject, run_closeObject, List.append_assoc, List.singleton_append]
  | .object (member :: members) => by
    simp only [prettyAt, tokens, List.cons_append, List.append_assoc, List.nil_append]
    rw [run_openObject, run_prettyMembers (level + 1) _ (NoDigit.newline level _)
      (member :: members), run_newline, run_closeObject]
    simp only [List.append_assoc, List.cons_append, List.nil_append]

theorem run_prettyItems (level : Nat) (found : List Token) {rest : Text} (h : NoDigit rest) :
    (items : List Json) → (after found).run (prettyItems level items ++ rest) =
      (after (found ++ itemTokens items)).run rest
  | [] => by simp [prettyItems, itemTokens]
  | [item] => by
    simp only [prettyItems, itemTokens, List.append_assoc]
    rw [run_newline, run_prettyAt level found h item]
  | item :: next :: items => by
    simp only [prettyItems, itemTokens, List.append_assoc, List.cons_append]
    rw [run_newline, run_prettyAt level _ (NoDigit.cons rfl _) item, run_comma,
      run_prettyItems level _ h (next :: items)]
    simp only [List.append_assoc, List.cons_append, List.nil_append]

theorem run_prettyMembers (level : Nat) (found : List Token) {rest : Text} (h : NoDigit rest) :
    (members : List (Text × Json)) → (after found).run (prettyMembers level members ++ rest) =
      (after (found ++ memberTokens members)).run rest
  | [] => by simp [prettyMembers, memberTokens]
  | [(name, value)] => by
    simp only [prettyMembers, memberTokens, List.append_assoc, List.cons_append, List.nil_append]
    rw [run_newline, run_writeString, run_colon, run_space, run_prettyAt level _ h value]
    simp only [List.append_assoc, List.cons_append, List.nil_append]
  | (name, value) :: next :: members => by
    simp only [prettyMembers, memberTokens, List.append_assoc, List.cons_append, List.nil_append]
    rw [run_newline, run_writeString, run_colon, run_space,
      run_prettyAt level _ (NoDigit.cons rfl _) value, run_comma,
      run_prettyMembers level _ h (next :: members)]
    simp only [List.append_assoc, List.cons_append, List.nil_append]

end

end Scan

/-- The compact form of a value has the tokens of the value. -/
theorem tokens?_compact (j : Json) : tokens? j.compact = some j.tokens := by
  have hrun := Scan.run_compact [] Scan.NoDigit.nil j
  rw [List.append_nil] at hrun
  exact hrun

/-- The pretty form of a value has the tokens of the value. -/
theorem tokens?_pretty (j : Json) : tokens? j.pretty = some j.tokens := by
  have hrun := Scan.run_prettyAt 0 [] Scan.NoDigit.nil j
  rw [List.append_nil] at hrun
  exact hrun

end Snippets.Json
