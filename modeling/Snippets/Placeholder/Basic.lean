/-
# Snippets.Placeholder.Basic — placeholders and the values they take

A placeholder names an argument by its position and carries a default. It is written `$N`, `${N}`
or `${N:default}`; the first colon separates, and later colons belong to the default. Reading one
is lenient about the marks around it: a leading dollar sign and a pair of braces are removed when
they are there.
-/
import Snippets.Placeholder.Index

namespace Snippets

/-- The position of an argument and the text that stands in for a missing one. -/
structure Placeholder where
  /-- The position of the argument, from zero. -/
  index : Nat
  /-- The text that stands in for a missing or empty argument. -/
  default : Text
deriving DecidableEq, Repr

namespace Placeholder

/-! ## Reading -/

/-- The text without one dollar sign in front. -/
def dropDollar : Text → Text
  | '$' :: rest => rest
  | s => s

/-- The text between a brace at its start and a brace at its end, or the text itself when one of
the two is missing. -/
def dropBraces : Text → Text
  | '{' :: rest => if rest.getLast? = some '}' then rest.dropLast else '{' :: rest
  | s => s

/-- The text up to its first colon and the text behind it; without a colon, all of it and
nothing. -/
def splitColon : Text → Text × Text
  | [] => ([], [])
  | c :: rest => if c = ':' then ([], rest) else ((c :: (splitColon rest).1), (splitColon rest).2)

/-- The placeholder that a token denotes, if its index is valid. -/
def parse? (token : Text) : Option Placeholder :=
  let (index, default) := splitColon (dropBraces (dropDollar token))
  (index? index).map fun n => { index := n, default }

/-! ## Values -/

/-- The argument at a position, unless it is missing or empty. -/
def effectiveArgument (args : List Text) (i : Nat) : Option Text :=
  args[i]?.filter (fun value => !value.isEmpty)

theorem effectiveArgument_eq_some_iff {args : List Text} {i : Nat} {a : Text} :
    effectiveArgument args i = some a ↔ args[i]? = some a ∧ a ≠ [] := by
  simp [effectiveArgument, Option.filter_eq_some_iff]

theorem effectiveArgument_eq_none_iff {args : List Text} {i : Nat} :
    effectiveArgument args i = none ↔ ∀ a, args[i]? = some a → a = [] := by
  simp [effectiveArgument, Option.filter_eq_none_iff]

/-- The value of a placeholder: its argument, or else its default. -/
def value (p : Placeholder) (args : List Text) : Text :=
  (effectiveArgument args p.index).getD p.default

/-- The value of a token: that of the placeholder it denotes, or the token itself when it denotes
none. -/
def tokenValue (args : List Text) (token : Text) : Text :=
  match parse? token with
  | some p => p.value args
  | none => token

theorem tokenValue_of_malformed {args : List Text} {t : Text} (h : parse? t = none) :
    tokenValue args t = t := by
  rw [tokenValue, h]

theorem tokenValue_of_parse? {args : List Text} {t : Text} {p : Placeholder}
    (h : parse? t = some p) : tokenValue args t = p.value args := by
  rw [tokenValue, h]

end Placeholder

end Snippets
