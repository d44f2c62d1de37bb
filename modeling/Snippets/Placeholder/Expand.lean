/-
# Snippets.Placeholder.Expand — filling the placeholders of a text

The tokens of a text are found once. Then, in the order in which they were found, each is replaced
by its value wherever it occurs in what the text has become, so that equal tokens always get the
same value.
-/
import Snippets.Placeholder.Basic
import Snippets.Placeholder.Token
import Snippets.Text.Replace

namespace Snippets.Placeholder

/-- The text after each of the given tokens in turn is replaced by its value. -/
def substitute (args : List Text) (tokens : List Text) (s : Text) : Text :=
  tokens.foldl (fun text token => Text.replaceAll token (tokenValue args token) text) s

/-- The text with its placeholders filled from the arguments. -/
def expand (s : Text) (args : List Text) : Text := substitute args (tokens s) s

@[simp] theorem substitute_nil (args : List Text) (s : Text) : substitute args [] s = s := rfl

end Snippets.Placeholder
