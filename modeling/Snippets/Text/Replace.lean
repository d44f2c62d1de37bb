/-
# Snippets.Text.Replace — replacing every occurrence of a text

Occurrences are found from left to right and do not overlap: after one is replaced, the search
goes on behind it, and the text put in its place is not searched.
-/
import Snippets.Text.Basic

namespace Snippets.Text

/-- The text after `skip` characters that belong to an occurrence already replaced. -/
def replaceAfter (target value : Text) : (skip : Nat) → Text → Text
  | _, [] => []
  | skip + 1, _ :: rest => replaceAfter target value skip rest
  | 0, c :: rest =>
    if target.isPrefixOf (c :: rest) then
      value ++ replaceAfter target value (target.length - 1) rest
    else
      c :: replaceAfter target value 0 rest

/-- The text with `value` in place of every occurrence of `target`; `target` is not empty. -/
def replaceAll (target value s : Text) : Text := replaceAfter target value 0 s

@[simp] theorem replaceAll_nil (target value : Text) : replaceAll target value [] = [] := rfl

end Snippets.Text
