/-
# Snippets.Placeholder.Token — finding tokens in a text

A token is a dollar sign and one decimal digit, or a dollar sign and braces around characters
that are neither a closing brace nor a line feed. Tokens are found from left to right and do not
overlap, so the braces of a token hide any token inside them. A text is cut into pieces, each a
token or one character outside the tokens; the pieces put together are the text.
-/
import Snippets.Text.DecimalDigit

namespace Snippets.Placeholder

/-- A character that may stand between the braces of a token. -/
def isInner (c : Char) : Bool := c != '}' && c != '\n'

/-- The token at the start of a text, if there is one. -/
def token? : Text → Option Text
  | '$' :: '{' :: rest =>
    match rest.dropWhile isInner with
    | '}' :: _ => some ('$' :: '{' :: (rest.takeWhile isInner ++ ['}']))
    | _ => none
  | '$' :: c :: _ => if Text.isDecimalDigit c then some ['$', c] else none
  | _ => none

/-- A piece of a text. -/
inductive Piece where
  /-- A character outside the tokens. -/
  | plain (c : Char)
  /-- A token. -/
  | token (t : Text)
deriving DecidableEq, Repr

/-- The text of a piece. -/
def Piece.text : Piece → Text
  | plain c => [c]
  | token t => t

/-- The token that a piece is, if it is one. -/
def Piece.token? : Piece → Option Text
  | plain _ => none
  | token t => some t

/-- The pieces of a text after `skip` characters that belong to the token before. -/
def piecesAfter : (skip : Nat) → Text → List Piece
  | _, [] => []
  | skip + 1, _ :: rest => piecesAfter skip rest
  | 0, c :: rest =>
    match token? (c :: rest) with
    | some t => .token t :: piecesAfter (t.length - 1) rest
    | none => .plain c :: piecesAfter 0 rest

/-- The pieces of a text, from left to right. -/
def pieces (s : Text) : List Piece := piecesAfter 0 s

/-- The tokens of a text, from left to right, with repetitions. -/
def tokens (s : Text) : List Text := (pieces s).filterMap Piece.token?

/-! ## The pieces make up the text -/

/-- A token found at the start of a text begins with a dollar sign and the text continues it. -/
theorem eq_append_of_token? {s t : Text} (h : token? s = some t) :
    ∃ inner rest, t = '$' :: inner ∧ inner ≠ [] ∧ s = t ++ rest := by
  unfold token? at h
  split at h
  · rename_i rest
    split at h
    · rename_i after hdrop
      obtain rfl := Option.some.inj h
      refine ⟨_, after, rfl, by simp, ?_⟩
      simp only [List.cons_append, List.append_assoc, List.nil_append]
      rw [← hdrop, List.takeWhile_append_dropWhile]
    · exact absurd h (by simp)
  · rename_i c rest _
    split at h
    · obtain rfl := Option.some.inj h
      exact ⟨[c], rest, rfl, by simp, rfl⟩
    · exact absurd h (by simp)
  · exact absurd h (by simp)

theorem flatMap_text_piecesAfter (skip : Nat) (s : Text) :
    (piecesAfter skip s).flatMap Piece.text = s.drop skip := by
  fun_induction piecesAfter skip s with
  | case1 => simp
  | case2 skip _ rest ih => simpa using ih
  | case3 c rest t h ih =>
    obtain ⟨inner, after, rfl, -, hs⟩ := eq_append_of_token? h
    obtain ⟨rfl, rfl⟩ : c = '$' ∧ rest = inner ++ after := by simpa using hs
    simp only [List.length_cons, Nat.add_one_sub_one, List.drop_left] at ih
    simp [ih, Piece.text]
  | case4 c rest h ih => simp [ih, Piece.text]

/-- The pieces of a text put together are the text. -/
@[simp] theorem flatMap_text_pieces (s : Text) : (pieces s).flatMap Piece.text = s := by
  simp [pieces, flatMap_text_piecesAfter]

end Snippets.Placeholder
