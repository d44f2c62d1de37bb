/-
# Snippets.Proofs.Placeholder.Repetition — tokens that are found more than once

Expanding gives every token found a turn, so a token that stands in a text twice is replaced twice
wherever it stands. When the tokens of the text and their values stay apart (`Separated`), the second
turn finds nothing to replace: however often each token has its turn, and in whatever order, the
result is the text filled in one pass.

A value that holds its own token is the other side: each turn but the first goes on in what the turn
before has written, so the text is longer after it, and each repetition counts
(`expand_eq_substitute_eraseDups`). The induction there is over the turns, and it carries that the
token is still to be found.
-/
import Snippets.Proofs.Placeholder.SinglePass

namespace Snippets.Placeholder

variable {s t : Text} {args : List Text}

/-! ## Turns that change nothing -/

/-- How often each token has its turn, and in which order, makes no difference. -/
theorem Separated.substitute_eq_expand (h : Separated s args) {ts : List Text}
    (hts : ∀ t, t ∈ ts ↔ t ∈ tokens s) : substitute args ts s = expand s args :=
  calc substitute args ts s
      = fill s args := h.substitute_eq_fill hts
    _ = expand s args := (h.substitute_eq_fill fun _ => Iff.rfl).symm

/-- Without repetitions there is nothing to leave out. -/
theorem eraseDups_of_nodup {ts : List Text} (h : ts.Nodup) : ts.eraseDups = ts := by
  induction ts with
  | nil => rfl
  | cons t ts ih =>
    obtain ⟨hnew, hrest⟩ := List.nodup_cons.mp h
    have hkept : ts.filter (fun u => !u == t) = ts := by
      refine List.filter_eq_self.mpr fun u hu => ?_
      have hne : u ≠ t := fun heq => hnew (heq ▸ hu)
      simpa using hne
    rw [List.eraseDups_cons, hkept, ih hrest]

/-! ## Values that hold their own token -/

/-- A token that its own value holds makes the text longer with every turn, as it stands there
again. -/
theorem length_lt_substitute_replicate (ht : IsToken t) (hvalue : t <:+: tokenValue args t)
    (hne : tokenValue args t ≠ t) (n : Nat) {s : Text} (hfound : t <:+: s) :
    s.length < (substitute args (List.replicate (n + 1) t) s).length := by
  have hlonger : t.length < (tokenValue args t).length := by
    apply lt_of_le_of_ne hvalue.length_le
    intro heq
    exact hne (hvalue.eq_of_length heq).symm
  have hturn (s : Text) (hfound : t <:+: s) :
      s.length < (Text.replaceAll t (tokenValue args t) s).length :=
    Text.length_lt_replaceAll ht.ne_nil hlonger hfound
  induction n generalizing s with
  | zero => exact hturn s hfound
  | succ n ih =>
    have hagain : t <:+: Text.replaceAll t (tokenValue args t) s :=
      hvalue.trans (Text.infix_replaceAll ht.ne_nil hfound)
    calc s.length
        < (Text.replaceAll t (tokenValue args t) s).length := hturn s hfound
      _ < (substitute args (List.replicate (n + 1) t)
            (Text.replaceAll t (tokenValue args t) s)).length := ih hagain

theorem eraseDups_replicate_succ (n : Nat) (t : Text) : (List.replicate (n + 1) t).eraseDups = [t] := by
  simp [List.replicate_succ, List.eraseDups_cons]

/-- A text whose only token is found twice or more, when its value holds it: one turn is not
enough. -/
theorem expand_ne_of_replicate {n : Nat} (htokens : tokens s = List.replicate (n + 2) t)
    (hvalue : t <:+: tokenValue args t) (hne : tokenValue args t ≠ t) :
    expand s args ≠ substitute args (tokens s).eraseDups s := by
  have hmem : t ∈ tokens s := by
    rw [htokens]
    simp
  have ht : IsToken t := isToken_of_mem_tokens hmem
  have hagain : t <:+: Text.replaceAll t (tokenValue args t) s :=
    hvalue.trans (Text.infix_replaceAll ht.ne_nil (isInfix_of_mem_tokens hmem))
  have hlonger := length_lt_substitute_replicate ht hvalue hne n hagain
  rw [expand, htokens, eraseDups_replicate_succ]
  intro heq
  exact absurd (congrArg List.length heq) (Nat.ne_of_gt hlonger)

/-- **Replacing each token once.** Replacing every token once, in the order of first discovery, is
expanding when no token is found twice, and also when the tokens of the text and their values stay
apart; then any row of turns in which just the tokens of the text have theirs gives the same. When the
only token is found again and its value holds it, the two differ. -/
theorem expand_eq_substitute_eraseDups (s : Text) (args : List Text) :
    ((tokens s).Nodup ∨ Separated s args →
      expand s args = substitute args (tokens s).eraseDups s) ∧
    (Separated s args → ∀ ts, (∀ t, t ∈ ts ↔ t ∈ tokens s) →
      substitute args ts s = expand s args) ∧
    ∀ t n, tokens s = List.replicate (n + 2) t → t <:+: tokenValue args t →
      tokenValue args t ≠ t → expand s args ≠ substitute args (tokens s).eraseDups s := by
  refine ⟨?_, fun h ts hts => h.substitute_eq_expand hts, ?_⟩
  · rintro (hnodup | hseparated)
    · rw [eraseDups_of_nodup hnodup, expand]
    · exact (hseparated.substitute_eq_expand fun _ => List.mem_eraseDups).symm
  · intro t n htokens hvalue hne
    exact expand_ne_of_replicate htokens hvalue hne

/-- A text with repeated tokens, a malformed one among them, and a dollar sign before it; the braces
are written by their numbers. -/
def repeatingText : Text := "$0 $\x7b1:$ 5\x7d $$\x7ba\x7d $0$\x7ba\x7d $\x7b1:$ 5\x7d".toList

/-- A value with dollar signs, one of which begins a token that the text does not have. -/
def repeatingArgs : List Text := ["US$ $2-".toList]

theorem expand_eq_substitute_eraseDups_dollars :
    Separated repeatingText repeatingArgs ∧
      (tokens repeatingText).eraseDups =
        ["$0".toList, "$\x7b1:$ 5\x7d".toList, "$\x7ba\x7d".toList] ∧
      expand repeatingText repeatingArgs =
        "US$ $2- $ 5 $$\x7ba\x7d US$ $2-$\x7ba\x7d $ 5".toList := by
  have hseparated : Separated repeatingText repeatingArgs := by decide
  refine ⟨hseparated, by decide, ?_⟩
  rw [(expand_eq_substitute_eraseDups repeatingText repeatingArgs).1 (.inr hseparated)]
  decide

/-- A token that its own value brings back is replaced once for each time it is found. -/
theorem expand_ne_substitute_eraseDups_self_reference :
    let s : Text := "$0$0".toList
    let args : List Text := ["x$0".toList]
    expand s args = "xx$0xx$0".toList ∧
      substitute args (tokens s).eraseDups s = "x$0x$0".toList ∧
      expand s args ≠ substitute args (tokens s).eraseDups s := by
  decide

end Snippets.Placeholder
