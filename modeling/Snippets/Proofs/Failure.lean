/-
# Snippets.Proofs.Failure — a message says what was not found

A group or snippet that is not found is named in the message between quotes. The words around the
names are fixed and a quoted name can be read back, so the message determines the names, whatever they
hold: a name that imitates the end of a quotation and the words behind it is quoted like any other
(`message_identifies_missing`). No part of such a message is hidden from its reader.
-/
import Snippets.Failure
import Snippets.Proofs.Text.Quoted

namespace Snippets.Failure

open Text

variable {group name : Text}

/-- What stands behind the fixed words at the start of a message. -/
theorem message_groupNotFound (group : Text) :
    (groupNotFound group).message = "group ".toList ++ (quote group ++ " not found".toList) :=
  List.append_assoc _ _ _

theorem message_snippetNotFound (group name : Text) : (snippetNotFound group name).message =
    "snippet ".toList ++ (quote name ++ (" not found in group ".toList ++ quote group)) := by
  unfold message
  simp only [List.append_assoc]

/-- The messages begin with different words. -/
theorem message_groupNotFound_ne (group other name : Text) :
    (groupNotFound group).message ≠ (snippetNotFound other name).message := by
  have hfirst : "group ".toList.head? = some 'g' := by decide
  have hfirst' : "snippet ".toList.head? = some 's' := by decide
  intro h
  have hhead := congrArg List.head? h
  rw [message_groupNotFound, message_snippetNotFound, List.head?_append,
    List.head?_append (l := "snippet ".toList), hfirst, hfirst'] at hhead
  exact absurd (Option.some.inj hhead) (by decide)

theorem not_isObscure_of_mem_message_groupNotFound {c : Char}
    (h : c ∈ (groupNotFound group).message) : isObscure c = false := by
  rw [message_groupNotFound, List.mem_append, List.mem_append] at h
  rcases h with hfront | hquote | hback
  · exact not_isObscure_of_all_isPrintable (by decide) hfront
  · exact not_isObscure_of_mem_quote hquote
  · exact not_isObscure_of_all_isPrintable (by decide) hback

theorem not_isObscure_of_mem_message_snippetNotFound {c : Char}
    (h : c ∈ (snippetNotFound group name).message) : isObscure c = false := by
  rw [message_snippetNotFound, List.mem_append, List.mem_append, List.mem_append] at h
  rcases h with hfront | hname | hbetween | hgroup
  · exact not_isObscure_of_all_isPrintable (by decide) hfront
  · exact not_isObscure_of_mem_quote hname
  · exact not_isObscure_of_all_isPrintable (by decide) hbetween
  · exact not_isObscure_of_mem_quote hgroup

/-- **The message that something is not found says what it is.** Two such messages are equal only when
they are about the same group, or the same group and snippet, whatever the names hold. Every character
of the message can be seen; in particular none is a control character and none breaks the line. -/
theorem message_identifies_missing :
    (∀ group other : Text,
      (groupNotFound group).message = (groupNotFound other).message ↔ group = other) ∧
    (∀ group name otherGroup otherName : Text,
      (snippetNotFound group name).message = (snippetNotFound otherGroup otherName).message ↔
        group = otherGroup ∧ name = otherName) ∧
    (∀ group other name : Text,
      (groupNotFound group).message ≠ (snippetNotFound other name).message) ∧
    (∀ group name : Text, ∀ e ∈ [groupNotFound group, snippetNotFound group name],
      ∀ c ∈ e.message, isObscure c = false ∧ controlRanges.holds c = false ∧
        lineBreakRanges.holds c = false) := by
  refine ⟨?_, ?_, message_groupNotFound_ne, ?_⟩
  · intro group other
    rw [message_groupNotFound, message_groupNotFound, List.append_cancel_left_eq, quote_append_inj]
    exact and_iff_left rfl
  · intro group name otherGroup otherName
    rw [message_snippetNotFound, message_snippetNotFound, List.append_cancel_left_eq,
      quote_append_inj, List.append_cancel_left_eq, quote_inj]
    exact And.comm
  · intro group name e he c hc
    have hseen : isObscure c = false := by
      rcases List.mem_pair.mp he with rfl | rfl
      · exact not_isObscure_of_mem_message_groupNotFound hc
      · exact not_isObscure_of_mem_message_snippetNotFound hc
    exact ⟨hseen, not_holds_of_not_isObscure hseen⟩

/-- A name and a group that imitate the words between them. Between bare quotes the two messages would
be the same; as they are they differ, and every character of them can be seen. -/
theorem message_identifies_missing_imitation :
    let longName := "n\" not found in group \"g".toList
    let longGroup := "g\" not found in group \"g".toList
    longName ++ "\" not found in group \"".toList ++ ['g'] =
        ['n'] ++ "\" not found in group \"".toList ++ longGroup ∧
      (snippetNotFound ['g'] longName).message ≠ (snippetNotFound longGroup ['n']).message ∧
      '"' ∈ (snippetNotFound ['g'] longName).message ∧ lineBreakRanges.holds '"' = false := by
  intro longName longGroup
  obtain ⟨-, hdetermined, -, hseen⟩ := message_identifies_missing
  have hquote : '"' ∈ (snippetNotFound ['g'] longName).message := by
    rw [message_snippetNotFound]
    exact List.mem_append_right _ (List.mem_append_left _ List.mem_cons_self)
  refine ⟨rfl, fun h => ?_, hquote, ?_⟩
  · exact absurd ((hdetermined _ _ _ _).mp h).2 (by decide)
  · exact (hseen ['g'] longName _ (by simp) _ hquote).2.2

end Snippets.Failure
