/-
# Snippets.Proofs.Snippet.Rendering — a rendered snippet has the lines of its body

Filling the placeholders of a snippet from arguments without line feeds changes lines and neither
adds nor joins any: the rendered text has as many lines as the body, and a line of the text without a
dollar sign is kept as it is. Writing it with one line feed behind it therefore writes just these
lines (`render_keeps_lines`). The arguments may hold placeholders of their own; what they bring in
stays in its line.
-/
import Snippets.Proofs.Placeholder.Linewise
import Snippets.Proofs.Snippet.Margin
import Snippets.Run

namespace Snippets

/-- Rendering a snippet that is found writes its text and a line feed. -/
theorem Catalog.perform_render {c : Catalog} {group name : Text} {g : Group} {s : Snippet}
    (hgroup : c.find? group = some g) (hname : g.find? name = some s) (args : List Text) (out : Text) :
    c.perform group (.render name args) out = (out ++ (s.render args ++ ['\n']), .ok ()) := by
  simp only [perform, Catalog.group, hgroup, hname]

namespace Snippet

variable {s : Snippet} {args : List Text}

/-- The lines of a rendered snippet are those of its text, with the tokens replaced in each. -/
theorem WellFormed.splitOn_render (h : WellFormed s) (hargs : ∀ a ∈ args, '\n' ∉ a) :
    (s.render args).splitOn '\n' =
      s.textLines.map (Placeholder.substitute args (Placeholder.tokens s.text)) := by
  have hlines := h.splitOn_text
  have hne : s.textLines ≠ [] := by simpa [textLines] using h.body_ne_nil
  refine Placeholder.splitOn_expand_unlines hargs hne fun shown hshown => ?_
  obtain ⟨line, hline, rfl⟩ := List.mem_map.mp hshown
  exact ((h.body_lines line hline).dropMargin _).one_line

/-- **Rendering keeps the lines.** When no argument holds a line feed, the rendered text has as many
lines as the body, a line of the text without a dollar sign is kept in its place, and rendering a
snippet by its group and name writes that many lines, each ended by a line feed. -/
theorem render_keeps_lines (hs : IsRead s) (hargs : ∀ a ∈ args, '\n' ∉ a) :
    ((s.render args).splitOn '\n').length = s.body.length ∧
      (∀ (i : Nat) (line : Text), (s.text.splitOn '\n')[i]? = some line → '$' ∉ line →
        ((s.render args).splitOn '\n')[i]? = some line) ∧
      ∀ (c : Catalog) (group name : Text) (g : Group) (out : Text), c.find? group = some g →
        g.find? name = some s →
          ∃ ls : List Text, c.perform group (.render name args) out =
              (out ++ ls.flatMap (· ++ ['\n']), .ok ()) ∧
            ls.length = s.body.length ∧ ∀ line ∈ ls, '\n' ∉ line := by
  have h := hs.wellFormed
  have hsplit := h.splitOn_render hargs
  have hlength : ((s.render args).splitOn '\n').length = s.body.length := by
    rw [hsplit, List.length_map, length_textLines]
  refine ⟨hlength, ?_, ?_⟩
  · intro i line hline hdollar
    rw [h.splitOn_text] at hline
    have htokens : ∀ t ∈ Placeholder.tokens s.text, Placeholder.IsToken t :=
      fun _ => Placeholder.isToken_of_mem_tokens
    rw [hsplit, List.getElem?_map, hline, Option.map_some,
      Placeholder.substitute_of_notMem htokens hdollar]
  · intro c group name g out hgroup hname
    refine ⟨(s.render args).splitOn '\n', ?_, hlength, ?_⟩
    · rw [Catalog.perform_render hgroup hname, ← Text.unlines_append_newline (List.splitOn_ne_nil _ _),
        Text.unlines, List.intercalate_splitOn]
    · exact fun _ => Text.newline_notMem_of_mem_splitOn

/-- A snippet of four lines, with placeholders in two of them. -/
def placeholderSnippet : Snippet where
  name := "f".toList
  abbr := []
  aliasName := []
  body := ["  f($\x7b0:x\x7d) \x7b".toList, [], "    $1".toList, "  \x7d".toList]
  minIndent := some 2

/-- Arguments that hold a placeholder, a lone dollar sign and braces. -/
def placeholderArgs : List Text := ["$\x7b1:y\x7d$1$".toList, "\x7b$0\x7d".toList]

theorem render_keeps_lines_placeholders :
    IsRead placeholderSnippet ∧ (∀ a ∈ placeholderArgs, '\n' ∉ a) ∧
      ((placeholderSnippet.render placeholderArgs).splitOn '\n').length = 4 ∧
      ((placeholderSnippet.render placeholderArgs).splitOn '\n')[3]? = some "\x7d".toList ∧
      ∃ ls : List Text,
        (Catalog.empty.insert "go".toList ⟨[], [placeholderSnippet]⟩).2.perform "go".toList
          (.render "f".toList placeholderArgs) [] = (ls.flatMap (· ++ ['\n']), .ok ()) ∧
        ls.length = 4 ∧ ∀ line ∈ ls, '\n' ∉ line := by
  have hread : IsRead placeholderSnippet :=
    .inl ⟨"snippet f\n  f($\x7b0:x\x7d) \x7b\n\n    $1\n  \x7d\n".toList, by decide⟩
  have hargs : ∀ a ∈ placeholderArgs, '\n' ∉ a := by decide
  obtain ⟨hlength, hkept, hwritten⟩ := render_keeps_lines hread hargs
  refine ⟨hread, hargs, hlength, hkept 3 _ (by decide) (by decide), ?_⟩
  exact hwritten _ "go".toList "f".toList ⟨[], [placeholderSnippet]⟩ [] (by decide) (by decide)

end Snippet

end Snippets
