/-
# Snippets.Proofs.Text.Lines — cutting into lines undoes joining

Lines that hold no line feed, each ended by a line feed or by a carriage return and a line feed, are
read back as they were (`lines_of_laidOut`). A line that itself ends with a carriage return is read
back when another one stands before its line feed: only that one goes (`lines_ended`). No line that is
read holds a line feed.
-/
import Snippets.Proofs.Text.Words
import Snippets.Text.Lines

namespace Snippets.Text

theorem dropReturn_append_return (s : Text) : dropReturn (s ++ ['\r']) = s := by
  simp [dropReturn]

theorem dropReturn_prefix (s : Text) : dropReturn s <+: s := by
  unfold dropReturn
  split
  · exact List.dropLast_prefix s
  · exact List.prefix_refl s

theorem linesOfPieces_cons {pieces : List Text} (h : pieces ≠ []) (piece : Text) :
    linesOfPieces (piece :: pieces) = dropReturn piece :: linesOfPieces pieces := by
  obtain ⟨next, rest, rfl⟩ := List.exists_cons_of_ne_nil h
  rfl

/-- The first line ends at the first line feed. -/
theorem lines_append_newline {s : Text} (h : '\n' ∉ s) (t : Text) :
    lines (s ++ '\n' :: t) = dropReturn s :: lines t := by
  rw [lines, List.splitOn_append_cons_self_of_not_mem h, linesOfPieces_cons (by simp)]
  rfl

/-- Text without a line feed is one line. -/
theorem lines_of_notMem {s : Text} (hne : s ≠ []) (h : '\n' ∉ s) : lines s = [s] := by
  rw [lines, List.splitOn_eq_singleton h, linesOfPieces, if_neg (by simpa using hne)]

theorem chomp_of_notMem {s : Text} (h : '\n' ∉ s) : chomp s = s := by
  rw [chomp, if_neg]
  intro hlast
  exact h (List.mem_of_mem_getLast? hlast)

theorem chomp_append_newline (s : Text) : chomp (s ++ ['\n']) = dropReturn s := by
  simp [chomp]

/-! ## Line ends -/

/-- The two ways to end a line. -/
inductive LineEnd where
  /-- A line feed. -/
  | lineFeed
  /-- A carriage return and a line feed. -/
  | returnLineFeed
deriving DecidableEq, Repr

/-- The characters of a line end. -/
def LineEnd.text : LineEnd → Text
  | lineFeed => ['\n']
  | returnLineFeed => ['\r', '\n']

/-- A line goes up to its end, whatever the end, unless a carriage return of its own stands before a
line feed. -/
theorem lines_append_ending {line : Text} (h : '\n' ∉ line) (ending : LineEnd)
    (hreturn : ending = .lineFeed → line.getLast? ≠ some '\r') (t : Text) :
    lines (line ++ (ending.text ++ t)) = line :: lines t := by
  cases ending with
  | lineFeed =>
    calc lines (line ++ '\n' :: t)
        = dropReturn line :: lines t := lines_append_newline h t
      _ = line :: lines t := by rw [dropReturn, if_neg (hreturn rfl)]
  | returnLineFeed =>
    -- the carriage return before the line feed is the one that was put there
    have hline : '\n' ∉ line ++ ['\r'] := by simp [h]
    calc lines (line ++ '\r' :: '\n' :: t)
        = lines ((line ++ ['\r']) ++ '\n' :: t) := by simp
      _ = dropReturn (line ++ ['\r']) :: lines t := lines_append_newline hline t
      _ = line :: lines t := by rw [dropReturn_append_return]

/-- The text of lines that are each ended by a carriage return and a line feed. -/
def ended (ls : List Text) : Text := ls.flatMap (· ++ ['\r', '\n'])

theorem lines_ended {ls : List Text} (h : ∀ line ∈ ls, '\n' ∉ line) : lines (ended ls) = ls := by
  induction ls with
  | nil => rfl
  | cons line ls ih =>
    obtain ⟨hline, hls⟩ := List.forall_mem_cons.mp h
    calc lines (ended (line :: ls))
        = lines (line ++ (LineEnd.returnLineFeed.text ++ ended ls)) := by simp [ended, LineEnd.text]
      _ = line :: lines (ended ls) := lines_append_ending hline .returnLineFeed (by simp) _
      _ = line :: ls := by rw [ih hls]

/-- A text in which some lines stand one behind the other, each with an end of its own choice. The
last line may lack its end when there is something in it. -/
inductive LaidOut : List Text → Text → Prop
  /-- No lines. -/
  | nil : LaidOut [] []
  /-- A last line without an end. -/
  | unended {line : Text} (hne : line ≠ []) : LaidOut [line] line
  /-- A line with its end, and the lines behind it. -/
  | ended {line t : Text} {ls : List Text} (ending : LineEnd) (h : LaidOut ls t) :
      LaidOut (line :: ls) (line ++ (ending.text ++ t))

/-- Lines that are each ended by a line feed are laid out. -/
theorem laidOut_flatMap_newline (ls : List Text) : LaidOut ls (ls.flatMap (· ++ ['\n'])) := by
  induction ls with
  | nil => exact .nil
  | cons line ls ih =>
    rw [List.flatMap_cons, List.append_assoc]
    exact .ended .lineFeed ih

/-- The lines of a text are those that it is laid out from, whatever their ends. -/
theorem lines_of_laidOut {ls : List Text} {s : Text} (h : LaidOut ls s)
    (hls : ∀ line ∈ ls, '\n' ∉ line ∧ line.getLast? ≠ some '\r') : lines s = ls := by
  induction h with
  | nil => rfl
  | @unended line hne =>
    obtain ⟨hline, -⟩ := hls line List.mem_cons_self
    exact lines_of_notMem hne hline
  | @ended line t ls ending h ih =>
    obtain ⟨⟨hline, hreturn⟩, hrest⟩ := List.forall_mem_cons.mp hls
    rw [lines_append_ending hline ending fun _ => hreturn, ih hrest]

/-! ## What a line holds -/

theorem exists_prefix_of_mem_linesOfPieces {pieces : List Text} {line : Text}
    (h : line ∈ linesOfPieces pieces) : ∃ piece ∈ pieces, line <+: piece := by
  induction pieces with
  | nil => exact absurd h List.not_mem_nil
  | cons piece pieces ih =>
    cases pieces with
    | nil =>
      rw [linesOfPieces] at h
      split at h
      · exact absurd h List.not_mem_nil
      · exact ⟨piece, List.mem_cons_self, List.mem_singleton.mp h ▸ List.prefix_refl _⟩
    | cons next rest =>
      rw [linesOfPieces_cons (by simp)] at h
      rcases List.mem_cons.mp h with rfl | h
      · exact ⟨piece, List.mem_cons_self, dropReturn_prefix piece⟩
      · obtain ⟨other, hother, hline⟩ := ih h
        exact ⟨other, List.mem_cons_of_mem _ hother, hline⟩

theorem newline_notMem_of_mem_splitOn {s piece : Text} (h : piece ∈ s.splitOn '\n') :
    '\n' ∉ piece := by
  rw [List.splitOn_eq_splitOnP] at h
  intro hmem
  exact absurd (of_mem_splitOnP h hmem).2 (by decide)

/-- No line holds a line feed. -/
theorem newline_notMem_of_mem_lines {s line : Text} (h : line ∈ lines s) : '\n' ∉ line := by
  obtain ⟨piece, hpiece, hline⟩ := exists_prefix_of_mem_linesOfPieces h
  intro hmem
  exact newline_notMem_of_mem_splitOn hpiece (hline.subset hmem)

/-! ## Joined lines -/

theorem unlines_cons_cons (line next : Text) (ls : List Text) :
    unlines (line :: next :: ls) = line ++ '\n' :: unlines (next :: ls) := by
  simp [unlines, List.intercalate_cons_cons]

/-- Lines joined by line feeds, with one more behind them, are the lines each ended by one. -/
theorem unlines_append_newline {ls : List Text} (hne : ls ≠ []) :
    unlines ls ++ ['\n'] = ls.flatMap (· ++ ['\n']) := by
  induction ls with
  | nil => exact absurd rfl hne
  | cons line ls ih =>
    cases ls with
    | nil => simp [unlines]
    | cons next ls =>
      calc unlines (line :: next :: ls) ++ ['\n']
          = (line ++ ['\n']) ++ (unlines (next :: ls) ++ ['\n']) := by simp [unlines_cons_cons]
        _ = (line ++ ['\n']) ++ (next :: ls).flatMap (· ++ ['\n']) := by rw [ih (by simp)]

/-- Lines without line feeds are read back from their joined text. -/
theorem splitOn_unlines {ls : List Text} (hne : ls ≠ []) (h : ∀ line ∈ ls, '\n' ∉ line) :
    (unlines ls).splitOn '\n' = ls :=
  List.splitOn_intercalate '\n' h hne

end Snippets.Text
