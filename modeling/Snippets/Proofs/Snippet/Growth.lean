/-
# Snippets.Proofs.Snippet.Growth — what one more line changes

The snippets of the lines so far are those that reading would give if the input ended here. One more
line leaves them as they are, adds one snippet at the end, or changes the last one (`Advances`): a
header closes the open snippet, which is visible already if it has a body, and the snippet it opens is
not visible before its first body line.

So along a run the snippets only grow at the end, by at most one a line, and one that another follows
stays as it is (`ofLines_append_advances`).
-/
import Snippets.Snippet.Reader

namespace Snippets

variable {raw : Text}

/-! ## One line -/

/-- What a line does to the last snippet. -/
inductive Snippet.Revises (raw : Text) : Snippet → Snippet → Prop
  /-- It goes to the body, and the margin does not grow; no margin is wider than any. -/
  | line {s s' : Snippet} (isBody : (Line.ofRaw raw).isBody = true) (name : s'.name = s.name)
      (abbr : s'.abbr = s.abbr) (aliasName : s'.aliasName = s.aliasName)
      (body : s'.body = s.body ++ [raw])
      (minIndent : ∀ least ∈ s.minIndent, ∃ least' ∈ s'.minIndent, least' ≤ least) :
      Revises raw s s'
  /-- It gives the description, and all else stays. -/
  | abbr (s : Snippet) {text : Text} (given : Line.ofRaw raw = .abbr text) :
      Revises raw s { s with abbr := text }
  /-- It gives the alias, and all else stays. -/
  | aliasName (s : Snippet) {name : Text} (given : Line.ofRaw raw = .aliasName name) :
      Revises raw s { s with aliasName := name }

theorem Snippet.Revises.body {s s' : Snippet} (h : s.Revises raw s') :
    (Line.ofRaw raw).isBody = true ∧ s'.body = s.body ++ [raw] ∨ s'.body = s.body := by
  cases h with
  | line isBody _ _ _ body _ => exact .inl ⟨isBody, body⟩
  | abbr | aliasName => exact .inr rfl

/-- What a line does to the snippets read. -/
inductive Advances (raw : Text) : List Snippet → List Snippet → Prop
  /-- Nothing. -/
  | same (read : List Snippet) : Advances raw read read
  /-- A snippet with this line as its body becomes visible. -/
  | begun (read : List Snippet) {s : Snippet} (isBody : (Line.ofRaw raw).isBody = true)
      (body : s.body = [raw]) : Advances raw read (read ++ [s])
  /-- The last snippet changes. -/
  | revised (front : List Snippet) {s s' : Snippet} (h : s.Revises raw s') :
      Advances raw (front ++ [s]) (front ++ [s'])

namespace Reader

open Snippet

theorem closing_of_body_eq_nil {s : Snippet} (h : s.body = []) : closing (some s) = [] := by
  simp [closing, h]

theorem closing_of_body_ne_nil {s : Snippet} (h : s.body ≠ []) : closing (some s) = [s] := by
  simp [closing, h]

/-- A snippet just opened is not visible. -/
theorem closing_map_named (name : Option Text) : closing (name.map named) = [] := by
  cases name with
  | none => rfl
  | some name => exact closing_of_body_eq_nil rfl

theorem revises_pushLine (s : Snippet) (hasContent : Bool) (h : (Line.ofRaw raw).isBody = true) :
    s.Revises raw (s.pushLine raw hasContent) := by
  refine .line h rfl rfl rfl rfl fun least hleast => ?_
  obtain hleast : s.minIndent = some least := hleast
  cases hasContent with
  | false => exact ⟨least, hleast, Nat.le_refl _⟩
  | true =>
    refine ⟨min least raw.indentation, ?_, Nat.min_le_left _ _⟩
    simp [pushLine, hleast]

/-- A change to the open snippet, as far as it is visible. -/
theorem advances_of_revises (done : List Snippet) {s s' : Snippet} (h : s.Revises raw s') :
    Advances raw (done ++ closing (some s)) (done ++ closing (some s')) := by
  by_cases hbody : s.body = []
  · rw [closing_of_body_eq_nil hbody, List.append_nil]
    rcases h.body with ⟨hisBody, hline⟩ | hsame
    · rw [hbody, List.nil_append] at hline
      rw [closing_of_body_ne_nil (by simp [hline])]
      exact .begun done hisBody hline
    · rw [closing_of_body_eq_nil (hsame.trans hbody), List.append_nil]
      exact .same done
  · have hbody' : s'.body ≠ [] := by
      rcases h.body with ⟨-, hline⟩ | hsame
      · simp [hline]
      · rwa [hsame]
    rw [closing_of_body_ne_nil hbody, closing_of_body_ne_nil hbody']
    exact .revised done h

/-- One more line, in any state. -/
theorem advances_readLine (r : Reader) (raw : Text) :
    Advances raw r.snippets (r.readLine raw).snippets := by
  obtain ⟨done, current⟩ := r
  unfold readLine snippets
  -- without an open snippet only a header matters, and it makes none visible
  cases hline : Line.ofRaw raw with
  | comment => exact .same _
  | header name =>
    dsimp only [snippets]
    rw [closing_map_named, List.append_nil]
    exact .same _
  | abbr text =>
    cases current with
    | none => exact .same _
    | some s => exact advances_of_revises done (.abbr s hline)
  | aliasName name =>
    cases current with
    | none => exact .same _
    | some s => exact advances_of_revises done (.aliasName s hline)
  | blank | content =>
    cases current with
    | none => exact .same _
    | some s => exact advances_of_revises done (revises_pushLine s _ (by rw [hline]; rfl))

end Reader

/-! ## A run -/

namespace Advances

variable {read more : List Snippet}

theorem length_le (h : Advances raw read more) : read.length ≤ more.length := by
  cases h <;> simp

theorem length_le_succ (h : Advances raw read more) : more.length ≤ read.length + 1 := by
  cases h <;> simp

/-- All but the last stay, and whatever comes takes its place behind them. -/
theorem dropLast_isPrefix (h : Advances raw read more) : read.dropLast <+: more.dropLast := by
  cases h with
  | same => exact List.prefix_refl _
  | begun =>
    rw [List.dropLast_concat]
    exact List.dropLast_prefix _
  | revised front => simp only [List.dropLast_concat, List.prefix_refl]

end Advances

namespace Reader

theorem length_le_readLines (r : Reader) (ls : List Text) :
    r.snippets.length ≤ (r.readLines ls).snippets.length := by
  induction ls generalizing r with
  | nil => exact Nat.le_refl _
  | cons raw ls ih => exact Nat.le_trans (advances_readLine r raw).length_le (ih _)

theorem length_readLines_le (r : Reader) (ls : List Text) :
    (r.readLines ls).snippets.length ≤ r.snippets.length + ls.length := by
  induction ls generalizing r with
  | nil => exact Nat.le_refl _
  | cons raw ls ih =>
    have hstep := (advances_readLine r raw).length_le_succ
    have hrest := ih (r.readLine raw)
    rw [readLines_cons, List.length_cons]
    omega

theorem dropLast_isPrefix_readLines (r : Reader) (ls : List Text) :
    r.snippets.dropLast <+: (r.readLines ls).snippets.dropLast := by
  induction ls generalizing r with
  | nil => exact List.prefix_refl _
  | cons raw ls ih => exact (advances_readLine r raw).dropLast_isPrefix.trans (ih _)

end Reader

/-- **Reading only moves forward.** One more line changes the last snippet at most: it stays, gets the
line, a description or an alias, or a new one with that line follows. So with more lines the snippets
do not become fewer and at most one more for each line, and those that another one follows stay. -/
theorem ofLines_append_advances (ls : List Text) :
    (∀ raw, Advances raw (Snippet.ofLines ls) (Snippet.ofLines (ls ++ [raw]))) ∧
    ∀ more, (Snippet.ofLines ls).length ≤ (Snippet.ofLines (ls ++ more)).length ∧
      (Snippet.ofLines (ls ++ more)).length ≤ (Snippet.ofLines ls).length + more.length ∧
      (Snippet.ofLines ls).dropLast <+: Snippet.ofLines (ls ++ more) := by
  refine ⟨fun raw => ?_, fun more => ?_⟩
  · rw [Snippet.ofLines, Snippet.ofLines, Reader.readLines_append]
    exact Reader.advances_readLine _ raw
  · rw [Snippet.ofLines, Snippet.ofLines, Reader.readLines_append]
    refine ⟨Reader.length_le_readLines _ more, Reader.length_readLines_le _ more, ?_⟩
    refine (Reader.dropLast_isPrefix_readLines _ more).trans ?_
    exact List.dropLast_prefix _

end Snippets
