/-
# Snippets.Proofs.Snippet.Arguments — which arguments an expansion depends on

A text names the positions of the arguments in its tokens, and an empty argument counts as a missing
one. Two lists of arguments that agree at the positions a text names expand it to the same text, and so
render a snippet and carry out a command alike (`expand_depends_on_named`).

Values may bring the tokens of other positions into the text, and such a token is replaced when its
turn comes. But there are only the turns of the tokens that the text had at the start. So one turn is
the same for both lists, whatever the text has become by then, and from turn to turn nothing else comes
in (`substitute_congr`).
-/
import Snippets.Proofs.Run
import Snippets.Proofs.Placeholder.SinglePass

namespace Snippets

namespace Placeholder

/-! ## Arguments that agree -/

/-- The positions of the arguments that a text names, token by token. -/
def namedPositions (s : Text) : List Nat :=
  (tokens s).filterMap fun t => (parse? t).map Placeholder.index

/-- Two lists of arguments hold the same at some positions; what is empty counts as missing. -/
def AgreeAt (positions : List Nat) (args others : List Text) : Prop :=
  ∀ i ∈ positions, effectiveArgument args i = effectiveArgument others i

instance (positions : List Nat) (args others : List Text) : Decidable (AgreeAt positions args others) :=
  List.decidableBAll (fun i => effectiveArgument args i = effectiveArgument others i) positions

/-- The arguments at some positions, with empty ones in place of all others. -/
def keepAt (positions : List Nat) (args : List Text) : List Text :=
  args.mapIdx fun i a => if i ∈ positions then a else []

variable {positions : List Nat} {args others : List Text}

theorem agreeAt_keepAt (positions : List Nat) (args : List Text) :
    AgreeAt positions (keepAt positions args) args := by
  intro i hi
  simp [effectiveArgument, keepAt, hi]

/-- Arguments behind those that are named do not count. -/
theorem agreeAt_append (h : ∀ i ∈ positions, i < args.length) (surplus : List Text) :
    AgreeAt positions (args ++ surplus) args := by
  intro i hi
  rw [effectiveArgument, effectiveArgument, List.getElem?_append_left (h i hi)]

/-- Empty arguments at the end are missing ones. -/
theorem agreeAt_append_replicate_nil (positions : List Nat) (args : List Text) (count : Nat) :
    AgreeAt positions (args ++ List.replicate count []) args := by
  intro i _
  by_cases hi : i < args.length
  · rw [effectiveArgument, effectiveArgument, List.getElem?_append_left hi]
  · have hmissing : effectiveArgument args i = none := by
      rw [effectiveArgument_eq_none_iff, List.getElem?_eq_none (by omega)]
      simp
    rw [hmissing, effectiveArgument_eq_none_iff, List.getElem?_append_right (by omega)]
    intro a ha
    exact List.eq_of_mem_replicate (List.mem_of_getElem? ha)

/-! ## Turns that agree -/

theorem tokenValue_congr {t : Text}
    (h : ∀ p, parse? t = some p → effectiveArgument args p.index = effectiveArgument others p.index) :
    tokenValue args t = tokenValue others t := by
  cases hparse : parse? t with
  | none => rw [tokenValue_of_malformed hparse, tokenValue_of_malformed hparse]
  | some p => rw [tokenValue_of_parse? hparse, tokenValue_of_parse? hparse, value, value, h p hparse]

/-- Turns with the same values give the same text, whatever text they start from. -/
theorem substitute_congr {ts : List Text} (h : ∀ t ∈ ts, tokenValue args t = tokenValue others t)
    (s : Text) : substitute args ts s = substitute others ts s := by
  induction ts generalizing s with
  | nil => rfl
  | cons t ts ih =>
    obtain ⟨ht, hrest⟩ := List.forall_mem_cons.mp h
    calc substitute args (t :: ts) s
        = substitute args ts (Text.replaceAll t (tokenValue args t) s) := rfl
      _ = substitute others ts (Text.replaceAll t (tokenValue args t) s) := ih hrest _
      _ = substitute others ts (Text.replaceAll t (tokenValue others t) s) := by rw [ht]
      _ = substitute others (t :: ts) s := rfl

theorem AgreeAt.expand_eq {s : Text} (h : AgreeAt (namedPositions s) args others) :
    expand s args = expand s others := by
  refine substitute_congr (fun t ht => tokenValue_congr fun p hp => h p.index ?_) s
  exact List.mem_filterMap.mpr ⟨t, ht, by rw [hp, Option.map_some]⟩

end Placeholder

open Placeholder

/-! ## Commands and runs -/

variable {args others : List Text}

/-- Rendering by name is the same for arguments that agree on the snippet it finds. -/
theorem Catalog.perform_render_eq_of_agreeAt {c : Catalog} {group name : Text}
    (h : ∀ g s, c.find? group = some g → g.find? name = some s →
      AgreeAt (namedPositions s.text) args others) (out : Text) :
    c.perform group (.render name args) out = c.perform group (.render name others) out := by
  unfold perform Catalog.group
  cases hgroup : c.find? group with
  | none => rfl
  | some g =>
    dsimp only
    cases hname : g.find? name with
    | none => rfl
    | some s =>
      have hrender : s.render args = s.render others := (h g s hgroup hname).expand_eq
      dsimp only
      rw [hrender]

/-- Runs differ in nothing when their commands do the same on the catalog that is loaded. -/
theorem execute_congr {invocation : Invocation} {command other : Command} {env : Environment}
    {cache : Path} {generatedAt : Text} {t : FileTree}
    (h : ∀ c, (Catalog.load t (env.root invocation.root)).result = .ok c →
      c.perform invocation.group command [] = c.perform invocation.group other []) :
    execute { invocation with command := command } env cache generatedAt t =
      execute { invocation with command := other } env cache generatedAt t := by
  unfold execute
  cases hload : (Catalog.load t (env.root invocation.root)).result with
  | error e => simp only [hload]
  | ok c => simp only [hload, Catalog.outcome, h c hload]

/-- **An expansion depends on the arguments that the text names, and on no other.** Two lists of
arguments that agree at the named positions, where an empty argument is a missing one, expand a text
and render a snippet to the same text, write the same output for a command and leave the same outcome
of a run. So all other arguments may be empty, and arguments behind the named ones or empty ones at the end
never matter, whatever the values hold. -/
theorem expand_depends_on_named :
    (∀ (s : Text) (args others : List Text), AgreeAt (namedPositions s) args others →
      expand s args = expand s others) ∧
    (∀ (s : Snippet) (args others : List Text), AgreeAt (namedPositions s.text) args others →
      s.render args = s.render others) ∧
    (∀ (c : Catalog) (group name out : Text) (args others : List Text),
      (∀ g s, c.find? group = some g → g.find? name = some s →
        AgreeAt (namedPositions s.text) args others) →
      c.perform group (.render name args) out = c.perform group (.render name others) out) ∧
    (∀ (invocation : Invocation) (name : Text) (args others : List Text) (env : Environment)
      (cache : Path) (generatedAt : Text) (t : FileTree),
      (∀ c g s, (Catalog.load t (env.root invocation.root)).result = .ok c →
        c.find? invocation.group = some g → g.find? name = some s →
          AgreeAt (namedPositions s.text) args others) →
      execute { invocation with command := .render name args } env cache generatedAt t =
        execute { invocation with command := .render name others } env cache generatedAt t) ∧
    (∀ (s : Text) (args : List Text), expand s (keepAt (namedPositions s) args) = expand s args) ∧
    (∀ (s : Text) (args surplus : List Text), (∀ i ∈ namedPositions s, i < args.length) →
      expand s (args ++ surplus) = expand s args) ∧
    ∀ (s : Text) (args : List Text) (count : Nat),
      expand s (args ++ List.replicate count []) = expand s args := by
  refine ⟨fun s args others h => h.expand_eq, fun s args others h => h.expand_eq, ?_, ?_, ?_, ?_, ?_⟩
  · intro c group name out args others h
    exact Catalog.perform_render_eq_of_agreeAt h out
  · intro invocation name args others env cache generatedAt t h
    apply execute_congr
    intro c hload
    exact Catalog.perform_render_eq_of_agreeAt (fun g s => h c g s hload) []
  · intro s args
    exact (agreeAt_keepAt _ args).expand_eq
  · intro s args surplus h
    exact (agreeAt_append h surplus).expand_eq
  · intro s args count
    exact (agreeAt_append_replicate_nil _ args count).expand_eq

/-- A snippet that names the arguments at two positions; the braces are written by their numbers. -/
def namingSnippet : Snippet where
  name := "f".toList
  abbr := []
  aliasName := []
  body := ["$0 $\x7b2:d\x7d".toList]
  minIndent := some 0

/-- The catalog of that snippet. -/
def namingCatalog : Catalog := (Catalog.empty.insert "go".toList ⟨[], [namingSnippet]⟩).2

/-- A value that holds the tokens of the arguments behind it, which the snippet does not name. -/
def leakingArgs : List Text := ["$1 $3".toList, "one".toList, [], "three".toList]

theorem expand_depends_on_named_leaking :
    AgreeAt (namedPositions namingSnippet.text) leakingArgs ["$1 $3".toList] ∧
      namingSnippet.render leakingArgs = "$1 $3 d".toList ∧
      namingCatalog.perform "go".toList (.render "f".toList leakingArgs) [] =
        ("$1 $3 d\n".toList, .ok ()) ∧
      expand "$0".toList (leakingArgs ++ ["four".toList]) = "$1 $3".toList := by
  obtain ⟨-, hrender, hperform, -, -, hsurplus, -⟩ := expand_depends_on_named
  have hagree : AgreeAt (namedPositions namingSnippet.text) leakingArgs ["$1 $3".toList] := by decide
  refine ⟨hagree, ?_, ?_, ?_⟩
  · rw [hrender _ _ _ hagree]
    decide
  · rw [hperform _ _ _ _ _ ["$1 $3".toList]]
    · rfl
    · intro g s hgroup hname
      have hgo : namingCatalog.find? "go".toList = some ⟨[], [namingSnippet]⟩ := by decide
      obtain rfl := Option.some.inj (hgroup.symm.trans hgo)
      have hf : Group.find? ⟨[], [namingSnippet]⟩ "f".toList = some namingSnippet := by decide
      obtain rfl := Option.some.inj (hname.symm.trans hf)
      exact hagree
  · rw [hsurplus _ _ _ (by decide)]
    decide

end Snippets
