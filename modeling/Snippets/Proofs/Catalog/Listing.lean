/-
# Snippets.Proofs.Catalog.Listing — what is listed is what can be rendered

Listing a group writes the names of its snippets one a line, and rendering searches the group for a
name. Both go over the same list by different ways, and they agree when the snippets have been read
from files: a name that is read is one word, so no line of the listing breaks inside a name
(`lines_listing`), and the snippet that is found stands where its name is listed first
(`exists_first_of_mem_names`). So a name can be rendered exactly when it is a line of the listing, and
what is rendered is the snippet of the first such line (`render_succeeds_iff_listed`).

The groups of a catalog that has been loaded hold nothing but snippets that have been read
(`holdsRead_of_result_load`).
-/
import Snippets.Proofs.Catalog.Load
import Snippets.Proofs.Run
import Snippets.Proofs.Snippet.Rendering

namespace Snippets

/-! ## One group -/

namespace Group

variable {g : Group} {name : Text}

/-- The lines of a listing are the names, in file order and with repetitions. -/
theorem lines_listing (h : ∀ s ∈ g.snippets, s.IsRead) : Text.lines g.listing = g.names := by
  refine Text.lines_of_laidOut (Text.laidOut_flatMap_newline g.names) ?_
  intro line hline
  obtain ⟨s, hs, rfl⟩ := List.mem_map.mp hline
  have hsolid : Text.IsSolid s.name := (h s hs).wellFormed.name_solid
  refine ⟨hsolid.newline_notMem, fun hlast => ?_⟩
  exact hsolid.notMem (by decide) (List.mem_of_mem_getLast? hlast)

theorem find?_eq_none_iff : g.find? name = none ↔ name ∉ g.names := by
  simp [find?, names, List.find?_eq_none]

/-- A name that is listed is found, at the first place where it is listed. -/
theorem exists_first_of_mem_names (h : name ∈ g.names) :
    ∃ (i : Nat) (s : Snippet), g.names[i]? = some name ∧ (∀ j < i, g.names[j]? ≠ some name) ∧
      g.snippets[i]? = some s ∧ g.find? name = some s := by
  cases hfind : g.find? name with
  | none => exact absurd h (find?_eq_none_iff.mp hfind)
  | some s =>
    obtain ⟨hname, i, hi, rfl, hbefore⟩ := List.find?_eq_some_iff_getElem.mp hfind
    have hplace : g.names[i]? = some name := by
      simpa [names, List.getElem?_eq_getElem hi] using hname
    refine ⟨i, _, hplace, fun j hj hlisted => ?_, List.getElem?_eq_getElem hi, rfl⟩
    have hother := hbefore j hj
    have hlt : j < g.snippets.length := hj.trans hi
    rw [names, List.getElem?_map, List.getElem?_eq_getElem hlt] at hlisted
    simp [Option.some.inj hlisted] at hother

end Group

/-! ## Commands -/

namespace Catalog

/-- Every snippet of every group has been read from a file. -/
def HoldsRead (c : Catalog) : Prop :=
  ∀ name g, c.find? name = some g → ∀ s ∈ g.snippets, s.IsRead

/-- A catalog that has been loaded holds snippets that have been read. -/
theorem holdsRead_of_result_load {t : FileTree} (ht : t.WellFormed) {root : Path} {c : Catalog}
    (h : (load t root).result = .ok c) : c.HoldsRead := by
  intro name g hg s hs
  obtain ⟨-, content, -, -, hread⟩ := (find?_eq_some_iff_isLastFile ht h).mp hg
  exact .inr ⟨content, g.snippets, hread, hs⟩

variable {c : Catalog} {group name : Text} {g : Group}

theorem perform_listSnippets (hgroup : c.find? group = some g) (out : Text) :
    c.perform group .listSnippets out = (out ++ g.listing, .ok ()) := by
  simp only [perform, Catalog.group, hgroup]

theorem perform_listSnippets_of_missing (hgroup : c.find? group = none) (out : Text) :
    c.perform group .listSnippets out = (out, .error (.groupNotFound group)) := by
  simp only [perform, Catalog.group, hgroup]

theorem perform_render_of_missing (hgroup : c.find? group = none) (args : List Text) (out : Text) :
    c.perform group (.render name args) out = (out, .error (.groupNotFound group)) := by
  simp only [perform, Catalog.group, hgroup]

theorem perform_render_of_notMem (hgroup : c.find? group = some g) (hname : name ∉ g.names)
    (args : List Text) (out : Text) :
    c.perform group (.render name args) out = (out, .error (.snippetNotFound group name)) := by
  simp only [perform, Catalog.group, hgroup, Group.find?_eq_none_iff.mpr hname]

theorem find?_eq_none_iff : c.find? group = none ↔ group ∉ c.names := by
  rw [mem_names_iff, Option.eq_none_iff_forall_ne_some, not_exists]

/-- A name of the group gives the snippet at the first place where it is listed. -/
theorem exists_perform_render_of_mem (hgroup : c.find? group = some g) (hname : name ∈ g.names)
    (args : List Text) (out : Text) :
    ∃ (i : Nat) (s : Snippet), g.names[i]? = some name ∧ (∀ j < i, g.names[j]? ≠ some name) ∧
      g.snippets[i]? = some s ∧
      c.perform group (.render name args) out = (out ++ (s.render args ++ ['\n']), .ok ()) := by
  obtain ⟨i, s, hplace, hfirst, hs, hfind⟩ := Group.exists_first_of_mem_names hname
  exact ⟨i, s, hplace, hfirst, hs, perform_render hgroup hfind args out⟩

/-- A listing succeeds for a group that is stored, and fails when there is none. -/
theorem perform_listSnippets_eq_iff {out written : Text} :
    c.perform group .listSnippets out = (out ++ written, .ok ()) ↔
      ∃ g, c.find? group = some g ∧ g.listing = written := by
  cases hgroup : c.find? group with
  | none => simp [perform_listSnippets_of_missing hgroup]
  | some g => simp [perform_listSnippets hgroup]

/-- A name can be rendered when it is that of a snippet of a group that is stored. -/
theorem perform_render_ok_iff {args : List Text} {out : Text} :
    (c.perform group (.render name args) out).2 = .ok () ↔
      ∃ g, c.find? group = some g ∧ name ∈ g.names := by
  cases hgroup : c.find? group with
  | none => simp [perform_render_of_missing hgroup]
  | some g =>
    by_cases hname : name ∈ g.names
    · obtain ⟨i, s, -, -, -, hrendered⟩ := exists_perform_render_of_mem hgroup hname args out
      simp [hrendered, hname]
    · simp [perform_render_of_notMem hgroup hname, hname]

/-- **What is listed is what can be rendered.** A group that is not stored is found neither by listing
nor by rendering. Of one that is, the lines of the listing are the names of its snippets; a name that
is no line is not found, and one that is gives the snippet at its first line. A command that fails
writes nothing, and the groups can always be listed. -/
theorem render_succeeds_iff_listed (hc : c.HoldsRead) (group name : Text) (args : List Text)
    (out : Text) :
    let listed := c.perform group .listSnippets out
    let rendered := c.perform group (.render name args) out
    (listed.2 = .error (.groupNotFound group) ↔ group ∉ c.names) ∧
    (group ∉ c.names → listed = (out, .error (.groupNotFound group)) ∧
      rendered = (out, .error (.groupNotFound group))) ∧
    (∀ g, c.find? group = some g → ∃ written, listed = (out ++ written, .ok ()) ∧
      Text.lines written = g.snippets.map (·.name) ∧
      (name ∉ Text.lines written → rendered = (out, .error (.snippetNotFound group name))) ∧
      (name ∈ Text.lines written → ∃ (i : Nat) (s : Snippet), (Text.lines written)[i]? = some name ∧
        (∀ j < i, (Text.lines written)[j]? ≠ some name) ∧ g.snippets[i]? = some s ∧
          rendered = (out ++ (s.render args ++ ['\n']), .ok ()))) ∧
    (rendered.2 = .ok () ↔
      ∃ written, listed = (out ++ written, .ok ()) ∧ name ∈ Text.lines written) ∧
    (∀ command e, (c.perform group command out).2 = .error e →
      (c.perform group command out).1 = out) ∧
    c.perform group .listGroups out = (out ++ c.listing, .ok ()) := by
  intro listed rendered
  have hmissing (h : group ∉ c.names) : listed = (out, .error (.groupNotFound group)) ∧
      rendered = (out, .error (.groupNotFound group)) :=
    ⟨perform_listSnippets_of_missing (find?_eq_none_iff.mpr h) out,
      perform_render_of_missing (find?_eq_none_iff.mpr h) args out⟩
  have hlines (g : Group) (hg : c.find? group = some g) : Text.lines g.listing = g.names :=
    Group.lines_listing (hc group g hg)
  refine ⟨⟨fun herror hstored => ?_, fun h => by rw [(hmissing h).1]⟩, hmissing, fun g hg => ?_, ?_,
    fun command e h => (perform_error h).1, rfl⟩
  · obtain ⟨g, hg⟩ := mem_names_iff.mp hstored
    rw [show listed = _ from perform_listSnippets hg out] at herror
    exact absurd herror (by simp)
  · refine ⟨g.listing, perform_listSnippets hg out, hlines g hg, ?_, ?_⟩
    · rw [hlines g hg]
      exact fun hname => perform_render_of_notMem hg hname args out
    · rw [hlines g hg]
      exact fun hname => exists_perform_render_of_mem hg hname args out
  · rw [show rendered.2 = .ok () ↔ _ from perform_render_ok_iff]
    constructor
    · rintro ⟨g, hg, hname⟩
      exact ⟨g.listing, perform_listSnippets hg out, (hlines g hg).symm ▸ hname⟩
    · rintro ⟨written, hlisted, hname⟩
      obtain ⟨g, hg, rfl⟩ := perform_listSnippets_eq_iff.mp hlisted
      exact ⟨g, hg, hlines g hg ▸ hname⟩

/-- Two snippets of one name, and before them one that has this name as its alias. -/
def doubledGroup : Group where
  source := []
  snippets := [
    { name := "a".toList, abbr := [], aliasName := "b".toList, body := ["x".toList],
      minIndent := some 0 },
    { name := "b".toList, abbr := [], aliasName := [], body := ["$0".toList], minIndent := some 0 },
    { name := "b".toList, abbr := [], aliasName := [], body := ["z".toList], minIndent := some 0 }]

theorem render_succeeds_iff_listed_doubled :
    let c := (empty.insert "go".toList doubledGroup).2
    c.HoldsRead ∧
      (c.perform "go".toList (.render "b".toList ["y".toList]) ['>']).2 = .ok () ∧
      (∃ written, c.perform "go".toList .listSnippets ['>'] = (['>'] ++ written, .ok ()) ∧
        "b".toList ∈ Text.lines written) ∧
      c.perform "no".toList (.render "b".toList []) ['>'] =
        (['>'], .error (.groupNotFound "no".toList)) := by
  intro c
  have hread : ∀ s ∈ doubledGroup.snippets, s.IsRead := by
    have hfile : Snippet.ofText "snippet a\nalias b\nx\nsnippet b\n$0\nsnippet b\nz\n".toList =
        doubledGroup.snippets := by decide
    intro s hs
    exact .inl ⟨_, hfile ▸ hs⟩
  have hc : c.HoldsRead := by
    intro name g hg
    rw [find?_insert] at hg
    split at hg
    · obtain rfl := Option.some.inj hg
      exact hread
    · exact absurd hg (by simp)
  obtain ⟨-, -, -, hsucceeds, -, -⟩ :=
    render_succeeds_iff_listed hc "go".toList "b".toList ["y".toList] ['>']
  obtain ⟨-, hmissing, -⟩ := render_succeeds_iff_listed hc "no".toList "b".toList [] ['>']
  have hok : (c.perform "go".toList (.render "b".toList ["y".toList]) ['>']).2 = .ok () := rfl
  exact ⟨hc, hok, hsucceeds.mp hok, (hmissing (by decide)).2⟩

end Catalog

end Snippets
