/-
# Snippets.Proofs.Run — a run is all or nothing, stage by stage

A run loads, exports and carries out its command. Each stage that fails ends the run with nothing
written to the output, and with the tree as the stages before left it (`execute_all_or_nothing`).
A load changes nothing; an export that fails has made directories on its way at most; a command
changes no tree, and writes only after it has found what it looks up.
-/
import Snippets.Run
import Snippets.Proofs.Catalog.Export

namespace Snippets

namespace Catalog

/-! ## Loading -/

theorem saved_notMem_events_loadStops (t : FileTree) (c : Catalog) (stops : List (Stop × Path))
    (path : Path) (count : Nat) : Event.saved path count ∉ (loadStops t c stops).events := by
  fun_induction loadStops t c stops <;> simp_all [Loaded.after]

/-- A load reports no export. -/
theorem saved_notMem_events_load (t : FileTree) (root path : Path) (count : Nat) :
    Event.saved path count ∉ (load t root).events := by
  unfold load
  split
  · simp
  · exact saved_notMem_events_loadStops t _ _ path count

/-! ## Commands -/

variable {c : Catalog} {group : Text} {command : Command} {out : Text} {e : Failure}

theorem group_eq_error (h : c.group group = .error e) : e = .groupNotFound group := by
  unfold Catalog.group at h
  cases hfind : c.find? group with
  | some g =>
    rw [hfind] at h
    exact absurd h (by simp)
  | none =>
    rw [hfind] at h
    exact (Except.error.inj h).symm

/-- A command that fails has written nothing: it did not find its group, or not its snippet. -/
theorem perform_error (h : (c.perform group command out).2 = .error e) :
    (c.perform group command out).1 = out ∧
      (e = .groupNotFound group ∨ ∃ name, e = .snippetNotFound group name) := by
  cases hgroup : c.group group with
  | error cause =>
    cases command with
    | listGroups => exact absurd h (by simp [perform])
    | render _ _ | listSnippets =>
      simp only [perform, hgroup] at h ⊢
      obtain rfl := Except.error.inj h
      exact ⟨trivial, .inl (group_eq_error hgroup)⟩
  | ok g =>
    cases command with
    | render name args =>
      cases hfind : g.find? name with
      | none =>
        simp only [perform, hgroup, hfind] at h ⊢
        exact ⟨trivial, .inr ⟨name, (Except.error.inj h).symm⟩⟩
      | some snippet => exact absurd h (by simp [perform, hgroup, hfind])
    | listSnippets => exact absurd h (by simp [perform, hgroup])
    | listGroups => exact absurd h (by simp [perform])

end Catalog

/-! ## Runs -/

section Stages

variable {invocation : Invocation} {env : Environment} {cache : Path} {generatedAt : Text}
  {t : FileTree} {c : Catalog} {e : Failure}

theorem execute_of_load_error
    (hload : (Catalog.load t (env.root invocation.root)).result = .error e) :
    execute invocation env cache generatedAt t =
      { tree := t
        events := .loading (env.root invocation.root) ::
          (Catalog.load t (env.root invocation.root)).events
        output := []
        result := .error e } := by
  unfold execute
  simp only [hload]

theorem execute_of_noCache
    (hload : (Catalog.load t (env.root invocation.root)).result = .ok c)
    (hcache : invocation.noCache = true) :
    execute invocation env cache generatedAt t =
      c.outcome invocation (.loading (env.root invocation.root) ::
        (Catalog.load t (env.root invocation.root)).events) t := by
  unfold execute
  simp only [hload, hcache, if_true]

theorem execute_of_save_error
    (hload : (Catalog.load t (env.root invocation.root)).result = .ok c)
    (hcache : invocation.noCache = false) (hsave : (c.save generatedAt cache t).result = .error e) :
    execute invocation env cache generatedAt t =
      { tree := (c.save generatedAt cache t).tree
        events := .loading (env.root invocation.root) ::
          (Catalog.load t (env.root invocation.root)).events ++
            (c.save generatedAt cache t).events
        output := []
        result := .error e } := by
  unfold execute
  simp only [hload, hcache, hsave]
  rfl

theorem execute_of_save_ok
    (hload : (Catalog.load t (env.root invocation.root)).result = .ok c)
    (hcache : invocation.noCache = false) (hsave : (c.save generatedAt cache t).result = .ok ()) :
    execute invocation env cache generatedAt t =
      c.outcome invocation (.loading (env.root invocation.root) ::
          (Catalog.load t (env.root invocation.root)).events ++
            (c.save generatedAt cache t).events)
        (c.save generatedAt cache t).tree := by
  unfold execute
  simp only [hload, hcache, hsave]
  rfl

/-- A run that fails leaves the output empty, at whatever stage. -/
theorem output_of_result_error (h : (execute invocation env cache generatedAt t).result = .error e) :
    (execute invocation env cache generatedAt t).output = [] := by
  cases hload : (Catalog.load t (env.root invocation.root)).result with
  | error cause => rw [execute_of_load_error hload]
  | ok c =>
    cases hcache : invocation.noCache with
    | true =>
      rw [execute_of_noCache hload hcache] at h ⊢
      exact (Catalog.perform_error h).1
    | false =>
      cases hsave : (c.save generatedAt cache t).result with
      | error cause => rw [execute_of_save_error hload hcache hsave]
      | ok _ =>
        rw [execute_of_save_ok hload hcache hsave] at h ⊢
        exact (Catalog.perform_error h).1

theorem tree_of_noCache (hcache : invocation.noCache = true) :
    (execute invocation env cache generatedAt t).tree = t := by
  cases hload : (Catalog.load t (env.root invocation.root)).result with
  | error cause => rw [execute_of_load_error hload]
  | ok c =>
    rw [execute_of_noCache hload hcache]
    rfl

end Stages

/-- **A run is all or nothing, stage by stage.** Whatever fails, nothing is written to the output. A
load that fails leaves the tree as it is, and so does a run without an export. An export that fails,
because a source path is not text or the file system refuses, makes directories on its way at most
and is not reported; one that succeeds leaves the whole catalog in the file, also when the command
then finds nothing. -/
theorem execute_all_or_nothing (invocation : Invocation) (env : Environment) (cache : Path)
    (generatedAt : Text) (t : FileTree) :
    let loaded := Catalog.load t (env.root invocation.root)
    let run := execute invocation env cache generatedAt t
    (∀ e, run.result = .error e → run.output = []) ∧
    (∀ e, loaded.result = .error e → run.result = .error e ∧ run.tree = t) ∧
    (invocation.noCache = true → run.tree = t) ∧
    ∀ c, loaded.result = .ok c → invocation.noCache = false →
      let saved := c.save generatedAt cache t
      (¬ c.Exportable → ∃ e, saved.result = .error e) ∧
      (∀ e, saved.result = .error e →
        run.result = .error e ∧ (e = .sourceNotText ∧ ¬ c.Exportable ∨ ∃ cause, e = .io cause) ∧
        FileTree.GainsDirectories cache.directories t run.tree ∧
        ∀ path count, .saved path count ∉ run.events) ∧
      (saved.result = .ok () →
        (∃ file, c.exportFile? generatedAt = some file ∧ Catalog.ofExport? file = some c ∧
          run.tree.read cache = .ok (Utf8.encode file)) ∧
        (run.output, run.result) = c.perform invocation.group invocation.command [] ∧
        ∀ e, run.result = .error e → e = .groupNotFound invocation.group ∨
          ∃ name, e = .snippetNotFound invocation.group name) := by
  intro loaded run
  refine ⟨fun e h => output_of_result_error h, fun e hload => ?_, tree_of_noCache,
    fun c hload hcache => ?_⟩
  · rw [show run = _ from execute_of_load_error hload]
    exact ⟨rfl, rfl⟩
  intro saved
  refine ⟨fun hexport => ?_, fun e hsave => ?_, fun hsave => ?_⟩
  · cases hsave : saved.result with
    | error e => exact ⟨e, rfl⟩
    | ok _ =>
      obtain ⟨file, hfile, -⟩ := Catalog.save_ok hsave
      have hnone : c.exportFile? generatedAt = none := Catalog.exportFile?_eq_none_iff.mpr hexport
      exact absurd (hnone.symm.trans hfile) (by simp)
  · obtain ⟨hgains, hevents, hcause⟩ := Catalog.save_error hsave
    rw [show run = _ from execute_of_save_error hload hcache hsave]
    refine ⟨rfl, ?_, hgains, fun path count => ?_⟩
    · rcases hcause with hio | ⟨hsource, hnone⟩
      · exact .inr hio
      · exact .inl ⟨hsource, Catalog.exportFile?_eq_none_iff.mp hnone⟩
    · rw [hevents, List.append_nil, List.mem_cons]
      rintro (heq | hmem)
      · exact absurd heq (by simp)
      · exact Catalog.saved_notMem_events_load t _ path count hmem
  · obtain ⟨file, hfile, hread⟩ := Catalog.save_ok hsave
    rw [show run = _ from execute_of_save_ok hload hcache hsave]
    exact ⟨⟨file, hfile, Catalog.ofExport?_of_exportFile? hfile, hread⟩, rfl,
      fun e h => (Catalog.perform_error h).2⟩

/-- A working directory with two directories of one snippet file each; the name of the second is
not text. -/
def twoRoots : FileTree where
  top := [(Path.ofText ['w'], .dir
    [(Path.ofText ['s'],
        .dir [(Path.ofText "x.snip".toList, .file (Utf8.encode "snippet a\n  x\n".toList))]),
      ([255], .dir [(Path.ofText "x.snip".toList, .file (Utf8.encode "snippet a\n  x\n".toList))])])]
  workingDir := [Path.ofText ['w']]

/-- Runs that ask for a group that does not exist. Under the first root the export is written
nevertheless, in a directory made for it. Under the second there is no export, as its source is not
text. Nothing is written to the output by either. -/
theorem execute_all_or_nothing_missing_group :
    let cache := Path.ofText "d/f".toList
    let run (root : Path) := execute
      { root := some root, group := ['y'], noCache := false, command := .listSnippets }
      { home := none, snippetsRoot := none } cache [] twoRoots
    let found := run (Path.ofText ['s'])
    let failed := run [255]
    (found.result = .error (.groupNotFound ['y']) ∧ found.output = [] ∧
      ∃ c file, (Catalog.load twoRoots (Path.ofText ['s'])).result = .ok c ∧
        c.exportFile? [] = some file ∧ Catalog.ofExport? file = some c ∧
        found.tree.read cache = .ok (Utf8.encode file)) ∧
    failed.result = .error .sourceNotText ∧ failed.output = [] ∧
      FileTree.GainsDirectories cache.directories twoRoots failed.tree := by
  intro cache run found failed
  have hrun (root : Path) := execute_all_or_nothing
    { root := some root, group := ['y'], noCache := false, command := .listSnippets }
    { home := none, snippetsRoot := none } cache [] twoRoots
  refine ⟨?_, ?_⟩
  · have hresult : found.result = .error (.groupNotFound ['y']) := rfl
    obtain ⟨hempty, -, -, hstages⟩ := hrun (Path.ofText ['s'])
    obtain ⟨file, hfile, hback, hread⟩ := ((hstages _ rfl rfl).2.2 rfl).1
    exact ⟨hresult, hempty _ hresult, _, file, rfl, hfile, hback, hread⟩
  · have hresult : failed.result = .error .sourceNotText := rfl
    obtain ⟨hempty, -, -, hstages⟩ := hrun [255]
    obtain ⟨-, -, hgains, -⟩ := (hstages _ rfl rfl).2.1 .sourceNotText rfl
    exact ⟨hresult, hempty _ hresult, hgains⟩

end Snippets
