/-
# Snippets.Proofs.Rerun — a run does not read its own export

A run writes its export wherever its path leads, also into the tree that it loads from. Under a path
that names no group, and in a tree without links, the export is no snippet file and takes the place
of none, so the tree left behind holds the same catalog (`load_of_spares`). The directory of the
export is there and its file can be written over (`save_again`), so a second run repeats the first.
-/
import Snippets.Proofs.Catalog.Reload
import Snippets.Proofs.Run

namespace Snippets

open Catalog (load padded)

variable {invocation : Invocation} {env : Environment} {cache : Path} {generatedAt : Text}
  {t : FileTree} {c : Catalog}

/-- The text of an export with its time and its groups. -/
def exportText (generatedAt : Text) (groups : Json) : Text :=
  Json.pretty (.object
    [("generated_at".toList, .string generatedAt), ("groups".toList, groups)])

/-- What a save leaves in its file, the time told apart from the groups. -/
theorem read_of_save {groups : Json} (hgroups : c.toJson? = some groups)
    (h : (c.save generatedAt cache t).result = .ok ()) :
    (c.save generatedAt cache t).tree.read cache =
      .ok (Utf8.encode (exportText generatedAt groups)) := by
  obtain ⟨text, htext, hread⟩ := Catalog.save_ok h
  rw [Catalog.exportFile?, hgroups] at htext
  obtain rfl : exportText generatedAt groups = text := Option.some.inj htext
  exact hread

/-! ## The tree after a run -/

/-- After a load that succeeds, the tree of a run with an export is that of the save, also when that
fails. -/
theorem tree_of_export
    (hload : (load t (env.root invocation.root)).result = .ok c)
    (hcache : invocation.noCache = false) :
    (execute invocation env cache generatedAt t).tree = (c.save generatedAt cache t).tree := by
  cases hsave : (c.save generatedAt cache t).result with
  | error e => rw [execute_of_save_error hload hcache hsave]
  | ok _ =>
    rw [execute_of_save_ok hload hcache hsave]
    rfl

theorem tree_execute (hload : (load t (env.root invocation.root)).result = .ok c) :
    (execute invocation env cache generatedAt t).tree = t ∨
      (execute invocation env cache generatedAt t).tree = (c.save generatedAt cache t).tree := by
  cases hcache : invocation.noCache with
  | true => exact .inl (tree_of_noCache hcache)
  | false => exact .inr (tree_of_export hload hcache)

theorem wellFormed_execute (ht : t.WellFormed) (hlinks : t.Linkless)
    (hload : (load t (env.root invocation.root)).result = .ok c) :
    (execute invocation env cache generatedAt t).tree.WellFormed := by
  rcases tree_execute hload with htree | htree
  · rw [htree]
    exact ht
  · rw [htree]
    exact Catalog.wellFormed_save ht hlinks

theorem spares_execute (hlinks : t.Linkless) (hname : groupName? cache = none)
    (hload : (load t (env.root invocation.root)).result = .ok c) :
    t.Spares (execute invocation env cache generatedAt t).tree := by
  rcases tree_execute hload with htree | htree
  · rw [htree]
    exact .refl t
  · rw [htree]
    exact Catalog.spares_save hlinks hname

/-- **A run does not read its own export.** The tree that it leaves behind holds the catalog that it
has loaded, unless it has made a directory that cannot be opened, because the path below the root is
too long. As long as it can be loaded, a second run gives the same output and the same result, and
writes the same export but for the time. -/
theorem execute_export_spares_catalog (generatedAt : Text) (ht : t.WellFormed)
    (hlinks : t.Linkless) (hname : groupName? cache = none)
    (hload : (load t (env.root invocation.root)).result = .ok c) :
    let root := env.root invocation.root
    let run := execute invocation env cache generatedAt t
    ((load run.tree root).result = .ok c ∨ ∃ names, t.nodeAt? root names = none ∧
      (∃ d, run.tree.nodeAt? root names = some (.dir d)) ∧
      FileTree.pathLimit < (root.joinAll names).length ∧
      (load run.tree root).result = .error (.walk (root.joinAll names) (.os .nameTooLong))) ∧
    ∀ later, invocation.noCache = false → (c.save generatedAt cache t).result = .ok () →
      (load run.tree root).result = .ok c →
      let again := execute invocation env cache later run.tree
      again.output = run.output ∧ again.result = run.result ∧
      ∃ groups, c.toJson? = some groups ∧
        run.tree.read cache = .ok (Utf8.encode (exportText generatedAt groups)) ∧
        again.tree.read cache = .ok (Utf8.encode (exportText later groups)) := by
  intro root run
  constructor
  · exact Catalog.load_of_spares ht (wellFormed_execute ht hlinks hload) hlinks
      (spares_execute hlinks hname hload) hload
  · intro later hcache hsave hreload again
    have hrun : run = _ := execute_of_save_ok hload hcache hsave
    have hsaveAgain : (c.save later cache run.tree).result = .ok () := by
      rw [hrun]
      exact Catalog.save_again hsave later
    have hagain : again = _ := execute_of_save_ok hreload hcache hsaveAgain
    obtain ⟨text, htext, -⟩ := Catalog.save_ok hsave
    obtain ⟨groups, hgroups, -⟩ := Option.map_eq_some_iff.mp htext
    refine ⟨?_, ?_, groups, hgroups, ?_, ?_⟩
    · rw [hagain, hrun]
      rfl
    · rw [hagain, hrun]
      rfl
    · rw [hrun]
      exact read_of_save hgroups hsave
    · rw [hagain]
      exact read_of_save hgroups hsaveAgain

/-- A working directory `w` below the top, with a directory `s`. -/
def belowTop (entries : Directory) : FileTree where
  top := [(Path.ofText ['w'], .dir [(Path.ofText ['s'], .dir entries)])]
  workingDir := [Path.ofText ['w']]

/-- One snippet file in `s`. -/
def oneEntry : Directory :=
  [(Path.ofText "x.snip".toList, .file (Utf8.encode "snippet a\n  x\n".toList))]

/-- The catalog of the directory with one snippet file. -/
def oneGroup : Catalog where
  entries := [(['x'],
    { source := Path.ofText "s/x.snip".toList
      snippets := [{ Snippet.named ['a'] with body := ["  x".toList], minIndent := some 2 }] })]
  sorted := List.pairwise_singleton _ _

theorem wellFormed_belowTop_oneEntry : (belowTop oneEntry).WellFormed := by
  unfold FileTree.WellFormed belowTop oneEntry
  refine .dir (by decide) (by decide) ?_
  rw [List.forall_mem_singleton]
  refine .dir (by decide) (by decide) ?_
  rw [List.forall_mem_singleton]
  exact .dir (by decide) (by decide) (by simp [Node.WellFormed.file])

theorem linkless_belowTop_oneEntry : (belowTop oneEntry).Linkless := by
  apply FileTree.linkless_of_top
  unfold belowTop oneEntry
  refine Node.linkless_dir (List.forall_mem_singleton.mpr ?_)
  refine Node.linkless_dir (List.forall_mem_singleton.mpr ?_)
  exact Node.linkless_dir (List.forall_mem_singleton.mpr (Node.linkless_file _))

/-- An export by an absolute path into the directory that a relative path loads, below a new
directory: the catalog is loaded again, and a second run gives the same output. -/
theorem execute_export_spares_catalog_below_root :
    let t := belowTop oneEntry
    let invocation : Invocation :=
      { root := some (Path.ofText ['s']), group := ['x'], noCache := false, command := .listSnippets }
    let env : Environment := { home := none, snippetsRoot := none }
    let cache := Path.ofText "/w/s/d/groups.json".toList
    let run := execute invocation env cache ['1'] t
    let again := execute invocation env cache ['2'] run.tree
    t.WellFormed ∧ t.Linkless ∧ groupName? cache = none ∧
      (load t (Path.ofText ['s'])).result = .ok oneGroup ∧
      (load run.tree (Path.ofText ['s'])).result = .ok oneGroup ∧ again.output = run.output ∧
      ∃ groups, again.tree.read cache = .ok (Utf8.encode (exportText ['2'] groups)) := by
  intro t invocation env cache run again
  have ht : t.WellFormed := wellFormed_belowTop_oneEntry
  have hlinks : t.Linkless := linkless_belowTop_oneEntry
  have hname : groupName? cache = none := rfl
  have hload : (load t (env.root invocation.root)).result = .ok oneGroup := rfl
  obtain ⟨content, hsaved⟩ : ∃ content, oneGroup.save ['1'] cache t =
      { tree := belowTop (oneEntry ++
          [(Path.ofText ['d'], .dir [(Path.ofText "groups.json".toList, .file content)])])
        events := [.saved cache 1]
        result := .ok () } := ⟨_, rfl⟩
  have hsave : (oneGroup.save ['1'] cache t).result = .ok () := by rw [hsaved]
  have hreload : (load run.tree (env.root invocation.root)).result = .ok oneGroup := by
    rw [tree_of_export hload rfl, hsaved]
    rfl
  obtain ⟨-, hagain⟩ := execute_export_spares_catalog ['1'] ht hlinks hname hload
  obtain ⟨houtput, -, groups, -, -, hread⟩ := hagain ['2'] rfl hsave hreload
  exact ⟨ht, hlinks, hname, hload, hreload, houtput, groups, hread⟩

/-! ## A new directory that cannot be opened -/

/-- A tree with one empty directory. -/
def emptyDirectory : FileTree where
  top := [(Path.ofText ['s'], .dir [])]
  workingDir := []

theorem wellFormed_emptyDirectory : emptyDirectory.WellFormed := by
  unfold FileTree.WellFormed emptyDirectory
  refine .dir (by decide) (by decide) ?_
  rw [List.forall_mem_singleton]
  exact .dir List.nodup_nil (by simp) (by simp)

theorem linkless_emptyDirectory : emptyDirectory.Linkless := by
  apply FileTree.linkless_of_top
  unfold emptyDirectory
  exact Node.linkless_dir (List.forall_mem_singleton.mpr (Node.linkless_dir (by simp)))

theorem load_emptyDirectory : (load emptyDirectory (padded 4094)).result = .ok .empty := by
  have hroot : emptyDirectory.stat (padded 4094) = .ok (.dir []) := Catalog.stat_padded (by decide)
  have hnone : (Catalog.pathStops (padded 4094) (.dir [])).findSome?
      (Catalog.stopFailure? emptyDirectory) = none := by
    show [(Stop.directory, padded 4094)].findSome? _ = none
    rw [List.findSome?_singleton, Catalog.stopFailure?, FileTree.checkPath_of_stat hroot]
  rw [Catalog.result_load hroot, hnone]
  rfl

/-- Without the limit on paths, a load after a run is another: below a root of the greatest length the
directory made for the export cannot be opened. -/
theorem execute_export_padded_root :
    let invocation : Invocation :=
      { root := some (padded 4094), group := [], noCache := false, command := .listGroups }
    let env : Environment := { home := none, snippetsRoot := none }
    let cache := Path.ofText "s/d/groups.json".toList
    let root := env.root invocation.root
    let run := execute invocation env cache [] emptyDirectory
    emptyDirectory.WellFormed ∧ emptyDirectory.Linkless ∧ groupName? cache = none ∧
      (load emptyDirectory root).result = .ok .empty ∧ (load run.tree root).result ≠ .ok .empty := by
  intro invocation env cache root run
  have hload : (load emptyDirectory root).result = .ok .empty := load_emptyDirectory
  have hrun : run.tree = (Catalog.empty.save [] cache emptyDirectory).tree :=
    tree_of_export hload rfl
  obtain ⟨entries, htree⟩ : ∃ entries, (Catalog.empty.save [] cache emptyDirectory).tree =
      { top := [(Path.ofText ['s'], .dir [(Path.ofText ['d'], .dir entries)])]
        workingDir := [] } := ⟨_, rfl⟩
  refine ⟨wellFormed_emptyDirectory, linkless_emptyDirectory, rfl, hload, ?_⟩
  intro hreload
  have hwell : run.tree.WellFormed := by
    rw [hrun]
    exact Catalog.wellFormed_save wellFormed_emptyDirectory linkless_emptyDirectory
  have hentry : run.tree.nodeAt? (padded 4094) [Path.ofText ['d']] = some (.dir entries) := by
    rw [hrun, htree, FileTree.nodeAt?, Catalog.stat_padded (by decide)]
    rfl
  have hlength : FileTree.pathLimit < (Path.joinAll (padded 4094) [Path.ofText ['d']]).length :=
    Catalog.pathLimit_lt_length_padded (by decide)
  exact Catalog.not_blocks_of_result_load hwell hreload (.directory hentry hlength)

end Snippets
