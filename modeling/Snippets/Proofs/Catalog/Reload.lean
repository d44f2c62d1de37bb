/-
# Snippets.Proofs.Catalog.Reload — an export changes nothing that a load finds

A change *spares* the snippet files when at each location it does one of three things: nothing, it
makes a directory where nothing stood, or it writes a file whose name is not that of a snippet file
(`Spares`). A save under such a name is a change of this kind in a tree without links, wherever its
path leads (`spares_save`). The snippet files below a root are then the same before and after, at the
same locations and with the same content, so a load finds the same catalog. The one thing in its way
is a new directory that cannot be opened, because its path below the root is too long
(`load_of_spares`).
-/
import Snippets.Proofs.Catalog.Load
import Snippets.Proofs.Catalog.Save
import Snippets.Proofs.FileTree.Linkless

namespace Snippets

/-- A location whose last name is that of a snippet file of a group. -/
def Location.NamesGroup (loc : List Name) (key : Text) : Prop :=
  ∃ name, loc.getLast? = some name ∧ name.NamesGroup key

namespace FileTree

variable {t t' t'' : FileTree} {root : Path} {loc names : List Name} {key : Text} {content : Bytes}
  {e : Failure}

/-! ## Changes that spare the snippet files -/

/-- What a change that spares the snippet files does at a location. -/
inductive Spared (t t' : FileTree) (loc : List Name) : Prop
  /-- What stood there stands there still. -/
  | kept (h : t'.kind? loc = t.kind? loc)
  /-- A directory was made where nothing stood. -/
  | made (hfree : t.kind? loc = none) (hdir : t'.kind? loc = some .dir)
  /-- A file was written that is no snippet file. -/
  | written {content : Bytes} (hfree : t.kind? loc = none ∨ ∃ old, t.kind? loc = some (.file old))
      (hfile : t'.kind? loc = some (.file content)) (hname : ∀ key, ¬ Location.NamesGroup loc key)

/-- A change that spares the snippet files. The working directory is the same. -/
structure Spares (t t' : FileTree) : Prop where
  /-- Relative paths start where they did. -/
  workingDir : t'.workingDir = t.workingDir
  /-- What is done at each location. -/
  spared : ∀ loc, Spared t t' loc

theorem Spares.refl (t : FileTree) : t.Spares t := ⟨rfl, fun _ => .kept rfl⟩

theorem Spares.trans (h : t.Spares t') (h' : t'.Spares t'') : t.Spares t'' := by
  refine ⟨h'.workingDir.trans h.workingDir, fun loc => ?_⟩
  cases h'.spared loc with
  | kept hkept =>
    cases h.spared loc with
    | kept hfirst => exact .kept (hkept.trans hfirst)
    | made hfree hdir => exact .made hfree (hkept.trans hdir)
    | written hfree hfile hname => exact .written hfree (hkept.trans hfile) hname
  | made hfree hdir =>
    cases h.spared loc with
    | kept hfirst => exact .made (hfirst.symm.trans hfree) hdir
    | made _ hother => exact absurd (hother.symm.trans hfree) (by simp)
    | written _ hother _ => exact absurd (hother.symm.trans hfree) (by simp)
  | written hfree hfile hname =>
    cases h.spared loc with
    | kept hfirst => exact .written (hfirst ▸ hfree) hfile hname
    | made _ hother => exact absurd (hother ▸ hfree) (by simp)
    | written hfirst _ _ => exact .written hfirst hfile hname

/-- Making directories spares the snippet files. -/
theorem GainsDirectories.spares {paths : List Path} (h : GainsDirectories paths t t') :
    t.Spares t' := by
  refine ⟨h.workingDir, fun loc => ?_⟩
  cases hbefore : t.kind? loc with
  | some kind => exact .kept ((h.kept hbefore).trans hbefore.symm)
  | none =>
    cases hafter : t'.kind? loc with
    | none => exact .kept (hafter.trans hbefore.symm)
    | some kind =>
      obtain ⟨rfl, -⟩ := h.gained hbefore hafter
      exact .made hbefore hafter

/-- Writing a file under a path that names no group spares the snippet files. -/
theorem spares_writeFile (hlinks : t.Linkless) {p : Path} (hname : groupName? p = none)
    (h : t.writeFile p content = .ok t') : t.Spares t' := by
  obtain ⟨arrival, hresolve, hwork, hfree, hkind⟩ := exists_of_writeFile h
  have hend (d : Directory) : arrival.node? ≠ some (.dir d) := by
    intro hdir
    rw [node?_of_follow (resolve_eq_ok_iff.mp hresolve).2] at hdir
    rw [kind?_eq_dir_iff.mpr ⟨d, hdir⟩] at hfree
    exact absurd hfree (by simp)
  obtain ⟨above, last, hlocation, -, hlast⟩ := exists_last_of_resolve hlinks hresolve hend
  refine ⟨hwork, fun loc => ?_⟩
  by_cases hloc : loc = arrival.location
  · subst hloc
    refine .written hfree ((hkind _).trans (if_pos rfl)) ?_
    rintro key ⟨name, hgetLast, hgroup⟩
    -- the last name of the location is the file name of the path
    rw [hlocation, List.getLast?_concat] at hgetLast
    obtain rfl := Option.some.inj hgetLast
    have hsome := groupName?_eq_some_iff.mpr ⟨last, hlast, hgroup⟩
    exact absurd (hname.symm.trans hsome) (by simp)
  · exact .kept ((hkind loc).trans (if_neg hloc))

namespace Spares

theorem linkless (h : t.Spares t') (hlinks : t.Linkless) : t'.Linkless := by
  intro loc target hlink
  have hkind := kind?_eq_link_iff.mpr hlink
  cases h.spared loc with
  | kept hkept => exact hlinks loc target (kind?_eq_link_iff.mp (hkept.symm.trans hkind))
  | made _ hdir => exact absurd (hdir.symm.trans hkind) (by simp)
  | written _ hfile _ => exact absurd (hfile.symm.trans hkind) (by simp)

theorem keeps (h : t.Spares t') : t.Keeps t' := by
  apply Keeps.of_kinds h.workingDir
  · intro loc kind hkind hfile
    cases h.spared loc with
    | kept hkept => exact hkept.trans hkind
    | made hfree _ => exact absurd (hfree.symm.trans hkind) (by simp)
    | written hfree _ _ =>
      -- a file was written, so a file stood there or nothing
      rcases hfree with hnone | ⟨old, hold⟩
      · exact absurd (hnone.symm.trans hkind) (by simp)
      · exact absurd (Option.some.inj (hkind.symm.trans hold)) (hfile old)
  · intro loc old hold
    cases h.spared loc with
    | kept hkept => exact ⟨old, hkept.trans hold⟩
    | made hfree _ => exact absurd (hfree.symm.trans hold) (by simp)
    | written _ hfile _ => exact ⟨_, hfile⟩

/-- A file with the name of a snippet file stands there after the change exactly when it stood there
before. -/
theorem kind?_eq_file_iff (h : t.Spares t') (hgroup : Location.NamesGroup loc key) :
    t'.kind? loc = some (.file content) ↔ t.kind? loc = some (.file content) := by
  cases h.spared loc with
  | kept hkept => rw [hkept]
  | made hfree hdir => simp [hfree, hdir]
  | written _ _ hname => exact absurd hgroup (hname key)

end Spares

/-! ## Snippet files by location -/

/-- What stands below a root stands below the location that the root leads to. -/
theorem LeadsTo.nodeAt?_eq (h : t.LeadsTo root loc) (names : List Name) :
    t.nodeAt? root names = t.get? (loc ++ names) := by
  obtain ⟨node, hstat, hthere⟩ := h.exists_node
  rw [nodeAt?, hstat, get?_append, hthere]
  rfl

theorem LeadsTo.entryContent?_eq_some_iff (h : t.LeadsTo root loc) (hlinks : t.Linkless) :
    t.entryContent? root names = some content ↔ t.kind? (loc ++ names) = some (.file content) := by
  rw [FileTree.kind?_eq_file_iff, entryContent?, h.nodeAt?_eq]
  cases hnode : t.get? (loc ++ names) with
  | none => simp
  | some node =>
    cases node with
    | file inner => simp
    | dir entries => simp
    | link target => exact absurd hnode (hlinks _ _)

/-- The name of a file below a root is the last name of its location, also when the root itself is
the file. -/
theorem LeadsTo.entryName?_eq (h : t.LeadsTo root loc) (hlinks : t.Linkless)
    (hfile : t.kind? (loc ++ names) = some (.file content)) :
    entryName? root names = (loc ++ names).getLast? := by
  rcases List.eq_nil_or_concat' names with rfl | ⟨init, last, rfl⟩
  · obtain ⟨node, hresolve⟩ := h
    have hnode : t.get? loc = some node := get?_of_follow (resolve_eq_ok_iff.mp hresolve).2
    rw [List.append_nil, FileTree.kind?_eq_file_iff, hnode] at hfile
    obtain rfl := Option.some.inj hfile
    obtain ⟨above, name, hlocation, -, hname⟩ := exists_last_of_resolve hlinks hresolve (by simp)
    obtain rfl : loc = above ++ [name] := hlocation
    rw [List.append_nil, List.getLast?_concat]
    exact hname
  · rw [entryName?, List.getLast?_concat, ← List.append_assoc, List.getLast?_concat]

/-- A snippet file below a root, told by what stands at its location. -/
theorem LeadsTo.isSnippetFile_iff (h : t.LeadsTo root loc) (hlinks : t.Linkless) :
    t.IsSnippetFile root names key content ↔ t.kind? (loc ++ names) = some (.file content) ∧
      Location.NamesGroup (loc ++ names) key ∧ (root.joinAll names).length ≤ pathLimit := by
  constructor
  · intro hsnippet
    have hfile := (h.entryContent?_eq_some_iff hlinks).mp hsnippet.content
    have hname := hsnippet.name
    rw [h.entryName?_eq hlinks hfile] at hname
    exact ⟨hfile, hname, hsnippet.length_le⟩
  · rintro ⟨hfile, hname, hlength⟩
    refine ⟨⟨(h.entryContent?_eq_some_iff hlinks).mpr hfile, ?_⟩, hlength⟩
    rw [h.entryName?_eq hlinks hfile]
    exact hname

section Sparing

variable (hspares : t.Spares t') (hlinks : t.Linkless) (hroot : t.LeadsTo root loc)

include hspares hlinks hroot

/-- A change that spares the snippet files leaves each in place. -/
theorem Spares.isSnippetFile_iff :
    t'.IsSnippetFile root names key content ↔ t.IsSnippetFile root names key content := by
  rw [hroot.isSnippetFile_iff hlinks,
    (hroot.of_keeps hspares.keeps).isSnippetFile_iff (hspares.linkless hlinks)]
  constructor
  · rintro ⟨hfile, hgroup, hlength⟩
    exact ⟨(hspares.kind?_eq_file_iff hgroup).mp hfile, hgroup, hlength⟩
  · rintro ⟨hfile, hgroup, hlength⟩
    exact ⟨(hspares.kind?_eq_file_iff hgroup).mpr hfile, hgroup, hlength⟩

/-- So the last snippet file of a group is the same. -/
theorem Spares.isLastFile_iff :
    t'.IsLastFile root names key content ↔ t.IsLastFile root names key content := by
  have hfile (names : List Name) (content : Bytes) :
      t'.IsSnippetFile root names key content ↔ t.IsSnippetFile root names key content :=
    hspares.isSnippetFile_iff hlinks hroot
  constructor
  · rintro ⟨h, hlast⟩
    exact ⟨(hfile _ _).mp h, fun other content hother => hlast _ _ ((hfile _ _).mpr hother)⟩
  · rintro ⟨h, hlast⟩
    exact ⟨(hfile _ _).mpr h, fun other content hother => hlast _ _ ((hfile _ _).mp hother)⟩

/-- An entry that a load fails at after the change was one before, or is a new directory with a path
that is too long. -/
theorem Spares.blocks (h : t'.Blocks root names e) :
    t.Blocks root names e ∨ t.nodeAt? root names = none ∧
      (∃ d, t'.nodeAt? root names = some (.dir d)) ∧ pathLimit < (root.joinAll names).length ∧
        e = .walk (root.joinAll names) (.os .nameTooLong) := by
  cases h with
  | file hfile hcontent =>
    exact .inl (.file ((hspares.isSnippetFile_iff hlinks hroot).mp hfile) hcontent)
  | @directory entries hdir hlength =>
    rw [hroot.nodeAt?_eq]
    have hafter : t'.kind? (loc ++ names) = some .dir := by
      rw [(hroot.of_keeps hspares.keeps).nodeAt?_eq] at hdir
      exact kind?_eq_dir_iff.mpr ⟨entries, hdir⟩
    cases hspares.spared (loc ++ names) with
    | kept hkept =>
      obtain ⟨d, hd⟩ := kind?_eq_dir_iff.mp (hkept.symm.trans hafter)
      exact .inl (.directory ((hroot.nodeAt?_eq names).trans hd) hlength)
    | made hfree _ => exact .inr ⟨kind?_eq_none_iff.mp hfree, ⟨entries, hdir⟩, hlength, rfl⟩
    | written _ hfile _ => exact absurd (hafter.symm.trans hfile) (by simp)

end Sparing

end FileTree

namespace Catalog

variable {t t' : FileTree} {root path : Path} {c : Catalog} {generatedAt : Text}

/-! ## Loads -/

/-- **A change that spares the snippet files changes nothing that a load finds.** The load after it
gives the same catalog, unless a new directory has a path that is too long. -/
theorem load_of_spares (ht : t.WellFormed) (ht' : t'.WellFormed) (hlinks : t.Linkless)
    (hspares : t.Spares t') (h : (load t root).result = .ok c) :
    (load t' root).result = .ok c ∨ ∃ names, t.nodeAt? root names = none ∧
      (∃ d, t'.nodeAt? root names = some (.dir d)) ∧
      FileTree.pathLimit < (root.joinAll names).length ∧
      (load t' root).result = .error (.walk (root.joinAll names) (.os .nameTooLong)) := by
  obtain ⟨top, hstat⟩ := exists_stat_of_result_load h
  obtain ⟨loc, hroot⟩ := FileTree.LeadsTo.of_stat hstat
  cases hafter : (load t' root).result with
  | ok c' =>
    left
    congr 1
    apply eq_of_find?_eq
    intro key
    apply Option.ext
    intro g
    rw [find?_eq_some_iff_isLastFile ht h, find?_eq_some_iff_isLastFile ht' hafter]
    simp only [hspares.isLastFile_iff hlinks hroot]
  | error e =>
    rcases (result_load_eq_error_iff ht').mp hafter with ⟨cause, hcause, -⟩ | ⟨names, hfirst⟩
    · -- the root leads where it led
      obtain ⟨node, hnode, -⟩ := (hroot.of_keeps hspares.keeps).exists_node
      exact absurd (hcause.symm.trans hnode) (by simp)
    · rcases hspares.blocks hlinks hroot hfirst.blocks with hblocks | ⟨hnone, hdir, hlength, rfl⟩
      · exact absurd hblocks (not_blocks_of_result_load ht h)
      · exact .inr ⟨names, hnone, hdir, hlength, rfl⟩

/-! ## Saves -/

/-- A save makes directories, and then it may write the file. -/
theorem tree_save (c : Catalog) (generatedAt : Text) (path : Path) (t : FileTree) :
    (c.save generatedAt path t).tree = (prepareDirectory t path).1 ∨
      ∃ content, (prepareDirectory t path).1.writeFile path content =
        .ok (c.save generatedAt path t).tree := by
  rcases save_cases c generatedAt path t with
    ⟨e, -, hsave⟩ | ⟨-, -, hsave⟩ | ⟨text, e, -, -, -, hsave⟩ | ⟨text, written, -, -, hwrite, hsave⟩
  · exact .inl (by rw [hsave])
  · exact .inl (by rw [hsave])
  · exact .inl (by rw [hsave])
  · exact .inr ⟨_, by rw [hsave, hwrite]⟩

theorem spares_prepareDirectory (t : FileTree) (path : Path) :
    t.Spares (prepareDirectory t path).1 :=
  (gainsDirectories_prepareDirectory t path).spares

theorem wellFormed_prepareDirectory (ht : t.WellFormed) (path : Path) :
    FileTree.WellFormed (prepareDirectory t path).1 := by
  unfold prepareDirectory
  cases path.parent? with
  | none => exact ht
  | some parent =>
    dsimp only
    split
    · exact ht
    · exact ht.makeDirsUp parent.ancestors

/-- A save under a path that names no group spares the snippet files, also when it fails. -/
theorem spares_save (hlinks : t.Linkless) (hname : groupName? path = none) :
    t.Spares (c.save generatedAt path t).tree := by
  have hprepared := spares_prepareDirectory t path
  rcases tree_save c generatedAt path t with htree | ⟨content, hwrite⟩
  · rw [htree]
    exact hprepared
  · exact hprepared.trans (FileTree.spares_writeFile (hprepared.linkless hlinks) hname hwrite)

theorem wellFormed_save (ht : t.WellFormed) (hlinks : t.Linkless) :
    (c.save generatedAt path t).tree.WellFormed := by
  have hprepared := wellFormed_prepareDirectory ht path
  rcases tree_save c generatedAt path t with htree | ⟨content, hwrite⟩
  · rw [htree]
    exact hprepared
  · exact hprepared.writeFile ((spares_prepareDirectory t path).linkless hlinks) hwrite

end Catalog

end Snippets
