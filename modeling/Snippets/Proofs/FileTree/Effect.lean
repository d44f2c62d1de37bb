/-
# Snippets.Proofs.FileTree.Effect — what writing a file and making directories do

Writing a file changes what stands at one location and nothing else, and the file is read back with
its new content, under the path it was written to (`exists_of_writeFile`, `read_of_writeFile`).

Making a directory with the directories above it only adds directories, whether it succeeds or stops
half way, and each of them is one that a path tried leads to (`gainsDirectories_makeDirs`). When it
succeeds, the directory is there (`reaches_of_makeDirs`).
-/
import Snippets.FileTree.Operations
import Snippets.Proofs.FileTree.Keep

namespace Snippets.FileTree

variable {t t' t'' : FileTree} {p : Path} {paths more : List Path}

/-! ## Files -/

/-- A file is put under a name of a directory, where its path leads and no directory stands. -/
theorem exists_put_of_writeFile {content : Bytes} (h : t.writeFile p content = .ok t') :
    ∃ above name d node?, t.resolve .write p = .ok { location := above ++ [name], node? } ∧
      t.get? above = some (.dir d) ∧ t.get? (above ++ [name]) = node? ∧
      (node? = none ∨ ∃ old, node? = some (.file old)) ∧
      t' = t.put (above ++ [name]) (.file content) := by
  unfold writeFile at h
  cases hresolve : t.resolve .write p with
  | error e =>
    rw [hresolve] at h
    exact absurd h (by simp)
  | ok arrival =>
    rw [hresolve] at h
    cases lands_of_follow (resolve_eq_ok_iff.mp hresolve).2 with
    | dir hdir => exact absurd h (by simp)
    | file habove hfile =>
      exact ⟨_, _, _, _, rfl, habove, hfile, .inr ⟨_, rfl⟩, (Except.ok.inj h).symm⟩
    | free habove hnone => exact ⟨_, _, _, _, rfl, habove, hnone, .inl rfl, (Except.ok.inj h).symm⟩

/-- Writing a file is a change to the location where its path leads, and no directory stands there. -/
theorem exists_of_writeFile {content : Bytes} (h : t.writeFile p content = .ok t') :
    ∃ arrival, t.resolve .write p = .ok arrival ∧ t'.workingDir = t.workingDir ∧
      (t.kind? arrival.location = none ∨ ∃ old, t.kind? arrival.location = some (.file old)) ∧
      ∀ loc, t'.kind? loc =
        if loc = arrival.location then some (.file content) else t.kind? loc := by
  obtain ⟨above, name, d, node?, hresolve, habove, hthere, hfree, rfl⟩ := exists_put_of_writeFile h
  refine ⟨_, hresolve, rfl, ?_, ?_⟩
  · rcases hfree with rfl | ⟨old, rfl⟩
    · exact .inl (kind?_eq_none_iff.mpr hthere)
    · exact .inr ⟨old, kind?_eq_file_iff.mpr hthere⟩
  · intro loc
    refine kind?_put habove ?_ (by simp) loc
    rcases hfree with rfl | ⟨old, rfl⟩ <;> simp [hthere]

/-- A change to a file, or to a location where nothing stood, keeps the tree. -/
theorem keeps_of_kind? {location : List Name} {content : Bytes}
    (hwork : t'.workingDir = t.workingDir)
    (hfree : t.kind? location = none ∨ ∃ old, t.kind? location = some (.file old))
    (hkind : ∀ loc, t'.kind? loc = if loc = location then some (.file content) else t.kind? loc) :
    t.Keeps t' := by
  apply Keeps.of_kinds hwork
  · intro loc kind h hfile
    have hne : loc ≠ location := by
      rintro rfl
      rcases hfree with hnone | ⟨old, hold⟩
      · exact absurd (hnone.symm.trans h) (by simp)
      · exact hfile old (Option.some.inj (h.symm.trans hold))
    rw [hkind, if_neg hne, h]
  · intro loc old hold
    by_cases hloc : loc = location
    · exact ⟨content, by rw [hkind, if_pos hloc]⟩
    · exact ⟨old, by rw [hkind, if_neg hloc, hold]⟩

theorem keeps_of_writeFile {content : Bytes} (h : t.writeFile p content = .ok t') : t.Keeps t' := by
  obtain ⟨arrival, -, hwork, hfree, hkind⟩ := exists_of_writeFile h
  exact keeps_of_kind? hwork hfree hkind

/-- The path a file was written to leads to it. -/
theorem resolve_of_writeFile {content : Bytes} (h : t.writeFile p content = .ok t') :
    ∃ loc, t'.resolve .write p = .ok { location := loc, node? := some (.file content) } := by
  obtain ⟨arrival, hresolve, hwork, hfree, hkind⟩ := exists_of_writeFile h
  have hthere : t'.get? arrival.location = some (.file content) :=
    kind?_eq_file_iff.mp (by rw [hkind, if_pos rfl])
  exact ⟨_, resolve_of_keeps (keeps_of_kind? hwork hfree hkind) hthere
    (fun _ => ⟨rfl, content, rfl⟩) hresolve⟩

/-- **A file is read back as it was written**, also through links and where none was before. -/
theorem read_of_writeFile {content : Bytes} (h : t.writeFile p content = .ok t') :
    t'.read p = .ok content := by
  obtain ⟨loc, hresolve⟩ := resolve_of_writeFile h
  rw [read, stat_eq_ok_iff.mpr ⟨loc, resolve_inspect hresolve⟩]

/-- A file that was written can be written again. -/
theorem exists_writeFile_again {content : Bytes} (h : t.writeFile p content = .ok t')
    (later : Bytes) : ∃ t'', t'.writeFile p later = .ok t'' := by
  obtain ⟨loc, hresolve⟩ := resolve_of_writeFile h
  exact ⟨t'.put loc (.file later), by rw [writeFile, hresolve]⟩

/-! ## Directories -/

/-- A tree with more directories than another: everything that stood somewhere stands there still,
and what is new is a directory that one of the paths leads to. The working directory is the same. -/
structure GainsDirectories (paths : List Path) (t t' : FileTree) : Prop where
  /-- Relative paths start where they did. -/
  workingDir : t'.workingDir = t.workingDir
  /-- Files keep their content, links their target, and directories stay. -/
  kept : ∀ {loc kind}, t.kind? loc = some kind → t'.kind? loc = some kind
  /-- Where nothing stood there is a directory now, and a path leads to it. -/
  gained : ∀ {loc kind}, t.kind? loc = none → t'.kind? loc = some kind → kind = .dir ∧
    ∃ path ∈ paths, ∃ d, t'.resolve .inspect path = .ok { location := loc, node? := some (.dir d) }

namespace GainsDirectories

theorem refl (paths : List Path) (t : FileTree) : GainsDirectories paths t t where
  workingDir := rfl
  kept h := h
  gained hnone hsome := absurd (hnone.symm.trans hsome) (by simp)

theorem keeps (h : GainsDirectories paths t t') : t.Keeps t' :=
  .of_kind? h.workingDir h.kept

/-- A path that leads to a directory leads to it still. -/
theorem resolve_dir (h : GainsDirectories paths t t') {loc : List Name} {d : Directory}
    (hdir : t.resolve .inspect p = .ok { location := loc, node? := some (.dir d) }) :
    ∃ d, t'.resolve .inspect p = .ok { location := loc, node? := some (.dir d) } := by
  have hthere : t.get? loc = some (.dir d) := get?_of_follow (resolve_eq_ok_iff.mp hdir).2
  obtain ⟨d', hd'⟩ := h.keeps.dir hthere
  exact ⟨d', resolve_of_keeps h.keeps hd' (by simp) hdir⟩

theorem trans (h : GainsDirectories paths t t') (h' : GainsDirectories more t' t'') :
    GainsDirectories (paths ++ more) t t'' where
  workingDir := h'.workingDir.trans h.workingDir
  kept hkind := h'.kept (h.kept hkind)
  gained := by
    intro loc kind hnone hsome
    cases hmiddle : t'.kind? loc with
    | none =>
      obtain ⟨hdir, path, hmem, hlead⟩ := h'.gained hmiddle hsome
      exact ⟨hdir, path, List.mem_append_right _ hmem, hlead⟩
    | some _ =>
      obtain ⟨rfl, path, hmem, d, hlead⟩ := h.gained hnone hmiddle
      have hdir : kind = .dir := Option.some.inj (hsome.symm.trans (h'.kept hmiddle))
      exact ⟨hdir, path, List.mem_append_left _ hmem, h'.resolve_dir hlead⟩

theorem mono (h : GainsDirectories paths t t') (hsub : paths ⊆ more) :
    GainsDirectories more t t' where
  workingDir := h.workingDir
  kept := h.kept
  gained hnone hsome := by
    obtain ⟨hdir, path, hmem, hlead⟩ := h.gained hnone hsome
    exact ⟨hdir, path, hsub hmem, hlead⟩

end GainsDirectories

/-- A name is vacant in the directory that the steps before it lead to. -/
theorem exists_of_vacancy {loc : List Name} (h : t.vacancy p = .ok loc) :
    ∃ front name above d, checkPath p = .ok () ∧ p.steps = front ++ [name] ∧
      t.follow plainly p front = .ok { location := above, node? := some (.dir d) } ∧
      name.IsPlain ∧ loc = above ++ [name] ∧ t.get? loc = none := by
  unfold vacancy at h
  cases hcheck : checkPath p with
  | error e =>
    rw [hcheck] at h
    exact absurd h (by simp)
  | ok _ =>
    rw [hcheck] at h
    dsimp only at h
    split at h
    · exact absurd h (by simp)
    rename_i name hlast
    split at h
    · exact absurd h (by simp)
    rename_i arrival hfollow
    split at h
    · rename_i d hnode
      split at h
      · exact absurd h (by simp)
      rename_i hname
      split at h
      · exact absurd h (by simp)
      rename_i hlength
      split at h
      · exact absurd h (by simp)
      rename_i hfree
      obtain rfl := Except.ok.inj h
      obtain ⟨hhere, hup⟩ := not_or.mp hname
      obtain ⟨front, hsteps⟩ := List.getLast?_eq_some_iff.mp hlast
      rw [followAbove, hsteps, List.dropLast_concat] at hfollow
      obtain ⟨above, node?⟩ := arrival
      obtain rfl : node? = some (.dir d) := hnode
      exact ⟨front, name, above, d, rfl, hsteps, hfollow, ⟨hhere, hup, Nat.not_lt.mp hlength⟩, rfl,
        by simpa using hfree⟩
    · exact absurd h (by simp)
    · exact absurd h (by simp)

/-- A directory is made under a free name of the directory that the steps before it lead to. -/
theorem exists_put_of_makeDir (h : t.makeDir p = .ok t') :
    ∃ front name above d, checkPath p = .ok () ∧ p.steps = front ++ [name] ∧
      t.follow plainly p front = .ok { location := above, node? := some (.dir d) } ∧
      name.IsPlain ∧ t.get? (above ++ [name]) = none ∧ t' = t.put (above ++ [name]) (.dir []) := by
  unfold makeDir at h
  cases hvacancy : t.vacancy p with
  | error e =>
    rw [hvacancy] at h
    exact absurd h (by simp [Except.map])
  | ok loc =>
    rw [hvacancy] at h
    obtain ⟨front, name, above, d, hcheck, hsteps, hfollow, hname, rfl, hnone⟩ :=
      exists_of_vacancy hvacancy
    exact ⟨front, name, above, d, hcheck, hsteps, hfollow, hname, hnone, (Except.ok.inj h).symm⟩

/-- A change to a location where nothing stood leaves everything else in place. -/
theorem kind?_of_free {loc other : List Name} {new kind : Kind} (hfree : t.kind? loc = none)
    (hkind : ∀ other, t'.kind? other = if other = loc then some new else t.kind? other)
    (h : t.kind? other = some kind) : t'.kind? other = some kind := by
  have hne : other ≠ loc := by
    rintro rfl
    exact absurd (hfree.symm.trans h) (by simp)
  rw [hkind, if_neg hne, h]

/-- Making a directory is a change to a location where nothing stood, and its path leads there. -/
theorem exists_of_makeDir (h : t.makeDir p = .ok t') :
    ∃ loc d, t'.workingDir = t.workingDir ∧ t.kind? loc = none ∧
      (∀ other, t'.kind? other = if other = loc then some .dir else t.kind? other) ∧
      t'.resolve .inspect p = .ok { location := loc, node? := some (.dir d) } := by
  obtain ⟨front, name, above, d, hcheck, hsteps, hfollow, hname, hnone, rfl⟩ :=
    exists_put_of_makeDir h
  have habove : t.get? above = some (.dir d) := get?_of_follow hfollow
  have hfree : t.kind? (above ++ [name]) = none := kind?_eq_none_iff.mpr hnone
  have hkind (loc : List Name) : (t.put (above ++ [name]) (.dir [])).kind? loc =
      if loc = above ++ [name] then some .dir else t.kind? loc :=
    kind?_put habove (by simp [hnone]) (by simp) loc
  -- the steps before the name lead where they led, and the name is a directory now
  have hkeeps : t.Keeps (t.put (above ++ [name]) (.dir [])) :=
    .of_kind? rfl (kind?_of_free hfree hkind)
  obtain ⟨made, hmade⟩ := kind?_eq_dir_iff.mp ((hkind (above ++ [name])).trans (if_pos rfl))
  obtain ⟨d', hd'⟩ := hkeeps.dir habove
  have hfront := follow_of_keeps hkeeps hd' (by simp) hfollow
  refine ⟨_, made, rfl, hfree, hkind, resolve_eq_ok_iff.mpr ⟨hcheck, ?_⟩⟩
  rw [hsteps]
  exact follow_append rfl hfront rfl (by simp) fun links => follows_name links rfl hname hmade

theorem gainsDirectories_makeDir (h : t.makeDir p = .ok t') : GainsDirectories [p] t t' := by
  obtain ⟨loc, d, hwork, hfree, hkind, hresolve⟩ := exists_of_makeDir h
  constructor
  case workingDir => exact hwork
  case kept => exact kind?_of_free hfree hkind
  case gained =>
    intro other kind hnone hsome
    by_cases hloc : other = loc
    · subst hloc
      rw [hkind, if_pos rfl] at hsome
      exact ⟨(Option.some.inj hsome).symm, p, List.mem_singleton_self p, d, hresolve⟩
    · rw [hkind, if_neg hloc, hnone] at hsome
      exact absurd hsome (by simp)

/-- Making directories upwards, step by step, adds directories only, also when it stops. -/
theorem gainsDirectories_makeDirsUp (t : FileTree) (paths : List Path) :
    GainsDirectories paths t (t.makeDirsUp paths).1 := by
  induction paths with
  | nil => exact .refl [] t
  | cons p above ih =>
    rw [makeDirsUp]
    split
    · rename_i made hmade
      exact (gainsDirectories_makeDir hmade).mono (by simp)
    · -- something above is missing: the paths above are tried, and then this one again
      split
      · rename_i below e hbelow
        rw [hbelow] at ih
        exact ih.mono (by simp)
      · rename_i below hbelow
        rw [hbelow] at ih
        split
        · rename_i made hmade
          exact (ih.trans (gainsDirectories_makeDir hmade)).mono (by simp)
        · exact ih.mono (by simp)
    · exact .refl _ t

theorem gainsDirectories_makeDirs (t : FileTree) (p : Path) :
    GainsDirectories p.ancestors t (t.makeDirs p).1 :=
  gainsDirectories_makeDirsUp t p.ancestors

/-! ## Directories that are there afterwards -/

theorem reaches_iff : t.reaches p = true ↔ ∃ loc, t.LeadsTo p loc := by
  unfold reaches
  constructor
  · intro h
    split at h
    · exact LeadsTo.of_stat ‹_›
    · exact absurd h (by simp)
  · rintro ⟨loc, h⟩
    obtain ⟨node, hstat, -⟩ := h.exists_node
    rw [hstat]

/-- What a path reached is reached still. -/
theorem reaches_of_keeps (hkeeps : t.Keeps t') (h : t.reaches p = true) : t'.reaches p = true := by
  obtain ⟨loc, hleads⟩ := reaches_iff.mp h
  exact reaches_iff.mpr ⟨loc, hleads.of_keeps hkeeps⟩

theorem reaches_of_makeDir (h : t.makeDir p = .ok t') : t'.reaches p = true := by
  obtain ⟨loc, d, -, -, -, hresolve⟩ := exists_of_makeDir h
  exact reaches_iff.mpr ⟨loc, _, hresolve⟩

theorem reaches_of_acceptDir {e : IoError} (h : t.acceptDir p e = .ok ()) : t.reaches p = true := by
  unfold acceptDir isDir at h
  unfold reaches
  cases hstat : t.stat p with
  | ok node => rfl
  | error cause =>
    rw [hstat] at h
    exact absurd h (by simp)

/-- The first of the paths is reached when making directories upwards succeeds. -/
theorem reaches_of_makeDirsUp (h : t.makeDirsUp (p :: paths) = (t', .ok ())) :
    t'.reaches p = true := by
  rw [makeDirsUp] at h
  split at h
  · rename_i made hmade
    obtain ⟨rfl, -⟩ := Prod.mk.inj h
    exact reaches_of_makeDir hmade
  · split at h
    · exact absurd (Prod.mk.inj h).2 (by simp)
    · split at h
      · rename_i made hmade
        obtain ⟨rfl, -⟩ := Prod.mk.inj h
        exact reaches_of_makeDir hmade
      · obtain ⟨rfl, haccept⟩ := Prod.mk.inj h
        exact reaches_of_acceptDir haccept
  · obtain ⟨rfl, haccept⟩ := Prod.mk.inj h
    exact reaches_of_acceptDir haccept

theorem reaches_of_makeDirs (hne : p ≠ []) (h : t.makeDirs p = (t', .ok ())) :
    t'.reaches p = true := by
  obtain ⟨above, habove⟩ : ∃ above, p.ancestors = p :: above := by
    obtain ⟨b, rest, rfl⟩ := List.exists_cons_of_ne_nil hne
    exact ⟨_, rfl⟩
  rw [makeDirs, habove] at h
  exact reaches_of_makeDirsUp h

end Snippets.FileTree
