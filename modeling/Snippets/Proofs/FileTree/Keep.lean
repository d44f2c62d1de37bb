/-
# Snippets.Proofs.FileTree.Keep — paths in a tree that has grown

A path that can be followed ends at a directory, at a file in a directory, or at a free name of one
(`lands_of_follow`); it never ends at a link. A tree keeps another when everything of that one is
still in place, files perhaps with another content. A path that could be followed in the tree kept
leads to the same location (`resolve_of_keeps`): new entries do not get in its way, because each of
its steps was there before, and at a free name at its end nothing but a file is written. So where a
path leads to (`LeadsTo`) stays the same, and what stands there is still of its kind.
-/
import Snippets.Proofs.FileTree.Change

namespace Snippets.FileTree

variable {t t' : FileTree} {here : List Name} {manner : Manner} {arrival : Arrival}

/-! ## Where a path ends -/

/-- The ends of the paths of a tree. -/
inductive Lands (t : FileTree) : Arrival → Prop
  /-- At a directory. -/
  | dir {location : List Name} {d : Directory} (h : t.get? location = some (.dir d)) :
      Lands t { location, node? := some (.dir d) }
  /-- At a file of a directory. -/
  | file {above : List Name} {name : Name} {d : Directory} {content : Bytes}
      (habove : t.get? above = some (.dir d)) (h : t.get? (above ++ [name]) = some (.file content)) :
      Lands t { location := above ++ [name], node? := some (.file content) }
  /-- At a free name of a directory. -/
  | free {above : List Name} {name : Name} {d : Directory} (habove : t.get? above = some (.dir d))
      (h : t.get? (above ++ [name]) = none) :
      Lands t { location := above ++ [name], node? := none }

/-- Above a directory there is a directory; the top is its own. -/
theorem get?_dropLast {d : Directory} (h : t.get? here = some (.dir d)) :
    ∃ d, t.get? here.dropLast = some (.dir d) := by
  rcases List.eq_nil_or_concat' here with rfl | ⟨above, name, rfl⟩
  · exact ⟨t.top, rfl⟩
  · rw [List.dropLast_concat]
    exact get?_of_get?_concat h

theorem Follows.lands {links : Nat} {steps : List Name}
    (h : Follows t links manner here steps arrival) (hhere : ∃ d, t.get? here = some (.dir d)) :
    t.Lands arrival := by
  induction h with
  | done =>
    obtain ⟨d, hd⟩ := hhere
    rw [hd]
    exact .dir hd
  | stay _ ih => exact ih hhere
  | up _ ih =>
    obtain ⟨d, hd⟩ := hhere
    exact ih (get?_dropLast hd)
  | dir _ _ hdir _ ih => exact ih ⟨_, hdir⟩
  | link _ _ _ _ _ ih =>
    apply ih
    split
    · exact ⟨t.top, rfl⟩
    · exact hhere
  | file _ _ hfile =>
    obtain ⟨d, hd⟩ := hhere
    exact .file hd hfile
  | free _ _ hfree =>
    obtain ⟨d, hd⟩ := hhere
    exact .free hd hfree

theorem lands_of_follow {p : Path} {steps : List Name}
    (h : t.follow manner p steps = .ok arrival) : t.Lands arrival := by
  obtain ⟨here, hhere, hfollows⟩ := follow_eq_ok_iff.mp h
  exact hfollows.lands (exists_dir_of_start? hhere)

/-! ## Trees that keep another -/

/-- Everything of the first tree is still in place in the second: directories and links as they
were, and files, perhaps with another content. The working directory is the same. -/
structure Keeps (t t' : FileTree) : Prop where
  /-- Relative paths start where they did. -/
  workingDir : t'.workingDir = t.workingDir
  /-- Directories stay. -/
  dir : ∀ {loc d}, t.get? loc = some (.dir d) → ∃ d, t'.get? loc = some (.dir d)
  /-- Links stay, with their target. -/
  link : ∀ {loc target}, t.get? loc = some (.link target) → t'.get? loc = some (.link target)
  /-- Files stay. -/
  file : ∀ {loc content}, t.get? loc = some (.file content) →
    ∃ content, t'.get? loc = some (.file content)

/-- A tree keeps another when files are files still, and everything else is as it was. -/
theorem Keeps.of_kinds (hwork : t'.workingDir = t.workingDir)
    (hother : ∀ {loc kind}, t.kind? loc = some kind → (∀ old, kind ≠ .file old) →
      t'.kind? loc = some kind)
    (hfile : ∀ {loc old}, t.kind? loc = some (.file old) →
      ∃ content, t'.kind? loc = some (.file content)) : t.Keeps t' where
  workingDir := hwork
  dir hd := kind?_eq_dir_iff.mp (hother (kind?_eq_dir_iff.mpr ⟨_, hd⟩) (by simp))
  link hlink := kind?_eq_link_iff.mp (hother (kind?_eq_link_iff.mpr hlink) (by simp))
  file hold := by
    obtain ⟨content, hcontent⟩ := hfile (kind?_eq_file_iff.mpr hold)
    exact ⟨content, kind?_eq_file_iff.mp hcontent⟩

theorem Keeps.of_kind? (hwork : t'.workingDir = t.workingDir)
    (h : ∀ {loc kind}, t.kind? loc = some kind → t'.kind? loc = some kind) : t.Keeps t' :=
  .of_kinds hwork (fun hkind _ => h hkind) fun hold => ⟨_, h hold⟩

/-- A path that could be followed starts where it did. -/
theorem Keeps.start? (h : t.Keeps t') {p : Path} (hstart : t.start? p = some here) :
    t'.start? p = some here := by
  unfold FileTree.start? at hstart ⊢
  split
  · rename_i habsolute
    rwa [if_pos habsolute] at hstart
  · rename_i hrelative
    rw [if_neg hrelative] at hstart
    rw [h.workingDir]
    split at hstart
    · rename_i d hd
      obtain ⟨d', hd'⟩ := h.dir hd
      rw [hd']
      exact hstart
    · exact absurd hstart (by simp)

/-- Looking at what a manner leads to. -/
def Manner.looking (manner : Manner) : Manner := { manner with purpose := .inspect }

section Following

variable {node : Node}

/-- What can be followed for any purpose can be looked at. -/
theorem Follows.looking {links : Nat} {steps : List Name}
    (h : Follows t links manner here steps arrival) :
    Follows t links manner.looking here steps arrival := by
  have hlooks (manner : Manner) (rest : List Name) : manner.looking.Admits rest :=
    Manner.admits_of_inspect rfl rest
  induction h with
  | done => exact .done
  | stay _ ih => exact .stay ih
  | up _ ih => exact .up ih
  | dir hname _ hdir _ ih => exact .dir hname (hlooks _ _) hdir ih
  | link hname _ hlink htarget _ ih => exact .link hname (hlooks _ _) hlink htarget ih
  | file hname hslashed hfile => exact .file hname hslashed hfile
  | free hname _ hfree => exact .free hname (hlooks _ _) hfree

/-- An arrival is met again in a tree that keeps the first, with what stands there now; where nothing
stood, a file has been written. -/
theorem Follows.of_keeps {links : Nat} {steps : List Name}
    (h : Follows t links manner here steps arrival) (hkeeps : t.Keeps t')
    (hthere : t'.get? arrival.location = some node)
    (hfree : arrival.node? = none → manner.purpose = .write ∧ ∃ content, node = .file content) :
    Follows t' links manner here steps
      { location := arrival.location, node? := some node } := by
  induction h with
  | done =>
    rw [← hthere]
    exact .done
  | stay _ ih => exact .stay (ih hthere hfree)
  | up _ ih => exact .up (ih hthere hfree)
  | dir hname hadmits hdir _ ih =>
    obtain ⟨d, hd⟩ := hkeeps.dir hdir
    exact .dir hname hadmits hd (ih hthere hfree)
  | link hname hadmits hlink htarget _ ih =>
    exact .link hname hadmits (hkeeps.link hlink) htarget (ih hthere hfree)
  | file hname hslashed hfile =>
    obtain ⟨content, hcontent⟩ := hkeeps.file hfile
    obtain rfl := Option.some.inj (hcontent.symm.trans hthere)
    exact .file hname hslashed hcontent
  | @free _ manner _ _ hname hadmits _ =>
    obtain ⟨hwrite, content, rfl⟩ := hfree rfl
    -- a slash at the end rules out that a file is written
    have hslashed : manner.slashed = false := by
      obtain ⟨purpose, slashed⟩ := manner
      obtain rfl : purpose = .write := hwrite
      cases slashed
      · rfl
      · exact absurd ⟨rfl, rfl⟩ hadmits
    exact .file hname hslashed hthere

theorem follow_of_keeps (hkeeps : t.Keeps t') (hthere : t'.get? arrival.location = some node)
    (hfree : arrival.node? = none → manner.purpose = .write ∧ ∃ content, node = .file content)
    {p : Path} {steps : List Name} (h : t.follow manner p steps = .ok arrival) :
    t'.follow manner p steps = .ok { location := arrival.location, node? := some node } := by
  obtain ⟨here, hhere, hfollows⟩ := follow_eq_ok_iff.mp h
  exact follow_eq_ok_iff.mpr
    ⟨here, hkeeps.start? hhere, hfollows.of_keeps hkeeps hthere hfree⟩

/-- A path that could be followed leads to the same location in a tree that keeps the first. -/
theorem resolve_of_keeps (hkeeps : t.Keeps t') {purpose : Purpose} {p : Path}
    (hthere : t'.get? arrival.location = some node)
    (hfree : arrival.node? = none → purpose = .write ∧ ∃ content, node = .file content)
    (h : t.resolve purpose p = .ok arrival) :
    t'.resolve purpose p = .ok { location := arrival.location, node? := some node } := by
  obtain ⟨hcheck, hfollow⟩ := resolve_eq_ok_iff.mp h
  exact resolve_eq_ok_iff.mpr ⟨hcheck, follow_of_keeps hkeeps hthere hfree hfollow⟩

/-- A path that leads somewhere for any purpose leads there when it is looked at. -/
theorem resolve_inspect {purpose : Purpose} {p : Path} (h : t.resolve purpose p = .ok arrival) :
    t.resolve .inspect p = .ok arrival := by
  obtain ⟨hcheck, hfollow⟩ := resolve_eq_ok_iff.mp h
  obtain ⟨here, hhere, hfollows⟩ := follow_eq_ok_iff.mp hfollow
  have hlook : t.follow (Manner.looking { purpose, slashed := p.endsWithSlash }) p p.steps =
      .ok arrival :=
    follow_eq_ok_iff.mpr ⟨here, hhere, hfollows.looking⟩
  exact resolve_eq_ok_iff.mpr ⟨hcheck, hlook⟩

end Following

/-! ## Where a path leads -/

/-- A path leads to what stands at a location. -/
def LeadsTo (t : FileTree) (p : Path) (loc : List Name) : Prop :=
  ∃ node, t.resolve .inspect p = .ok { location := loc, node? := some node }

namespace LeadsTo

variable {p : Path} {loc : List Name}

theorem of_stat {node : Node} (h : t.stat p = .ok node) : ∃ loc, t.LeadsTo p loc := by
  obtain ⟨loc, hresolve⟩ := stat_eq_ok_iff.mp h
  exact ⟨loc, node, hresolve⟩

theorem exists_node (h : t.LeadsTo p loc) :
    ∃ node, t.stat p = .ok node ∧ t.get? loc = some node := by
  obtain ⟨node, hresolve⟩ := h
  exact ⟨node, stat_eq_ok_iff.mpr ⟨loc, hresolve⟩, get?_of_follow (resolve_eq_ok_iff.mp hresolve).2⟩

/-- A path leads to the same location in a tree that keeps the first. -/
theorem of_keeps (h : t.LeadsTo p loc) (hkeeps : t.Keeps t') : t'.LeadsTo p loc := by
  obtain ⟨node, hresolve⟩ := h
  have hlands : t.Lands { location := loc, node? := some node } :=
    lands_of_follow (resolve_eq_ok_iff.mp hresolve).2
  obtain ⟨node', hthere⟩ : ∃ node', t'.get? loc = some node' := by
    cases hlands with
    | dir hdir =>
      obtain ⟨d, hd⟩ := hkeeps.dir hdir
      exact ⟨_, hd⟩
    | file _ hfile =>
      obtain ⟨content, hcontent⟩ := hkeeps.file hfile
      exact ⟨_, hcontent⟩
  exact ⟨node', resolve_of_keeps hkeeps hthere (by simp) hresolve⟩

end LeadsTo

end Snippets.FileTree
