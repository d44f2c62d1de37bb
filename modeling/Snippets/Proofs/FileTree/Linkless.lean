/-
# Snippets.Proofs.FileTree.Linkless — trees without links

In a tree without links a path goes through its own steps only, so where it ends at a file or at a
free name, that name is its last step (`exists_last_of_resolve`). What is made under a path has a
name of that path, which is the name of an entry, and so a tree stays well formed when directories
are made in it and files are written.
-/
import Snippets.Proofs.FileTree.Effect

namespace Snippets

/-! ## A node put into a well-formed tree -/

section Putting

variable {d : Directory} {name : Name} {node : Node}

theorem mem_set {e : Name × Node} (h : e ∈ d.set name node) : e = (name, node) ∨ e ∈ d := by
  induction d with
  | nil => exact .inl (List.mem_singleton.mp h)
  | cons entry rest ih =>
    obtain ⟨key, old⟩ := entry
    unfold Directory.set at h
    split at h
    · rename_i hkey
      rcases List.mem_cons.mp h with rfl | h
      · exact .inl (by rw [hkey])
      · exact .inr (List.mem_cons_of_mem _ h)
    · rcases List.mem_cons.mp h with rfl | h
      · exact .inr List.mem_cons_self
      · exact (ih h).imp_right (List.mem_cons_of_mem _)

/-- Setting a name keeps the names of a directory distinct. -/
theorem nodup_set (name : Name) (node : Node) (distinct : (d.map Prod.fst).Nodup) :
    ((d.set name node).map Prod.fst).Nodup := by
  induction d with
  | nil => exact List.nodup_singleton name
  | cons entry rest ih =>
    obtain ⟨key, old⟩ := entry
    obtain ⟨hkey, hrest⟩ := List.nodup_cons.mp distinct
    unfold Directory.set
    split
    · exact distinct
    · rename_i hne
      refine List.nodup_cons.mpr ⟨?_, ih hrest⟩
      intro hmem
      obtain ⟨e, he, heq⟩ := List.mem_map.mp hmem
      rcases mem_set he with rfl | he
      · exact hne heq.symm
      · exact hkey (heq ▸ List.mem_map_of_mem he)

theorem Node.WellFormed.set (h : (Node.dir d).WellFormed) (hname : name.IsEntry)
    (hnode : node.WellFormed) : (Node.dir (d.set name node)).WellFormed := by
  cases h with
  | dir distinct names nodes =>
    refine .dir (nodup_set name node distinct) ?_ ?_
    · intro e he
      rcases mem_set he with rfl | he
      · exact hname
      · exact names e he
    · intro e he
      rcases mem_set he with rfl | he
      · exact hnode
      · exact nodes e he

/-- A directory stays well formed when a node is put under the name of an entry somewhere below. -/
theorem Node.WellFormed.put {above : List Name} {found : Directory} (h : (Node.dir d).WellFormed)
    (habove : d.get? above = some (.dir found)) (hname : name.IsEntry) (hnode : node.WellFormed) :
    (Node.dir (d.put (above ++ [name]) node)).WellFormed := by
  induction above generalizing d with
  | nil => exact h.set hname hnode
  | cons first above ih =>
    obtain ⟨inner, hlookup, hinner⟩ := Directory.lookup_of_get?_cons habove
    have hput : d.put (first :: above ++ [name]) node =
        d.set first (.dir (inner.put (above ++ [name]) node)) :=
      Directory.put_cons hlookup (by simp)
    rw [hput]
    cases h with
    | dir distinct names nodes =>
      have hmem := mem_of_lookup hlookup
      exact Node.WellFormed.set (.dir distinct names nodes) (names _ hmem) (ih (nodes _ hmem) hinner)

theorem FileTree.WellFormed.put {t : FileTree} {above : List Name} (ht : t.WellFormed)
    (habove : t.get? above = some (.dir d)) (hname : name.IsEntry) (hnode : node.WellFormed) :
    (t.put (above ++ [name]) node).WellFormed :=
  Node.WellFormed.put ht habove hname hnode

end Putting

namespace FileTree

variable {t t' : FileTree} {p : Path}

/-- The last step of a path is the name of an entry when it is looked up. -/
theorem isEntry_of_steps {front : List Name} {name : Name} (hcheck : checkPath p = .ok ())
    (hsteps : p.steps = front ++ [name]) (hname : name.IsPlain) : name.IsEntry := by
  have hmem : name ∈ p.steps := by
    rw [hsteps]
    simp
  obtain ⟨hne, hslash, hbytes⟩ := Path.of_mem_steps hmem
  obtain ⟨hzero, -, -⟩ := checkPath_eq_ok_iff.mp hcheck
  exact ⟨hne, hslash, fun h => hzero (hbytes 0 h), hname.ne_here, hname.ne_up, hname.length_le⟩

/-! ## Directories -/

theorem WellFormed.makeDir (ht : t.WellFormed) (h : t.makeDir p = .ok t') : t'.WellFormed := by
  obtain ⟨front, name, above, d, hcheck, hsteps, hfollow, hname, -, rfl⟩ := exists_put_of_makeDir h
  have hempty : (Node.dir []).WellFormed := .dir List.nodup_nil (by simp) (by simp)
  exact ht.put (get?_of_follow hfollow) (isEntry_of_steps hcheck hsteps hname) hempty

/-- Making directories upwards, step by step, keeps a tree well formed, also when it stops. -/
theorem WellFormed.makeDirsUp (ht : t.WellFormed) (paths : List Path) :
    (t.makeDirsUp paths).1.WellFormed := by
  induction paths with
  | nil => exact ht
  | cons p above ih =>
    rw [FileTree.makeDirsUp]
    split
    · rename_i made hmade
      exact ht.makeDir hmade
    · split
      · rename_i below e hbelow
        rw [hbelow] at ih
        exact ih
      · rename_i below hbelow
        rw [hbelow] at ih
        split
        · rename_i made hmade
          exact WellFormed.makeDir ih hmade
        · exact ih
    · exact ht

/-! ## Paths without links -/

/-- A tree in which no link stands. -/
def Linkless (t : FileTree) : Prop := ∀ loc target, t.get? loc ≠ some (.link target)

theorem Follows.exists_last (hlinks : t.Linkless) {links : Nat} {manner : Manner}
    {here steps : List Name} {arrival : Arrival} (h : Follows t links manner here steps arrival)
    (hhere : ∃ d, t.get? here = some (.dir d)) (hend : ∀ d, arrival.node? ≠ some (.dir d)) :
    ∃ front above name, steps = front ++ [name] ∧ arrival.location = above ++ [name] ∧
      name.IsPlain := by
  induction h with
  | done =>
    obtain ⟨d, hd⟩ := hhere
    exact absurd hd (hend d)
  | stay _ ih =>
    obtain ⟨front, above, name, rfl, hlocation, hname⟩ := ih hhere hend
    exact ⟨Path.here :: front, above, name, rfl, hlocation, hname⟩
  | up _ ih =>
    obtain ⟨d, hd⟩ := hhere
    obtain ⟨front, above, name, rfl, hlocation, hname⟩ := ih (get?_dropLast hd) hend
    exact ⟨Path.up :: front, above, name, rfl, hlocation, hname⟩
  | @dir _ _ _ _ _ first _ _ _ hdir _ ih =>
    obtain ⟨front, above, name, rfl, hlocation, hname⟩ := ih ⟨_, hdir⟩ hend
    exact ⟨first :: front, above, name, rfl, hlocation, hname⟩
  | link _ _ hlink => exact absurd hlink (hlinks _ _)
  | file hname => exact ⟨[], _, _, rfl, rfl, hname⟩
  | free hname => exact ⟨[], _, _, rfl, rfl, hname⟩

/-- In a tree without links, a path that does not end at a directory ends under its last step, which
is the file name. -/
theorem exists_last_of_resolve (hlinks : t.Linkless) {purpose : Purpose} {arrival : Arrival}
    (h : t.resolve purpose p = .ok arrival) (hend : ∀ d, arrival.node? ≠ some (.dir d)) :
    ∃ above name, arrival.location = above ++ [name] ∧ name.IsEntry ∧ p.fileName? = some name := by
  obtain ⟨hcheck, hfollow⟩ := resolve_eq_ok_iff.mp h
  obtain ⟨here, hhere, hfollows⟩ := follow_eq_ok_iff.mp hfollow
  obtain ⟨front, above, name, hsteps, hlocation, hname⟩ :=
    hfollows.exists_last hlinks (exists_dir_of_start? hhere) hend
  exact ⟨above, name, hlocation, isEntry_of_steps hcheck hsteps hname,
    Path.fileName?_of_steps hsteps hname.ne_here hname.ne_up⟩

/-- A tree without links stays well formed when a file is written in it. -/
theorem WellFormed.writeFile (ht : t.WellFormed) (hlinks : t.Linkless) {content : Bytes}
    (h : t.writeFile p content = .ok t') : t'.WellFormed := by
  obtain ⟨above, name, d, node?, hresolve, habove, -, hfree, rfl⟩ := exists_put_of_writeFile h
  have hend (d : Directory) : node? ≠ some (.dir d) := by
    rcases hfree with rfl | ⟨old, rfl⟩ <;> simp
  obtain ⟨above', name', hlocation, hname, -⟩ := exists_last_of_resolve hlinks hresolve hend
  obtain ⟨rfl, heq⟩ := List.append_inj' hlocation rfl
  obtain rfl := List.singleton_injective heq
  exact ht.put habove hname (.file content)

end FileTree

/-! ## Nodes without links -/

/-- A node at and below which no link stands. -/
def Node.Linkless (node : Node) : Prop := ∀ names target, node.below? names ≠ some (.link target)

theorem Node.linkless_file (content : Bytes) : (Node.file content).Linkless := by
  intro names target
  cases names <;> simp [below?]

/-- A directory has no links when its entries have none. -/
theorem Node.linkless_dir {entries : Directory} (h : ∀ e ∈ entries, e.2.Linkless) :
    (Node.dir entries).Linkless := by
  intro names target hlink
  cases names with
  | nil => exact absurd hlink (by simp)
  | cons name rest =>
    obtain ⟨node, hlookup, hbelow⟩ := Option.bind_eq_some_iff.mp hlink
    exact h _ (mem_of_lookup hlookup) rest target hbelow

theorem FileTree.linkless_of_top {t : FileTree} (h : (Node.dir t.top).Linkless) : t.Linkless := by
  intro loc target
  rw [get?_eq_below?]
  exact h loc target

end Snippets
