/-
# Snippets.Proofs.Catalog.Log — the log of a load accounts for every file

A load that succeeds takes one step for each stop of the walk (`LoadStep`), and its log is what the
steps report, in order (`LoadRun`). Each step keeps the account between the log and the catalog: a
file that is read adds its path to both, and a group that is replaced moves its path from the catalog
to the log. So no file is lost and none is counted twice.

The replaced paths are told from the log alone: what a catalog holds under a name is the path read
last under that name (`latest`), so a replacement is reported exactly behind a file whose group was
read before. The files visited are those of the walk, told by their locations.
-/
import Snippets.Proofs.Catalog.Load

namespace Snippets

/-! ## Readings of a log -/

namespace Event

/-- The path of a file that was read. -/
def parsedPath? : Event → Option Path
  | parsed _ path _ => some path
  | _ => none

/-- The path of a group that was replaced. -/
def replacedPath? : Event → Option Path
  | redefined _ path => some path
  | _ => none

/-- The path of a file that was read into a group. -/
def parsedInto? (key : Text) : Event → Option Path
  | parsed group path _ => if key = group then some path else none
  | _ => none

/-- The path of a file that was visited, and the group it was read into unless it was passed over. -/
def visit? : Event → Option (Path × Option Text)
  | skipped path => some (path, none)
  | parsed group path _ => some (path, some group)
  | _ => none

end Event

/-- The path read last into a group. -/
def latest (key : Text) (log : List Event) : Option Path :=
  (log.filterMap (Event.parsedInto? key)).getLast?

theorem latest_append (key : Text) (log more : List Event) :
    latest key (log ++ more) = (latest key more).or (latest key log) := by
  rw [latest, List.filterMap_append, List.getLast?_append]
  rfl

/-- An element of two lists, one behind the other, stands in the second or in the first. -/
theorem append_eq_append_cons {α : Type} {first second front back : List α} {a : α}
    (h : first ++ second = front ++ a :: back) :
    (∃ more, front = first ++ more ∧ second = more ++ a :: back) ∨
      ∃ rest, first = front ++ a :: rest ∧ back = rest ++ second := by
  rcases List.append_eq_append_iff.mp h with ⟨more, hfront, hsecond⟩ | ⟨rest, hfirst, hback⟩
  · exact .inl ⟨more, hfront, hsecond⟩
  · cases rest with
    | nil => exact .inl ⟨[], by simpa using hfirst.symm, by simpa using hback.symm⟩
    | cons b rest =>
      obtain ⟨rfl, rfl⟩ := List.cons.inj hback
      exact .inr ⟨rest, hfirst, rfl⟩

namespace Catalog

variable {t : FileTree} {root : Path} {c c' next : Catalog} {stop : Stop × Path}
  {stops : List (Stop × Path)} {log : List Event} {key : Text} {path old : Path} {count : Nat}

/-! ## Step and run -/

/-- A stop that is visited as a file: its path leads to a regular file. -/
def isVisited (t : FileTree) (stop : Stop × Path) : Bool := stop.1 = .leaf && t.isFile stop.2

/-- The path of what is found under a name. -/
def source? (c : Catalog) (key : Text) : Option Path := (c.find? key).map Group.source

@[simp] theorem source?_empty (key : Text) : empty.source? key = none := rfl

/-- The report of a file read into a group, on top of a catalog. -/
def report (c : Catalog) (key : Text) (path : Path) (count : Nat) : List Event :=
  .parsed key path count :: ((c.source? key).map (Event.redefined key)).toList

/-- What a load does at a stop: what it reports, and the catalog afterwards. -/
inductive LoadStep (t : FileTree) (c : Catalog) :
    (stop : Stop × Path) → (log : List Event) → (next : Catalog) → Prop
  /-- A stop that is no file gives nothing. -/
  | pass {stop : Stop × Path} (h : isVisited t stop = false) : LoadStep t c stop [] c
  /-- A file that is no snippet file is reported. -/
  | skip {path : Path} (h : isVisited t (.leaf, path) = true) (hname : groupName? path = none) :
      LoadStep t c (.leaf, path) [.skipped path] c
  /-- A snippet file is reported, with the group that it replaces, and inserted. -/
  | parse {path : Path} {key : Text} {snippets : List Snippet}
      (h : isVisited t (.leaf, path) = true) (hname : groupName? path = some key) :
      LoadStep t c (.leaf, path) (c.report key path snippets.length)
        (c.insert key { source := path, snippets }).2

/-- What a load does along the stops of a walk. -/
inductive LoadRun (t : FileTree) :
    (c : Catalog) → (stops : List (Stop × Path)) → (log : List Event) → (c' : Catalog) → Prop
  /-- No stop is left. -/
  | done (c : Catalog) : LoadRun t c [] [] c
  /-- One stop and the stops behind it. -/
  | step {c next c' : Catalog} {stop : Stop × Path} {stops : List (Stop × Path)}
      {first log : List Event} (hstep : LoadStep t c stop first next)
      (hrun : LoadRun t next stops log c') : LoadRun t c (stop :: stops) (first ++ log) c'

/-- A load that succeeds behind a stop has taken a step there. -/
theorem exists_step_of_result_loadStops (h : (loadStops t c (stop :: stops)).result = .ok c') :
    ∃ first next, LoadStep t c stop first next ∧ (loadStops t next stops).result = .ok c' ∧
      (loadStops t c (stop :: stops)).events = first ++ (loadStops t next stops).events := by
  obtain ⟨kind, path⟩ := stop
  cases kind with
  | directory =>
    rw [loadStops] at h ⊢
    split at h
    · exact absurd h (by simp)
    · exact ⟨[], c, .pass rfl, h, rfl⟩
  | leaf =>
    rw [loadStops] at h ⊢
    split at h
    · rename_i hfile
      have hvisited : isVisited t (.leaf, path) = true := by simpa [isVisited] using hfile
      rw [if_pos hfile]
      cases hname : groupName? path with
      | none =>
        rw [hname] at h
        exact ⟨_, c, .skip hvisited hname, h, rfl⟩
      | some key =>
        rw [hname] at h
        cases hread : t.readSnippets path with
        | error e =>
          rw [hread] at h
          exact absurd h (by simp)
        | ok snippets =>
          rw [hread] at h
          refine ⟨_, _, .parse hvisited hname, h, ?_⟩
          -- what an insertion gives back is what was found before
          simp only [Loaded.after, report, source?, fst_insert, Option.map_map, List.cons_append,
            Function.comp_def]
    · rename_i hfile
      rw [if_neg hfile]
      exact ⟨[], c, .pass (by simpa [isVisited] using hfile), h, rfl⟩

/-- A load that succeeds is a run. -/
theorem loadRun_of_result (h : (loadStops t c stops).result = .ok c') :
    LoadRun t c stops (loadStops t c stops).events c' := by
  induction stops generalizing c with
  | nil =>
    obtain rfl := Except.ok.inj h
    exact .done c
  | cons stop stops ih =>
    obtain ⟨first, next, hstep, hrest, hevents⟩ := exists_step_of_result_loadStops h
    rw [hevents]
    exact .step hstep (ih hrest)

/-- A report read by what is looked for in it. -/
theorem filterMap_report {α : Type} (f : Event → Option α) (c : Catalog) (key : Text) (path : Path)
    (count : Nat) :
    (c.report key path count).filterMap f = (f (.parsed key path count)).toList ++
      ((c.source? key).bind fun old => f (.redefined key old)).toList := by
  rw [report, List.filterMap_cons]
  cases c.source? key with
  | none => cases f (.parsed key path count) <;> rfl
  | some old =>
    rw [Option.map_some, Option.bind_some, Option.toList_some, List.filterMap_cons]
    cases f (.parsed key path count) <;> cases f (.redefined key old) <;> rfl

/-! ## The paths of the log -/

/-- The paths of the groups of a catalog. -/
def sources (c : Catalog) : List Path := c.entries.map (·.2.source)

/-- An insertion adds its path to those of the catalog, and takes out the one it replaces. -/
theorem perm_sources_insert (c : Catalog) (key : Text) (g : Group) :
    (g.source :: c.sources).Perm ((c.insert key g).2.sources ++ (c.source? key).toList) := by
  have hfound : (place key g c.entries).1 = c.find? key := fst_place c.sorted
  rw [source?, ← hfound]
  show (g.source :: c.entries.map (·.2.source)).Perm
    ((place key g c.entries).2.map (·.2.source) ++
      ((place key g c.entries).1.map Group.source).toList)
  induction c.entries with
  | nil => exact .refl _
  | cons entry rest ih =>
    obtain ⟨name, old⟩ := entry
    unfold place
    split
    · simp
    · split
      · exact (List.perm_append_singleton old.source _).symm.cons g.source
      · exact (List.Perm.swap _ _ _).trans (ih.cons old.source)

/-- One step: what is read is in the catalog afterwards, or was replaced. -/
theorem LoadStep.perm_paths (h : LoadStep t c stop log next) :
    (log.filterMap Event.parsedPath? ++ c.sources).Perm
      (next.sources ++ log.filterMap Event.replacedPath?) := by
  cases h with
  | pass => rw [List.filterMap_nil, List.filterMap_nil, List.nil_append, List.append_nil]
  | skip =>
    show ([] ++ c.sources).Perm (c.sources ++ [])
    rw [List.nil_append, List.append_nil]
  | @parse path key snippets =>
    rw [filterMap_report, filterMap_report]
    simpa [Event.parsedPath?, Event.replacedPath?] using
      perm_sources_insert c key { source := path, snippets }

/-- A run: what is read is in the catalog afterwards, or was replaced. -/
theorem LoadRun.perm_paths (h : LoadRun t c stops log c') :
    (log.filterMap Event.parsedPath? ++ c.sources).Perm
      (c'.sources ++ log.filterMap Event.replacedPath?) := by
  induction h with
  | done c => rw [List.filterMap_nil, List.filterMap_nil, List.nil_append, List.append_nil]
  | step hstep _ ih =>
    -- what the step leaves in the catalog, the stops behind it leave there or replace
    rw [List.perm_iff_count] at ih ⊢
    intro path
    have hfirst := List.perm_iff_count.mp hstep.perm_paths path
    have hrest := ih path
    simp only [List.filterMap_append, List.count_append] at hfirst hrest ⊢
    omega

/-! ## The order of the log -/

/-- The path found after a step is the one read last. -/
theorem LoadStep.source?_eq (h : LoadStep t c stop log next) :
    next.source? key = (latest key log).or (c.source? key) := by
  cases h with
  | pass => rfl
  | skip => rfl
  | @parse path name snippets =>
    rw [latest, filterMap_report, source?, find?_insert]
    by_cases hkey : key = name
    · simp [Event.parsedInto?, hkey]
    · simp [Event.parsedInto?, hkey, source?]

/-- Behind a file that a step reads, it reports the group replaced. -/
theorem LoadStep.replaced_of_parsed (h : LoadStep t c stop log next) {front back : List Event}
    (hlog : log = front ++ .parsed key path count :: back)
    (hold : (latest key front).or (c.source? key) = some old) : back = [.redefined key old] := by
  cases h with
  | pass => exact absurd hlog (by simp)
  | skip => cases front <;> simp at hlog
  | @parse read name snippets =>
    rw [report] at hlog
    cases front with
    | nil =>
      obtain ⟨hread, rfl⟩ := List.cons.inj hlog
      obtain ⟨rfl, -, -⟩ := Event.parsed.inj hread
      obtain hold : c.source? name = some old := hold
      rw [hold]
      rfl
    | cons e front =>
      -- what is left of the report is no file read
      have hmem : Event.parsed key path count ∈
          ((c.source? name).map (Event.redefined name)).toList := by
        rw [(List.cons.inj hlog).2]
        simp
      simp at hmem

/-- A group that a step reports as replaced stands behind a file read into it. -/
theorem LoadStep.parsed_of_replaced (h : LoadStep t c stop log next) {front back : List Event}
    (hlog : log = front ++ .redefined key old :: back) :
    ∃ path count, front = [.parsed key path count] ∧ c.source? key = some old := by
  cases h with
  | pass => exact absurd hlog (by simp)
  | skip => cases front <;> simp at hlog
  | @parse read name snippets =>
    rw [report] at hlog
    cases front with
    | nil => exact absurd (List.cons.inj hlog).1 (by simp)
    | cons e front =>
      obtain ⟨rfl, hrest⟩ := List.cons.inj hlog
      cases hsource : c.source? name with
      | none =>
        rw [hsource] at hrest
        exact absurd hrest (by simp)
      | some found =>
        rw [hsource] at hrest
        cases front with
        | nil =>
          obtain ⟨rfl, rfl⟩ := Event.redefined.inj (List.cons.inj hrest).1
          exact ⟨read, snippets.length, rfl, hsource⟩
        | cons e front => exact absurd hrest (by simp)

/-- Behind a file whose group was read before stands the group replaced, with the path read last. -/
theorem LoadRun.replaced_of_parsed (h : LoadRun t c stops log c') {front back : List Event}
    (hlog : log = front ++ .parsed key path count :: back)
    (hold : (latest key front).or (c.source? key) = some old) :
    ∃ rest, back = .redefined key old :: rest := by
  induction h generalizing front with
  | done c => exact absurd hlog (by simp)
  | step hstep _ ih =>
    rcases append_eq_append_cons hlog with ⟨more, rfl, hmore⟩ | ⟨rest, hfirst, rfl⟩
    · -- read behind this step, on top of the catalog that it leaves
      refine ih hmore ?_
      rw [hstep.source?_eq, ← Option.or_assoc, ← latest_append, hold]
    · rw [hstep.replaced_of_parsed hfirst hold]
      exact ⟨_, rfl⟩

/-- A group replaced stands right behind a file read into it, and names the path read last. -/
theorem LoadRun.parsed_of_replaced (h : LoadRun t c stops log c') {front back : List Event}
    (hlog : log = front ++ .redefined key old :: back) :
    ∃ before path count, front = before ++ [.parsed key path count] ∧
      (latest key before).or (c.source? key) = some old := by
  induction h generalizing front with
  | done c => exact absurd hlog (by simp)
  | @step _ _ _ _ _ first _ hstep _ ih =>
    rcases append_eq_append_cons hlog with ⟨more, rfl, hmore⟩ | ⟨rest, hfirst, rfl⟩
    · obtain ⟨before, path, count, rfl, hlatest⟩ := ih hmore
      refine ⟨first ++ before, path, count, by rw [List.append_assoc], ?_⟩
      rw [latest_append, Option.or_assoc, ← hstep.source?_eq, hlatest]
    · obtain ⟨path, count, rfl, hsource⟩ := hstep.parsed_of_replaced hfirst
      exact ⟨[], path, count, rfl, hsource⟩

/-! ## The files of the log -/

/-- One step: a file that is visited is reported once. -/
theorem LoadStep.visits (h : LoadStep t c stop log next) :
    log.filterMap Event.visit? =
      ([stop].filter (isVisited t)).map fun stop => (stop.2, groupName? stop.2) := by
  cases h with
  | pass h => rw [List.filter_cons_of_neg (by simp [h])]; rfl
  | skip h hname =>
    rw [List.filter_cons_of_pos h]
    simp [Event.visit?, hname]
  | parse h hname =>
    rw [List.filter_cons_of_pos h, filterMap_report]
    simp [Event.visit?, hname]

/-- A run: each file that is visited is reported once, in the order of the stops. -/
theorem LoadRun.visits (h : LoadRun t c stops log c') :
    log.filterMap Event.visit? =
      (stops.filter (isVisited t)).map fun stop => (stop.2, groupName? stop.2) := by
  induction h with
  | done c => rfl
  | @step _ _ _ stop stops _ _ hstep _ ih =>
    rw [List.filterMap_append, hstep.visits, ih, ← List.map_append, ← List.filter_append]
    rfl

/-- A load that succeeds is a run along the stops of the walk. -/
theorem exists_loadRun_of_load (h : (load t root).result = .ok c) :
    ∃ top, t.stat root = .ok top ∧
      LoadRun t empty (pathStops root top) (load t root).events c := by
  obtain ⟨top, hroot⟩ := exists_stat_of_result_load h
  have hload : load t root = loadStops t empty (pathStops root top) := by
    rw [load, FileTree.walk, hroot]
    rfl
  rw [hload] at h ⊢
  exact ⟨top, hroot, loadRun_of_result h⟩

/-- The locations of the files that a walk visits, in its order. -/
def visitedFiles (t : FileTree) (root : Path) (top : Node) : List (List Name) :=
  (top.stops.filter fun stop => isVisited t (stop.1, root.joinAll stop.2)).map (·.2)

theorem mem_visitedFiles_iff (ht : t.WellFormed) {top : Node} (hroot : t.stat root = .ok top)
    {names : List Name} :
    names ∈ visitedFiles t root top ↔ (∃ content, t.entryContent? root names = some content) ∧
      (root.joinAll names).length ≤ FileTree.pathLimit := by
  have hvisited {node : Node} (hnode : t.nodeAt? root names = some node) (hleaf : node.stop = .leaf) :
      isVisited t (.leaf, root.joinAll names) = true ↔
        (∃ content, t.entryContent? root names = some content) ∧
          (root.joinAll names).length ≤ FileTree.pathLimit := by
    have hfile : isVisited t (.leaf, root.joinAll names) = true ↔
        ∃ content, t.stat (root.joinAll names) = .ok (.file content) := by
      rw [isVisited, FileTree.isFile]
      cases t.stat (root.joinAll names) with
      | error e => simp
      | ok node => cases node <;> simp
    rw [hfile, ← exists_and_right]
    exact exists_congr fun content => FileTree.stat_eq_file_iff ht hnode hleaf
  unfold visitedFiles
  constructor
  · intro h
    obtain ⟨⟨stop, _⟩, hstop, rfl⟩ := List.mem_map.mp h
    obtain ⟨hmem, hkept⟩ := List.mem_filter.mp hstop
    obtain ⟨node, hnode, rfl⟩ := (mem_stops_iff_nodeAt? ht hroot).mp hmem
    -- only a leaf is visited
    cases hleaf : node.stop with
    | directory => exact absurd hkept (by simp [isVisited, hleaf])
    | leaf => exact (hvisited hnode hleaf).mp (by simpa [hleaf] using hkept)
  · rintro ⟨⟨content, hcontent⟩, hlength⟩
    obtain ⟨node, hnode, hleaf⟩ := FileTree.exists_leaf_of_entryContent? hcontent
    refine List.mem_map.mpr ⟨(.leaf, names), List.mem_filter.mpr ⟨?_, ?_⟩, rfl⟩
    · exact (mem_stops_iff_nodeAt? ht hroot).mpr ⟨node, hnode, hleaf⟩
    · exact (hvisited hnode hleaf).mpr ⟨⟨content, hcontent⟩, hlength⟩

/-- The files that a walk visits are among its stops. -/
theorem sublist_visitedFiles (t : FileTree) (root : Path) (top : Node) :
    ((visitedFiles t root top).map fun names => (Stop.leaf, root.joinAll names)).Sublist
      (pathStops root top) := by
  have hleaves : ((visitedFiles t root top).map fun names => (Stop.leaf, root.joinAll names)) =
      (top.stops.filter fun stop => isVisited t (stop.1, root.joinAll stop.2)).map
        fun stop => (stop.1, root.joinAll stop.2) := by
    rw [visitedFiles, List.map_map]
    apply List.map_congr_left
    rintro ⟨kind, names⟩ hstop
    -- what is visited is no directory
    have hvisited := (List.mem_filter.mp hstop).2
    simp only [isVisited, Bool.and_eq_true, decide_eq_true_eq] at hvisited
    simp [hvisited.1]
  rw [hleaves]
  exact List.filter_sublist.map _

/-- The files that a walk visits ascend. -/
theorem pairwise_visitedFiles (ht : t.WellFormed) {top : Node} (hroot : t.stat root = .ok top) :
    (visitedFiles t root top).Pairwise Location.Before := by
  rw [visitedFiles, List.pairwise_map]
  exact (pairwise_stops (ht.stat hroot)).filter _

/-- The files that a load reports are those that the walk visits. -/
theorem visits_of_load {top : Node} (hroot : t.stat root = .ok top)
    (h : (load t root).result = .ok c) :
    (load t root).events.filterMap Event.visit? =
      (visitedFiles t root top).map
        fun names => (root.joinAll names, groupName? (root.joinAll names)) := by
  obtain ⟨top', hroot', hrun⟩ := exists_loadRun_of_load h
  obtain rfl := Except.ok.inj (hroot.symm.trans hroot')
  rw [hrun.visits, pathStops, List.filter_map, visitedFiles, List.map_map, List.map_map]
  rfl

/-- **The log of a load accounts for every file.** What is read is in the catalog afterwards or was
replaced. A group is replaced exactly behind a file whose group was read before, and the path
replaced is the one read last. Each file of the walk whose path is within the limit is either read or passed
over, once, in the order of the walk. -/
theorem load_log_accounts {t : FileTree} {root : Path} {c : Catalog} (ht : t.WellFormed)
    (h : (load t root).result = .ok c) :
    ((load t root).events.filterMap Event.parsedPath?).length =
      c.size + ((load t root).events.filterMap Event.replacedPath?).length ∧
    ((load t root).events.filterMap Event.parsedPath?).Perm
      (c.entries.map (·.2.source) ++ (load t root).events.filterMap Event.replacedPath?) ∧
    (∀ front key path count back, (load t root).events = front ++ .parsed key path count :: back →
      ∀ old, latest key front = some old ↔ ∃ rest, back = .redefined key old :: rest) ∧
    (∀ front key old back, (load t root).events = front ++ .redefined key old :: back →
      ∃ before path count, front = before ++ [.parsed key path count] ∧
        latest key before = some old) ∧
    ∃ (stops : List (Stop × Path)) (files : List (List Name)), t.walk root = .ok stops ∧
      (files.map fun names => (Stop.leaf, root.joinAll names)).Sublist stops ∧
      files.Pairwise Location.Before ∧
      (∀ names, names ∈ files ↔ (∃ content, t.entryContent? root names = some content) ∧
        (root.joinAll names).length ≤ FileTree.pathLimit) ∧
      (load t root).events.filterMap Event.visit? =
        files.map fun names => (root.joinAll names, groupName? (root.joinAll names)) := by
  obtain ⟨top, hroot, hrun⟩ := exists_loadRun_of_load h
  have hpaths := hrun.perm_paths
  rw [show empty.sources = [] from rfl, List.append_nil] at hpaths
  refine ⟨?_, hpaths, ?_, ?_, pathStops root top, visitedFiles t root top, ?_,
    sublist_visitedFiles t root top, pairwise_visitedFiles ht hroot,
    fun names => mem_visitedFiles_iff ht hroot, visits_of_load hroot h⟩
  · rw [hpaths.length_eq, List.length_append, sources, List.length_map]
    rfl
  · intro front key path count back hlog old
    constructor
    · intro hold
      exact hrun.replaced_of_parsed hlog (by rw [hold]; rfl)
    · rintro ⟨rest, rfl⟩
      have hbehind : (load t root).events =
          (front ++ [.parsed key path count]) ++ .redefined key old :: rest := by
        rw [hlog, List.append_assoc]
        rfl
      -- the event in front of the group replaced is this file
      obtain ⟨before, path', count', hfront, hlatest⟩ := hrun.parsed_of_replaced hbehind
      obtain rfl := (List.append_inj' hfront rfl).1
      simpa using hlatest
  · intro front key old back hlog
    obtain ⟨before, path, count, hfront, hlatest⟩ := hrun.parsed_of_replaced hlog
    exact ⟨before, path, count, hfront, by simpa using hlatest⟩
  · rw [FileTree.walk, hroot]
    rfl

/-- A tree with two files of one group and a file that is no snippet file. -/
def repeatedGroup : FileTree where
  top := [(Path.ofText ['s'], .dir
    [(Path.ofText ['b'],
        .dir [(Path.ofText "x.snip".toList, .file (Utf8.encode "snippet q\n2\n".toList))]),
      (Path.ofText ['a'],
        .dir [(Path.ofText "x.snip".toList, .file (Utf8.encode "snippet p\n1\n".toList))]),
      (Path.ofText ['n'], .file [])])]
  workingDir := []

/-- The group of `s/a/x.snip` is replaced when `s/b/x.snip` is read, and `s/n` is passed over. -/
theorem load_log_accounts_repeated_group :
    repeatedGroup.WellFormed ∧ ∃ c, (load repeatedGroup (Path.ofText ['s'])).result = .ok c ∧
      ((load repeatedGroup (Path.ofText ['s'])).events.filterMap Event.parsedPath?).length =
        c.size + 1 ∧
      latest ['x'] [.parsed ['x'] (Path.ofText "s/a/x.snip".toList) 1] =
        some (Path.ofText "s/a/x.snip".toList) := by
  have ht : repeatedGroup.WellFormed := by
    unfold FileTree.WellFormed repeatedGroup
    refine .dir (by decide) (by decide) ?_
    rw [List.forall_mem_singleton]
    refine .dir (by decide) (by decide) ?_
    simp only [List.forall_mem_cons, List.not_mem_nil, false_imp_iff, implies_true, and_true]
    exact ⟨.dir (by decide) (by decide) (by simp [Node.WellFormed.file]),
      .dir (by decide) (by decide) (by simp [Node.WellFormed.file]), .file _⟩
  have hload : (load repeatedGroup (Path.ofText ['s'])).result = .ok _ := rfl
  obtain ⟨hcount, -, hreplaced, -⟩ := load_log_accounts ht hload
  exact ⟨ht, _, rfl, hcount,
    (hreplaced [.parsed ['x'] (Path.ofText "s/a/x.snip".toList) 1] ['x']
      (Path.ofText "s/b/x.snip".toList) 1 _ rfl _).mpr ⟨_, rfl⟩⟩

/-- Without the limit on paths, not every file of the walk is reported: one whose path is too long is
passed over without an event. -/
theorem load_log_padded_root :
    ¬ ∀ c, (load oneFile (padded 4094)).result = .ok c → ∀ names content,
      oneFile.entryContent? (padded 4094) names = some content →
        ∃ visit ∈ (load oneFile (padded 4094)).events.filterMap Event.visit?,
          visit.1 = Path.joinAll (padded 4094) names := by
  intro hclaim
  obtain ⟨c, hload⟩ := exists_load_oneFile
  have hroot : oneFile.stat (padded 4094) = .ok _ := stat_padded (by decide)
  have hcontent : oneFile.entryContent? (padded 4094) [Path.ofText "x.snip".toList] =
      some (Utf8.encode "snippet a\n  x\n".toList) := by
    rw [FileTree.entryContent?, FileTree.nodeAt?, hroot]
    rfl
  obtain ⟨visit, hvisit, hpath⟩ := hclaim c hload _ _ hcontent
  rw [visits_of_load hroot hload] at hvisit
  obtain ⟨names, hnames, rfl⟩ := List.mem_map.mp hvisit
  obtain ⟨-, hlength⟩ := (mem_visitedFiles_iff wellFormed_oneFile hroot).mp hnames
  rw [show Path.joinAll (padded 4094) names = _ from hpath] at hlength
  exact Nat.not_le.mpr (pathLimit_lt_length_padded (by decide)) hlength

end Catalog

end Snippets
