/-
# Snippets.Proofs.Catalog.Load — what a load finds, by the order of locations

A load goes through the stops of a walk and inserts the group of each snippet file, and it ends at
the first stop that it fails at (`result_loadStops`). The locations of the stops ascend, so the last
file of a group is the one with the greatest location, and the first failure the one with the least.
What is found under a name, and which failure is reported, is thereby told without the walk
(`load_eq_greatest_files`).
-/
import Snippets.Proofs.Catalog.Lookup
import Snippets.Proofs.Catalog.SnippetFile

namespace Snippets

/-! ## First and last in an ascending list -/

section Ascending

variable {α β : Type} {R : α → α → Prop} {l : List α} {f : α → Option β} {b : β}

/-- The first answer along an ascending list comes from the least element with an answer. -/
theorem exists_least_of_findSome? (h : l.Pairwise R) (hfirst : l.findSome? f = some b) :
    ∃ a ∈ l, f a = some b ∧ ∀ other ∈ l, (∃ c, f other = some c) → other = a ∨ R a other := by
  obtain ⟨front, a, back, rfl, hfa, hnone⟩ := List.findSome?_eq_some_iff.mp hfirst
  refine ⟨a, by simp, hfa, ?_⟩
  rintro other hother ⟨c, hc⟩
  rcases List.mem_append.mp hother with hother | hother
  · -- in front of the first answer there is none
    rw [hnone other hother] at hc
    exact absurd hc (by simp)
  · rcases List.mem_cons.mp hother with rfl | hother
    · exact .inl rfl
    · exact .inr ((List.pairwise_cons.mp (List.pairwise_append.mp h).2.1).1 other hother)

theorem findSome?_eq_some_iff_of_pairwise (hasymm : ∀ a b, R a b → ¬ R b a) (h : l.Pairwise R) :
    l.findSome? f = some b ↔
      ∃ a ∈ l, f a = some b ∧ ∀ other ∈ l, (∃ c, f other = some c) → other = a ∨ R a other := by
  constructor
  · exact exists_least_of_findSome? h
  · rintro ⟨a, ha, hfa, hleast⟩
    obtain ⟨c, hc⟩ : ∃ c, l.findSome? f = some c := by
      rw [← Option.isSome_iff_exists, List.findSome?_isSome_iff]
      exact ⟨a, ha, by simp [hfa]⟩
    obtain ⟨first, hfirst, hfc, hfirstLeast⟩ := exists_least_of_findSome? h hc
    -- both `a` and `first` are least, so they are one
    have heq : first = a := by
      rcases hleast first hfirst ⟨c, hfc⟩ with heq | hbefore
      · exact heq
      · rcases hfirstLeast a ha ⟨b, hfa⟩ with heq | hafter
        · exact heq.symm
        · exact absurd hafter (hasymm _ _ hbefore)
    rw [hc, ← hfc, heq, hfa]

end Ascending

namespace Catalog

variable {t : FileTree} {root : Path} {names : List Name} {stop : Stop} {key : Text}
  {content : Bytes} {e : Failure}

/-! ## Step and run -/

/-- The group and the content of the snippet file at a stop. -/
def stopFile? (t : FileTree) : Stop × Path → Option (Text × Bytes)
  | (.directory, _) => none
  | (.leaf, path) =>
    match t.stat path with
    | .ok (.file content) => (groupName? path).map fun key => (key, content)
    | _ => none

/-- Why a load ends at a stop. -/
def stopFailure? (t : FileTree) : Stop × Path → Option Failure
  | (.directory, path) =>
    match FileTree.checkPath path with
    | .error e => some (.walk path e)
    | .ok () => none
  | (.leaf, path) =>
    (stopFile? t (.leaf, path)).bind fun file =>
      match Snippet.ofBytes? file.2 with
      | none => some (.io .invalidUtf8)
      | some _ => none

/-- The entry that a stop adds to a catalog. -/
def stopGroup? (t : FileTree) (stop : Stop × Path) : Option (Text × Group) :=
  (stopFile? t stop).bind fun file =>
    (Snippet.ofBytes? file.2).map fun snippets => (file.1, { source := stop.2, snippets })

/-- One stop of a load. -/
theorem result_loadStops_cons (c : Catalog) (stop : Stop × Path) (rest : List (Stop × Path)) :
    (loadStops t c (stop :: rest)).result =
      match stopFailure? t stop with
      | some e => .error e
      | none => (loadStops t (c.insertAll (stopGroup? t stop).toList) rest).result := by
  obtain ⟨kind, path⟩ := stop
  cases kind with
  | directory =>
    rw [loadStops, stopFailure?]
    cases FileTree.checkPath path <;> rfl
  | leaf =>
    -- only a regular file with the name of a snippet file is read
    rw [loadStops, stopFailure?, stopGroup?, stopFile?, FileTree.isFile, FileTree.readSnippets,
      FileTree.read]
    cases t.stat path with
    | error cause => rfl
    | ok node =>
      cases node with
      | dir entries => rfl
      | link target => rfl
      | file content =>
        cases groupName? path with
        | none => rfl
        | some key =>
          dsimp only [Option.map_some, Option.bind_some]
          cases Snippet.ofBytes? content <;> rfl

/-- The stops of a load, up to the first that it fails at. -/
theorem result_loadStops (c : Catalog) (stops : List (Stop × Path)) :
    (loadStops t c stops).result =
      match stops.findSome? (stopFailure? t) with
      | some e => .error e
      | none => .ok (c.insertAll (stops.filterMap (stopGroup? t))) := by
  induction stops generalizing c with
  | nil => rfl
  | cons stop rest ih =>
    rw [result_loadStops_cons, List.findSome?_cons, List.filterMap_cons]
    cases stopFailure? t stop with
    | some e => rfl
    | none =>
      dsimp only
      rw [ih]
      cases stopGroup? t stop <;> rfl

/-! ## Stops and entries -/

theorem stopFile?_eq_some_iff (ht : t.WellFormed) {node : Node}
    (h : t.nodeAt? root names = some node) :
    stopFile? t (node.stop, root.joinAll names) = some (key, content) ↔
      t.IsSnippetFile root names key content := by
  have hname : groupName? (root.joinAll names) = some key ↔
      ∃ name, FileTree.entryName? root names = some name ∧ name.NamesGroup key := by
    rw [groupName?_eq_some_iff, FileTree.fileName?_joinAll (ht.isEntry h)]
  cases hstop : node.stop with
  | directory =>
    constructor
    · intro hfile
      exact absurd hfile (by simp [stopFile?])
    · intro hfile
      have hcontent := hfile.content
      obtain ⟨entries, rfl⟩ := Node.exists_eq_dir hstop
      rw [FileTree.entryContent?, h] at hcontent
      exact absurd hcontent (by simp)
  | leaf =>
    have hstat (found : Bytes) : t.stat (root.joinAll names) = .ok (.file found) ↔
        t.entryContent? root names = some found ∧
          (root.joinAll names).length ≤ FileTree.pathLimit :=
      FileTree.stat_eq_file_iff ht h hstop
    constructor
    · intro hfile
      unfold stopFile? at hfile
      dsimp only at hfile
      split at hfile
      · rename_i found hfound
        obtain ⟨_, hkey, heq⟩ := Option.map_eq_some_iff.mp hfile
        obtain ⟨rfl, rfl⟩ := Prod.mk.inj heq
        obtain ⟨hcontent, hle⟩ := (hstat found).mp hfound
        exact ⟨⟨hcontent, hname.mp hkey⟩, hle⟩
      · exact absurd hfile (by simp)
    · intro hfile
      rw [stopFile?, (hstat content).mpr ⟨hfile.content, hfile.length_le⟩]
      dsimp only
      rw [hname.mpr hfile.name]
      rfl

theorem stopFailure?_eq_some_iff (ht : t.WellFormed) {node : Node}
    (h : t.nodeAt? root names = some node) :
    stopFailure? t (node.stop, root.joinAll names) = some e ↔ t.Blocks root names e := by
  have hfile (key : Text) (content : Bytes) :
      stopFile? t (node.stop, root.joinAll names) = some (key, content) ↔
        t.IsSnippetFile root names key content :=
    stopFile?_eq_some_iff ht h
  cases hstop : node.stop with
  | directory =>
    obtain ⟨entries, rfl⟩ := Node.exists_eq_dir hstop
    rw [stopFailure?, FileTree.checkPath_joinAll ht h]
    constructor
    · intro hfailure
      by_cases hlength : FileTree.pathLimit < (root.joinAll names).length
      · rw [if_pos hlength] at hfailure
        rw [← Option.some.inj hfailure]
        exact .directory h hlength
      · rw [if_neg hlength] at hfailure
        exact absurd hfailure (by simp)
    · rintro (⟨-, hlength⟩ | ⟨hsnippet, -⟩)
      · rw [if_pos hlength]
      · exact absurd ((hfile _ _).mpr hsnippet) (by simp [hstop, stopFile?])
  | leaf =>
    rw [hstop] at hfile
    rw [stopFailure?, Option.bind_eq_some_iff]
    constructor
    · rintro ⟨⟨key, content⟩, hsnippet, hfailure⟩
      split at hfailure
      · rename_i hnone
        rw [← Option.some.inj hfailure]
        exact .file ((hfile key content).mp hsnippet) (Snippet.ofBytes?_eq_none_iff.mp hnone)
      · exact absurd hfailure (by simp)
    · rintro (⟨hdir, -⟩ | ⟨hsnippet, hcontent⟩)
      · rw [Option.some.inj (h.symm.trans hdir)] at hstop
        exact absurd hstop (by simp [Node.stop])
      · exact ⟨_, (hfile _ _).mpr hsnippet, by rw [Snippet.ofBytes?_eq_none_iff.mpr hcontent]⟩

/-- A group read from a snippet file. -/
def IsGroupFile (t : FileTree) (root : Path) (key : Text) (names : List Name) (g : Group) : Prop :=
  ∃ content, t.IsSnippetFile root names key content ∧ g.source = root.joinAll names ∧
    Snippet.ofBytes? content = some g.snippets

theorem stopGroup?_eq_some_iff (ht : t.WellFormed) {node : Node}
    (h : t.nodeAt? root names = some node) {g : Group} :
    stopGroup? t (node.stop, root.joinAll names) = some (key, g) ↔
      IsGroupFile t root key names g := by
  rw [stopGroup?, Option.bind_eq_some_iff]
  constructor
  · rintro ⟨⟨_, content⟩, hfile, hentry⟩
    obtain ⟨snippets, hsnippets, heq⟩ := Option.map_eq_some_iff.mp hentry
    obtain ⟨rfl, rfl⟩ := Prod.mk.inj heq
    exact ⟨content, (stopFile?_eq_some_iff ht h).mp hfile, rfl, hsnippets⟩
  · rintro ⟨content, hfile, hsource, hsnippets⟩
    refine ⟨_, (stopFile?_eq_some_iff ht h).mpr hfile, Option.map_eq_some_iff.mpr ?_⟩
    exact ⟨g.snippets, hsnippets, by rw [← hsource]⟩

/-! ## Answers by location -/

/-- The first answer along a list of all stops of a walk, in the order of their locations or against
it, told by the entries. -/
theorem findSome?_stops_eq_some_iff {β : Type} {l : List (Stop × List Name)}
    {R : List Name → List Name → Prop} {f : Stop × List Name → Option β}
    {P : List Name → β → Prop} {b : β} (hasymm : ∀ a b, R a b → ¬ R b a)
    (hpairwise : l.Pairwise fun a b => R a.2 b.2)
    (hmem : ∀ stop names, (stop, names) ∈ l ↔
      ∃ node, t.nodeAt? root names = some node ∧ node.stop = stop)
    (hentry : ∀ names b, P names b → ∃ node, t.nodeAt? root names = some node)
    (hf : ∀ names node, t.nodeAt? root names = some node →
      ∀ b, f (node.stop, names) = some b ↔ P names b) :
    l.findSome? f = some b ↔
      ∃ names, P names b ∧ ∀ other c, P other c → other = names ∨ R names other := by
  rw [findSome?_eq_some_iff_of_pairwise (fun a b => hasymm a.2 b.2) hpairwise]
  constructor
  · rintro ⟨⟨stop, names⟩, hin, hb, hleast⟩
    obtain ⟨node, hnode, rfl⟩ := (hmem _ _).mp hin
    refine ⟨names, (hf _ _ hnode _).mp hb, ?_⟩
    intro other c hc
    obtain ⟨node', hnode'⟩ := hentry _ _ hc
    have hother : (node'.stop, other) ∈ l := (hmem _ _).mpr ⟨_, hnode', rfl⟩
    exact (hleast _ hother ⟨c, (hf _ _ hnode' _).mpr hc⟩).imp_left (congrArg Prod.snd)
  · rintro ⟨names, hb, hleast⟩
    obtain ⟨node, hnode⟩ := hentry _ _ hb
    refine ⟨(node.stop, names), (hmem _ _).mpr ⟨_, hnode, rfl⟩, (hf _ _ hnode _).mpr hb, ?_⟩
    rintro ⟨stop, other⟩ hin ⟨c, hc⟩
    obtain ⟨node', hnode', rfl⟩ := (hmem _ _).mp hin
    rcases hleast other c ((hf _ _ hnode' _).mp hc) with rfl | hR
    · -- the names decide the node, and that decides what the walk meets
      rw [Option.some.inj (hnode'.symm.trans hnode)]
      exact .inl rfl
    · exact .inr hR

section Stops

variable {top : Node}

/-- The stops of a walk from a root that leads to a node, with their paths. -/
def pathStops (root : Path) (top : Node) : List (Stop × Path) :=
  top.stops.map fun stop => (stop.1, root.joinAll stop.2)

theorem mem_stops_iff_nodeAt? (ht : t.WellFormed) (hroot : t.stat root = .ok top) :
    (stop, names) ∈ top.stops ↔ ∃ node, t.nodeAt? root names = some node ∧ node.stop = stop := by
  rw [mem_stops_iff (ht.stat hroot), FileTree.nodeAt?, hroot]

theorem mem_stops_of_qualifies (ht : t.WellFormed) (hroot : t.stat root = .ok top)
    (h : t.Qualifies root names key content) : (Stop.leaf, names) ∈ top.stops :=
  (mem_stops_iff_nodeAt? ht hroot).mpr (FileTree.exists_leaf_of_entryContent? h.content)

theorem mem_pathStops (ht : t.WellFormed) (hroot : t.stat root = .ok top) {node : Node}
    (h : t.nodeAt? root names = some node) : (node.stop, root.joinAll names) ∈ pathStops root top :=
  List.mem_map.mpr ⟨(node.stop, names), (mem_stops_iff_nodeAt? ht hroot).mpr ⟨node, h, rfl⟩, rfl⟩

/-- The first stop that a load fails at is the entry with the least location that blocks. -/
theorem findSome?_stopFailure?_eq_some_iff (ht : t.WellFormed) (hroot : t.stat root = .ok top) :
    (pathStops root top).findSome? (stopFailure? t) = some e ↔
      ∃ names, t.BlocksFirst root names e := by
  rw [pathStops, List.findSome?_map, findSome?_stops_eq_some_iff (R := Location.Before)
    (P := t.Blocks root) (fun _ _ => Std.Asymm.asymm _ _) (pairwise_stops (ht.stat hroot))
    (fun _ _ => mem_stops_iff_nodeAt? ht hroot) (fun _ _ hblocks => hblocks.exists_nodeAt?)
    (fun _ _ hnode _ => stopFailure?_eq_some_iff ht hnode)]
  apply exists_congr
  intro names
  constructor
  · rintro ⟨hblocks, hfirst⟩
    exact ⟨hblocks, hfirst⟩
  · rintro ⟨hblocks, hfirst⟩
    exact ⟨hblocks, hfirst⟩

/-- The last entry of a group that a load inserts is the group file with the greatest location. -/
theorem lookup_stopGroup?_eq_some_iff (ht : t.WellFormed) (hroot : t.stat root = .ok top)
    {g : Group} :
    ((pathStops root top).filterMap (stopGroup? t)).reverse.lookup key = some g ↔
      ∃ names, IsGroupFile t root key names g ∧ ∀ other g', IsGroupFile t root key other g' →
        other = names ∨ Location.Before other names := by
  have hanswer (names : List Name) (node : Node) (hnode : t.nodeAt? root names = some node)
      (g : Group) :
      ((stopGroup? t (node.stop, root.joinAll names)).bind fun entry =>
        if key == entry.1 then some entry.2 else none) = some g ↔
      IsGroupFile t root key names g := by
    rw [← stopGroup?_eq_some_iff ht hnode, Option.bind_eq_some_iff]
    constructor
    · rintro ⟨⟨key', g'⟩, hentry, hkey⟩
      obtain ⟨heq, hgroup⟩ := Option.ite_none_right_eq_some.mp hkey
      rw [hentry, eq_of_beq heq, ← Option.some.inj hgroup]
    · intro hentry
      exact ⟨_, hentry, by simp⟩
  -- the last entry of a key is the first answer along the stops in reverse
  rw [pathStops, ← List.filterMap_reverse, List.lookup_eq_findSome?, ← List.head?_filterMap,
    List.filterMap_filterMap, List.head?_filterMap, ← List.map_reverse, List.findSome?_map]
  exact findSome?_stops_eq_some_iff (R := fun a b => Location.Before b a)
    (fun _ _ => Std.Asymm.asymm _ _) (List.pairwise_reverse.mpr (pairwise_stops (ht.stat hroot)))
    (fun _ _ => by rw [List.mem_reverse]; exact mem_stops_iff_nodeAt? ht hroot)
    (fun _ _ hgroup => hgroup.choose_spec.1.exists_nodeAt?) hanswer

end Stops

/-! ## Failure and success -/

/-- Where entries block, one of them comes first. -/
theorem exists_blocksFirst (ht : t.WellFormed) (h : t.Blocks root names e) :
    ∃ first e, t.BlocksFirst root first e := by
  obtain ⟨node, hnode⟩ := h.exists_nodeAt?
  obtain ⟨top, hroot, -⟩ := FileTree.nodeAt?_eq_some_iff.mp hnode
  have hstop := mem_pathStops ht hroot hnode
  have hfailure := (stopFailure?_eq_some_iff ht hnode).mpr h
  obtain ⟨first, hfirst⟩ :
      ∃ first, (pathStops root top).findSome? (stopFailure? t) = some first := by
    rw [← Option.isSome_iff_exists, List.findSome?_isSome_iff]
    exact ⟨_, hstop, by rw [hfailure]; rfl⟩
  obtain ⟨least, hleast⟩ := (findSome?_stopFailure?_eq_some_iff ht hroot).mp hfirst
  exact ⟨least, first, hleast⟩

/-- A load below a root that leads somewhere. -/
theorem result_load {top : Node} (hroot : t.stat root = .ok top) :
    (load t root).result =
      match (pathStops root top).findSome? (stopFailure? t) with
      | some e => .error e
      | none => .ok (empty.insertAll ((pathStops root top).filterMap (stopGroup? t))) := by
  rw [load, FileTree.walk, hroot]
  exact result_loadStops empty _

/-- What a load reports. -/
theorem result_load_eq_error_iff (ht : t.WellFormed) :
    (load t root).result = .error e ↔
      (∃ cause, t.stat root = .error cause ∧ e = .walk root cause) ∨
        ∃ names, t.BlocksFirst root names e := by
  cases hroot : t.stat root with
  | error cause =>
    have hload : (load t root).result = .error (.walk root cause) := by
      rw [load, FileTree.walk, hroot]
      rfl
    -- below a root that leads nowhere there are no entries
    have hnone : ¬ ∃ names, t.BlocksFirst root names e := by
      rintro ⟨names, hblocks⟩
      obtain ⟨node, hnode⟩ := hblocks.blocks.exists_nodeAt?
      rw [FileTree.nodeAt?, hroot] at hnode
      exact absurd hnode (by simp)
    rw [hload, or_iff_left hnone]
    simp [eq_comm]
  | ok top =>
    rw [← findSome?_stopFailure?_eq_some_iff ht hroot, result_load hroot]
    cases (pathStops root top).findSome? (stopFailure? t) with
    | none => simp
    | some first => simp

/-- When a load succeeds, no entry blocks. -/
theorem not_blocks_of_result_load (ht : t.WellFormed) {c : Catalog}
    (h : (load t root).result = .ok c) : ¬ t.Blocks root names e := by
  intro hblocks
  obtain ⟨first, e, hfirst⟩ := exists_blocksFirst ht hblocks
  have herror := (result_load_eq_error_iff ht).mpr (.inr ⟨first, hfirst⟩)
  rw [h] at herror
  exact absurd herror (by simp)

/-- When a load succeeds, its root leads somewhere. -/
theorem exists_stat_of_result_load {c : Catalog} (h : (load t root).result = .ok c) :
    ∃ top, t.stat root = .ok top := by
  cases hroot : t.stat root with
  | error cause =>
    rw [load, FileTree.walk, hroot] at h
    exact absurd h (by simp [Except.map])
  | ok top => exact ⟨top, rfl⟩

/-- What a load finds under a name is the last entry of that name. -/
theorem find?_eq_lookup_of_result_load {c : Catalog} (h : (load t root).result = .ok c) :
    ∃ top, t.stat root = .ok top ∧
      c.find? key = ((pathStops root top).filterMap (stopGroup? t)).reverse.lookup key := by
  obtain ⟨top, hroot⟩ := exists_stat_of_result_load h
  refine ⟨top, hroot, ?_⟩
  rw [result_load hroot] at h
  split at h
  · exact absurd h (by simp)
  · rw [← Except.ok.inj h, find?_insertAll, find?_empty, Option.or_none]

theorem find?_of_result_load (ht : t.WellFormed) {c : Catalog} (h : (load t root).result = .ok c)
    {g : Group} :
    c.find? key = some g ↔
      ∃ names, IsGroupFile t root key names g ∧ ∀ other g', IsGroupFile t root key other g' →
        other = names ∨ Location.Before other names := by
  obtain ⟨top, hroot, hfind⟩ := find?_eq_lookup_of_result_load h
  rw [hfind]
  exact lookup_stopGroup?_eq_some_iff ht hroot

theorem exists_find?_of_result_load (ht : t.WellFormed) {c : Catalog}
    (h : (load t root).result = .ok c) {g : Group} (hfile : IsGroupFile t root key names g) :
    ∃ last, c.find? key = some last := by
  obtain ⟨top, hroot, hfind⟩ := find?_eq_lookup_of_result_load h
  obtain ⟨node, hnode⟩ := hfile.choose_spec.1.exists_nodeAt?
  have hstop := mem_pathStops ht hroot hnode
  have hentry : (key, g) ∈ (pathStops root top).filterMap (stopGroup? t) :=
    List.mem_filterMap.mpr ⟨_, hstop, (stopGroup?_eq_some_iff ht hnode).mpr hfile⟩
  rw [hfind, ← Option.isSome_iff_exists, List.lookup_isSome_iff]
  exact ⟨_, List.mem_reverse.mpr hentry, beq_self_eq_true key⟩

/-- When a load succeeds, each snippet file gives a group. -/
theorem exists_isGroupFile (ht : t.WellFormed) {c : Catalog} (h : (load t root).result = .ok c)
    (hfile : t.IsSnippetFile root names key content) : ∃ g, IsGroupFile t root key names g := by
  cases hsnippets : Snippet.ofBytes? content with
  | none =>
    have hblocks : t.Blocks root names (.io .invalidUtf8) :=
      .file hfile (Snippet.ofBytes?_eq_none_iff.mp hsnippets)
    exact absurd hblocks (not_blocks_of_result_load ht h)
  | some snippets => exact ⟨⟨root.joinAll names, snippets⟩, content, hfile, rfl, hsnippets⟩

theorem mem_names_of_result_load (ht : t.WellFormed) {c : Catalog}
    (h : (load t root).result = .ok c) :
    key ∈ c.names ↔ ∃ names content, t.IsSnippetFile root names key content := by
  rw [mem_names_iff]
  constructor
  · rintro ⟨g, hg⟩
    obtain ⟨names, ⟨content, hfile, -⟩, -⟩ := (find?_of_result_load ht h).mp hg
    exact ⟨names, content, hfile⟩
  · rintro ⟨names, content, hfile⟩
    obtain ⟨g, hg⟩ := exists_isGroupFile ht h hfile
    exact exists_find?_of_result_load ht h hg

theorem find?_eq_some_iff_isLastFile (ht : t.WellFormed) {c : Catalog}
    (h : (load t root).result = .ok c) {g : Group} :
    c.find? key = some g ↔ ∃ names content, t.IsLastFile root names key content ∧
      g.source = root.joinAll names ∧ Snippet.ofBytes? content = some g.snippets := by
  rw [find?_of_result_load ht h]
  constructor
  · rintro ⟨names, ⟨content, hfile, hsource, hsnippets⟩, hlast⟩
    refine ⟨names, content, ⟨hfile, ?_⟩, hsource, hsnippets⟩
    intro other otherContent hother
    obtain ⟨g', hg'⟩ := exists_isGroupFile ht h hother
    exact hlast other g' hg'
  · rintro ⟨names, content, ⟨hfile, hlast⟩, hsource, hsnippets⟩
    refine ⟨names, ⟨content, hfile, hsource, hsnippets⟩, ?_⟩
    rintro other g' ⟨otherContent, hother, -⟩
    exact hlast other otherContent hother

/-- **A load finds, under the name of each group, the snippet file with the greatest location.** It
fails when the root leads nowhere or an entry blocks, and reports the one with the least location.
Nothing is found below a link. -/
theorem load_eq_greatest_files {t : FileTree} (ht : t.WellFormed) (root : Path) :
    (∀ c, (load t root).result = .ok c →
      (∀ key, key ∈ c.names ↔ ∃ names content, t.IsSnippetFile root names key content) ∧
      ∀ key g, c.find? key = some g ↔
        ∃ names content, t.IsLastFile root names key content ∧
          g.source = root.joinAll names ∧ Snippet.ofBytes? content = some g.snippets) ∧
    ((∃ e, (load t root).result = .error e) ↔
      (∃ cause, t.stat root = .error cause) ∨ ∃ names e, t.Blocks root names e) ∧
    (∀ e, (load t root).result = .error e ↔
      (∃ cause, t.stat root = .error cause ∧ e = .walk root cause) ∨
        ∃ names, t.BlocksFirst root names e) ∧
    ∀ names target more key content, t.nodeAt? root names = some (.link target) →
      t.IsSnippetFile root (names ++ more) key content → more = [] := by
  refine ⟨?_, ?_, ?_, ?_⟩
  · intro c hc
    constructor
    · intro key
      exact mem_names_of_result_load ht hc
    · intro key g
      exact find?_eq_some_iff_isLastFile ht hc
  · constructor
    · rintro ⟨e, he⟩
      rcases (result_load_eq_error_iff ht).mp he with ⟨cause, hcause, -⟩ | ⟨names, hblocks⟩
      · exact .inl ⟨cause, hcause⟩
      · exact .inr ⟨names, e, hblocks.blocks⟩
    · rintro (⟨cause, hcause⟩ | ⟨names, e, hblocks⟩)
      · exact ⟨_, (result_load_eq_error_iff ht).mpr (.inl ⟨cause, hcause, rfl⟩)⟩
      · obtain ⟨first, e, hfirst⟩ := exists_blocksFirst ht hblocks
        exact ⟨e, (result_load_eq_error_iff ht).mpr (.inr ⟨first, hfirst⟩)⟩
  · intro e
    exact result_load_eq_error_iff ht
  · intro names target more key content hlink hfile
    exact hfile.eq_nil_of_link hlink

/-- A tree with two groups of two files each, and a link to one of the files. -/
def twoDirectories : FileTree where
  top := [(Path.ofText ['s'], .dir
    [(Path.ofText ['b'],
        .dir [(Path.ofText "y.snip".toList, .file (Utf8.encode "snippet q\n4\n".toList))]),
      (Path.ofText "a-b".toList,
        .dir [(Path.ofText "x.snip".toList, .file (Utf8.encode "snippet q\n2\n".toList))]),
      (Path.ofText ['a'],
        .dir [(Path.ofText "y.snip".toList, .file (Utf8.encode "snippet p\n3\n".toList)),
          (Path.ofText "x.snip".toList, .file (Utf8.encode "snippet p\n1\n".toList))]),
      (Path.ofText "l.snip".toList, .link (Path.ofText "a/x.snip".toList))])]
  workingDir := []

/-- Of the files `s/a/y.snip` and `s/b/y.snip` the second is found. Of `s/a/x.snip` and
`s/a-b/x.snip` the second is found too, although its path is the lesser byte string. -/
theorem load_eq_greatest_files_two_directories :
    twoDirectories.WellFormed ∧
      (∃ names content, twoDirectories.IsLastFile (Path.ofText ['s']) names ['y'] content ∧
        Path.joinAll (Path.ofText ['s']) names = Path.ofText "s/b/y.snip".toList) ∧
      ∃ names content, twoDirectories.IsLastFile (Path.ofText ['s']) names ['x'] content ∧
        Path.joinAll (Path.ofText ['s']) names = Path.ofText "s/a-b/x.snip".toList := by
  have ht : twoDirectories.WellFormed := by
    unfold FileTree.WellFormed twoDirectories
    refine .dir (by decide) (by decide) ?_
    rw [List.forall_mem_singleton]
    refine .dir (by decide) (by decide) ?_
    simp only [List.forall_mem_cons, List.not_mem_nil, false_imp_iff, implies_true, and_true]
    exact ⟨.dir (by decide) (by decide) (by simp [Node.WellFormed.file]),
      .dir (by decide) (by decide) (by simp [Node.WellFormed.file]),
      .dir (by decide) (by decide) (by simp [Node.WellFormed.file]), .link _⟩
  have hload : (load twoDirectories (Path.ofText ['s'])).result = .ok _ := rfl
  have hfind := ((load_eq_greatest_files ht (Path.ofText ['s'])).1 _ hload).2
  obtain ⟨namesY, contentY, hlastY, hsourceY, -⟩ := (hfind ['y'] _).mp rfl
  obtain ⟨namesX, contentX, hlastX, hsourceX, -⟩ := (hfind ['x'] _).mp rfl
  exact ⟨ht, ⟨namesY, contentY, hlastY, hsourceY.symm⟩, namesX, contentX, hlastX, hsourceX.symm⟩

/-! ## Paths that are too long -/

/-- The path `s` with slashes at its end. -/
def padded (count : Nat) : Path := Path.ofText ['s'] ++ List.replicate count Path.slash

theorem length_padded (count : Nat) : (padded count).length = count + 1 := by
  rw [padded, List.length_append, List.length_replicate]
  exact Nat.add_comm 1 count

/-- A padded path leads to the directory `s`. -/
theorem stat_padded {entries : Directory} {count : Nat} (h : count < FileTree.pathLimit) :
    FileTree.stat { top := [(Path.ofText ['s'], .dir entries)], workingDir := [] } (padded count) =
      .ok (.dir entries) := by
  have hzero : 0 ∉ padded count := by
    rw [padded, List.mem_append, List.mem_replicate]
    rintro (hmem | ⟨-, heq⟩)
    · exact absurd hmem (by decide)
    · exact absurd heq (by decide)
  have hne : padded count ≠ [] := List.ne_nil_of_length_pos (by rw [length_padded]; omega)
  have hcheck : FileTree.checkPath (padded count) = .ok () :=
    FileTree.checkPath_eq_ok_iff.mpr ⟨hzero, hne, by rw [length_padded]; exact h⟩
  refine FileTree.stat_eq_ok_iff.mpr
    ⟨[Path.ofText ['s']], FileTree.resolve_eq_ok_iff.mpr ⟨hcheck, ?_⟩⟩
  rw [padded, Path.steps_append_slashes]
  rfl

/-- Below a root of the greatest length, the path of every entry is too long. -/
theorem pathLimit_lt_length_padded {name : Name} (h : name ≠ []) :
    FileTree.pathLimit < (Path.joinAll (padded 4094) [name]).length := by
  have hlt := Path.length_lt_join (padded 4094) h
  rw [length_padded] at hlt
  rw [Path.joinAll_cons, Path.joinAll_nil]
  exact hlt

/-- A tree with one snippet file below `s`. -/
def oneFile : FileTree where
  top := [(Path.ofText ['s'], .dir
    [(Path.ofText "x.snip".toList, .file (Utf8.encode "snippet a\n  x\n".toList))])]
  workingDir := []

/-- A tree with one directory below `s`. -/
def oneDirectory : FileTree where
  top := [(Path.ofText ['s'], .dir [(Path.ofText ['d'], .dir [])])]
  workingDir := []

theorem wellFormed_oneFile : oneFile.WellFormed := by
  unfold FileTree.WellFormed oneFile
  refine .dir (by decide) (by decide) ?_
  rw [List.forall_mem_singleton]
  exact .dir (by decide) (by decide) (by simp [Node.WellFormed.file])

theorem wellFormed_oneDirectory : oneDirectory.WellFormed := by
  unfold FileTree.WellFormed oneDirectory
  refine .dir (by decide) (by decide) ?_
  rw [List.forall_mem_singleton]
  refine .dir (by decide) (by decide) ?_
  rw [List.forall_mem_singleton]
  exact .dir (by decide) (by decide) (by simp)

/-- The snippet file below `s` cannot be opened by its path below the padded root. -/
theorem not_isSnippetFile_oneFile {names : List Name} {key : Text} {content : Bytes} :
    ¬ oneFile.IsSnippetFile (padded 4094) names key content := by
  intro h
  -- the only leaf of the walk is the file, and its path is longer than the root's
  have hmem := mem_stops_of_qualifies wellFormed_oneFile (stat_padded (by decide)) h.toQualifies
  have hnames : (Stop.leaf, names) ∈
      [(Stop.directory, []), (Stop.leaf, [Path.ofText "x.snip".toList])] := hmem
  obtain rfl : names = [Path.ofText "x.snip".toList] := by simpa using hnames
  exact Nat.not_le.mpr (pathLimit_lt_length_padded (by decide)) h.length_le

theorem exists_load_oneFile : ∃ c, (load oneFile (padded 4094)).result = .ok c := by
  cases hload : (load oneFile (padded 4094)).result with
  | ok c => exact ⟨c, rfl⟩
  | error e =>
    have hroot : oneFile.stat (padded 4094) = .ok _ := stat_padded (by decide)
    rcases (result_load_eq_error_iff wellFormed_oneFile).mp hload with
      ⟨cause, hcause, -⟩ | ⟨names, hblocks, -⟩
    · rw [hroot] at hcause
      exact absurd hcause (by simp)
    · cases hblocks with
      | file h _ => exact absurd h not_isSnippetFile_oneFile
      | directory h hlength =>
        have hmem : (Stop.directory, names) ∈
            [(Stop.directory, []), (Stop.leaf, [Path.ofText "x.snip".toList])] :=
          (mem_stops_iff_nodeAt? wellFormed_oneFile hroot).mpr ⟨_, h, rfl⟩
        obtain rfl : names = [] := by simpa using hmem
        rw [Path.joinAll_nil, length_padded] at hlength
        exact absurd hlength (by decide)

/-- Without the limit on paths, the keys and the failures of a load are others: a snippet file whose
path is too long is passed over, and a directory whose path is too long ends the load. -/
theorem load_padded_root :
    (¬ ∀ c, (load oneFile (padded 4094)).result = .ok c → ∀ key, key ∈ c.names ↔
      ∃ names content, oneFile.Qualifies (padded 4094) names key content) ∧
    ¬ ((∃ e, (load oneDirectory (padded 4094)).result = .error e) ↔
      (∃ cause, oneDirectory.stat (padded 4094) = .error cause) ∨
        ∃ names key content, oneDirectory.Qualifies (padded 4094) names key content ∧
          Utf8.decode content = none) := by
  constructor
  · intro hclaim
    obtain ⟨c, hload⟩ := exists_load_oneFile
    have hqualifies : oneFile.Qualifies (padded 4094) [Path.ofText "x.snip".toList] ['x']
        (Utf8.encode "snippet a\n  x\n".toList) := by
      refine ⟨?_, _, rfl, Path.ofText ['x'], by decide, by decide, by decide⟩
      rw [FileTree.entryContent?, FileTree.nodeAt?, oneFile, stat_padded (by decide)]
      rfl
    have hkey := (hclaim c hload ['x']).mpr ⟨_, _, hqualifies⟩
    obtain ⟨g, hg⟩ := mem_names_iff.mp hkey
    obtain ⟨names, ⟨content, hfile, -⟩, -⟩ := (find?_of_result_load wellFormed_oneFile hload).mp hg
    exact not_isSnippetFile_oneFile hfile
  · intro hclaim
    have hroot : oneDirectory.stat (padded 4094) = .ok _ := stat_padded (by decide)
    have hne : Path.ofText ['d'] ≠ [] := by decide
    have hentry : oneDirectory.nodeAt? (padded 4094) [Path.ofText ['d']] = some (.dir []) := by
      rw [FileTree.nodeAt?, hroot]
      rfl
    obtain ⟨first, e, hfirst⟩ :=
      exists_blocksFirst wellFormed_oneDirectory (.directory hentry (pathLimit_lt_length_padded hne))
    have herror := (result_load_eq_error_iff wellFormed_oneDirectory).mpr (.inr ⟨first, hfirst⟩)
    rcases hclaim.mp ⟨e, herror⟩ with ⟨cause, hcause⟩ | ⟨names, key, content, hqualifies, -⟩
    · rw [hroot] at hcause
      exact absurd hcause (by simp)
    · have hmem : (Stop.leaf, names) ∈
          [(Stop.directory, []), (Stop.directory, [Path.ofText ['d']])] :=
        mem_stops_of_qualifies wellFormed_oneDirectory hroot hqualifies
      exact absurd hmem (by simp)

end Catalog

end Snippets
