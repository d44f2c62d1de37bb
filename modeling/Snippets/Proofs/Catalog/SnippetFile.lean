/-
# Snippets.Proofs.Catalog.SnippetFile — the snippet files below a root

An entry at or below a root is the list of names that leads to it. It is a snippet file when it is a
regular file, or a link that resolves to one, and its name is a stem that is valid UTF-8, followed by
the extension of snippet files; the stem is the name of a group. The file name of the root itself is
the name of the entry without names.

A load meets the stops of a walk and goes by their paths. What it takes from a stop (`stopFile?`) is
the group and the content of a snippet file, and it fails at a stop (`stopFailure?`) when the entry
there *blocks*: a directory whose path is too long to be opened, or a snippet file that is not valid
UTF-8.
-/
import Mathlib.Data.List.TakeWhile
import Snippets.Proofs.FileTree.Descent
import Snippets.Proofs.FileTree.WalkOrder
import Snippets.Proofs.Snippet.Stream

namespace Snippets

/-! ## Names of snippet files -/

namespace Path

/-- The extension is what stands behind the last dot, unless that is the first character. -/
theorem splitExtension_eq_some_iff {name stem extension : Name} :
    splitExtension name = (stem, some extension) ↔
      stem ≠ [] ∧ name = stem ++ dot :: extension ∧ dot ∉ extension := by
  constructor
  · intro h
    have hwhole := List.takeWhile_append_dropWhile (p := (· ≠ dot)) (l := name.reverse)
    unfold splitExtension at h
    dsimp only at h
    split at h
    · exact absurd (Prod.mk.inj h).2 (by simp)
    · exact absurd (Prod.mk.inj h).2 (by simp)
    · -- read from its end, the name is the extension, a dot, and what is left
      rename_i first before hne hdrop
      obtain ⟨rfl, hextension⟩ := Prod.mk.inj h
      obtain rfl := Option.some.inj hextension
      have hfirst := List.head?_dropWhile_not (p := (· ≠ dot)) (l := name.reverse)
      rw [hdrop] at hwhole hfirst
      obtain rfl : first = dot := by simpa using hfirst
      refine ⟨?_, ?_, ?_⟩
      · intro hnil
        exact hne (List.reverse_eq_nil_iff.mp hnil)
      · have hname := congrArg List.reverse hwhole
        rw [List.reverse_reverse] at hname
        refine hname.symm.trans ?_
        rw [List.reverse_append, List.reverse_cons, List.append_assoc, List.singleton_append]
      · intro hmem
        have hnot := List.mem_takeWhile_imp (List.mem_reverse.mp hmem)
        exact absurd hnot (by simp)
  · rintro ⟨hne, rfl, hdot⟩
    have hreverse : (stem ++ dot :: extension).reverse = extension.reverse ++ dot :: stem.reverse := by
      simp
    have hall : ∀ b ∈ extension.reverse, decide (b ≠ dot) = true := by
      intro b hb
      have hmem : b ∈ extension := List.mem_reverse.mp hb
      simpa using fun heq : b = dot => hdot (heq ▸ hmem)
    obtain ⟨first, rest, hstem⟩ := List.exists_cons_of_ne_nil (List.reverse_ne_nil_iff.mpr hne)
    rw [splitExtension, hreverse, List.takeWhile_append_of_pos hall, List.dropWhile_append_of_pos hall,
      List.takeWhile_cons_of_neg (by simp), List.dropWhile_cons_of_neg (by simp), hstem]
    dsimp only
    rw [← hstem]
    simp

end Path

/-- The name of a snippet file of a group: a stem that is the name of the group, and the extension
of snippet files. -/
def Name.NamesGroup (name : Name) (key : Text) : Prop :=
  ∃ stem, stem ≠ [] ∧ name = stem ++ Path.dot :: snippetExtension ∧ Utf8.decode stem = some key

theorem groupName?_eq_some_iff {p : Path} {key : Text} :
    groupName? p = some key ↔ ∃ name, p.fileName? = some name ∧ name.NamesGroup key := by
  unfold groupName? Name.NamesGroup
  cases p.fileName? with
  | none => simp
  | some name =>
    dsimp only
    constructor
    · intro h
      split at h
      · rename_i stem extension hsplit
        split at h
        · rename_i hextension
          obtain ⟨hne, hname, -⟩ := Path.splitExtension_eq_some_iff.mp hsplit
          exact ⟨name, rfl, stem, hne, hextension ▸ hname, h⟩
        · exact absurd h (by simp)
      · exact absurd h (by simp)
    · rintro ⟨_, hname, stem, hne, rfl, hkey⟩
      obtain rfl := Option.some.inj hname
      have hsplit : Path.splitExtension (stem ++ Path.dot :: snippetExtension) =
          (stem, some snippetExtension) :=
        Path.splitExtension_eq_some_iff.mpr ⟨hne, rfl, by decide⟩
      rw [hsplit]
      simpa using hkey

/-! ## Entries -/

namespace FileTree

variable {t : FileTree} {root : Path} {names : List Name} {key : Text} {content : Bytes}

/-- The node at the names below what a root leads to. -/
def nodeAt? (t : FileTree) (root : Path) (names : List Name) : Option Node :=
  match t.stat root with
  | .error _ => none
  | .ok top => top.below? names

/-- The name of an entry: the last of the names below the root, or that of the root itself. -/
def entryName? (root : Path) (names : List Name) : Option Name :=
  match names.getLast? with
  | some name => some name
  | none => root.fileName?

/-- The content of an entry that is a regular file, or a link that resolves to one. -/
def entryContent? (t : FileTree) (root : Path) (names : List Name) : Option Bytes :=
  match t.nodeAt? root names with
  | some (.file content) => some content
  | some (.link _) =>
    match t.stat (root.joinAll names) with
    | .ok (.file content) => some content
    | _ => none
  | _ => none

/-- An entry that is a snippet file of a group by what it is and how it is named. -/
structure Qualifies (t : FileTree) (root : Path) (names : List Name) (key : Text)
    (content : Bytes) : Prop where
  /-- It is a regular file with that content, or a link that resolves to one. -/
  content : t.entryContent? root names = some content
  /-- Its name is that of a snippet file of the group. -/
  name : ∃ name, entryName? root names = some name ∧ name.NamesGroup key

/-- A snippet file that can be opened. -/
structure IsSnippetFile (t : FileTree) (root : Path) (names : List Name) (key : Text)
    (content : Bytes) : Prop extends t.Qualifies root names key content where
  /-- Its path is not too long. -/
  length_le : (root.joinAll names).length ≤ pathLimit

/-- The snippet file of a group with the greatest location. -/
structure IsLastFile (t : FileTree) (root : Path) (names : List Name) (key : Text)
    (content : Bytes) : Prop where
  /-- It is a snippet file of the group. -/
  file : t.IsSnippetFile root names key content
  /-- All others of the group come before it. -/
  last : ∀ other otherContent, t.IsSnippetFile root other key otherContent →
    other = names ∨ Location.Before other names

/-- An entry that a load fails at. -/
inductive Blocks (t : FileTree) (root : Path) (names : List Name) : Failure → Prop
  /-- A directory whose path is too long. -/
  | directory {entries : List (Name × Node)} (h : t.nodeAt? root names = some (.dir entries))
      (hlength : pathLimit < (root.joinAll names).length) :
      Blocks t root names (.walk (root.joinAll names) (.os .nameTooLong))
  /-- A snippet file that is not valid UTF-8. -/
  | file {key : Text} {content : Bytes} (h : t.IsSnippetFile root names key content)
      (hcontent : Utf8.decode content = none) : Blocks t root names (.io .invalidUtf8)

/-- The entry with the least location that a load fails at. -/
structure BlocksFirst (t : FileTree) (root : Path) (names : List Name) (e : Failure) : Prop where
  /-- The load fails at it. -/
  blocks : t.Blocks root names e
  /-- It comes before all others that the load fails at. -/
  first : ∀ other otherFailure, t.Blocks root other otherFailure →
    other = names ∨ Location.Before names other

theorem nodeAt?_eq_some_iff {node : Node} :
    t.nodeAt? root names = some node ↔ ∃ top, t.stat root = .ok top ∧ top.below? names = some node := by
  unfold nodeAt?
  cases t.stat root <;> simp

/-- An entry with a content is a file or a link. -/
theorem exists_leaf_of_entryContent? (h : t.entryContent? root names = some content) :
    ∃ node, t.nodeAt? root names = some node ∧ node.stop = .leaf := by
  unfold entryContent? at h
  split at h
  · exact ⟨_, ‹_›, rfl⟩
  · exact ⟨_, ‹_›, rfl⟩
  · exact absurd h (by simp)

theorem IsSnippetFile.exists_nodeAt? (h : t.IsSnippetFile root names key content) :
    ∃ node, t.nodeAt? root names = some node := by
  obtain ⟨node, hnode, -⟩ := exists_leaf_of_entryContent? h.content
  exact ⟨node, hnode⟩

/-- Nothing below a link is a snippet file. -/
theorem IsSnippetFile.eq_nil_of_link {more : List Name} {target : Path}
    (hlink : t.nodeAt? root names = some (.link target))
    (h : t.IsSnippetFile root (names ++ more) key content) : more = [] := by
  obtain ⟨node, hnode⟩ := h.exists_nodeAt?
  obtain ⟨top, hroot, hbelow⟩ := nodeAt?_eq_some_iff.mp hlink
  obtain ⟨top', hroot', hbelow'⟩ := nodeAt?_eq_some_iff.mp hnode
  obtain rfl := Except.ok.inj (hroot.symm.trans hroot')
  rw [Node.below?_append, hbelow] at hbelow'
  cases more with
  | nil => rfl
  | cons next more => exact absurd hbelow' (by simp [Node.below?])

theorem Blocks.exists_nodeAt? {e : Failure} (h : t.Blocks root names e) :
    ∃ node, t.nodeAt? root names = some node := by
  cases h with
  | directory h _ => exact ⟨_, h⟩
  | file h _ => exact h.exists_nodeAt?

/-! ## Paths of entries -/

/-- The file name of a joined path is the name of the entry. -/
theorem fileName?_joinAll (h : ∀ name ∈ names, name.IsEntry) :
    (root.joinAll names).fileName? = entryName? root names := by
  rcases List.eq_nil_or_concat' names with rfl | ⟨init, last, rfl⟩
  · rfl
  · rw [Path.joinAll_concat, Path.fileName?_join _ (h last (by simp)), entryName?,
      List.getLast?_concat]

/-- The names of an entry are names that a directory can hold. -/
theorem WellFormed.isEntry (ht : t.WellFormed) {node : Node}
    (h : t.nodeAt? root names = some node) : ∀ name ∈ names, name.IsEntry := by
  obtain ⟨top, hroot, hbelow⟩ := nodeAt?_eq_some_iff.mp h
  exact ((ht.stat hroot).descend hbelow).2

/-- The path of a file or link below a root leads to a file when the entry has a content and the
path is not too long. -/
theorem stat_eq_file_iff (ht : t.WellFormed) {node : Node} (h : t.nodeAt? root names = some node)
    (hleaf : node.stop = .leaf) :
    t.stat (root.joinAll names) = .ok (.file content) ↔
      t.entryContent? root names = some content ∧ (root.joinAll names).length ≤ pathLimit := by
  obtain ⟨top, hroot, hbelow⟩ := nodeAt?_eq_some_iff.mp h
  have hlength (hstat : t.stat (root.joinAll names) = .ok (.file content)) :
      (root.joinAll names).length ≤ pathLimit :=
    (checkPath_eq_ok_iff.mp (checkPath_of_stat hstat)).2.2
  rw [entryContent?, h]
  cases node with
  | dir entries => exact absurd hleaf (by simp [Node.stop])
  | link target =>
    -- what a link resolves to is what its path leads to
    constructor
    · intro hstat
      exact ⟨by rw [hstat], hlength hstat⟩
    · rintro ⟨hcontent, -⟩
      dsimp only at hcontent
      split at hcontent
      · rename_i hstat
        rw [hstat, Option.some.inj hcontent]
      · exact absurd hcontent (by simp)
  | file inner =>
    have hfile (hle : (root.joinAll names).length ≤ pathLimit) :
        t.stat (root.joinAll names) = .ok (.file inner) :=
      stat_joinAll hroot (ht.isEntry h) hbelow (by simp) hle
    constructor
    · intro hstat
      refine ⟨?_, hlength hstat⟩
      rw [hfile (hlength hstat)] at hstat
      rw [Node.file.inj (Except.ok.inj hstat)]
    · rintro ⟨hcontent, hle⟩
      rw [hfile hle, Option.some.inj hcontent]

/-- The path of a directory at or below a root can be opened unless it is too long. -/
theorem checkPath_joinAll (ht : t.WellFormed) {node : Node}
    (h : t.nodeAt? root names = some node) :
    checkPath (root.joinAll names) =
      if pathLimit < (root.joinAll names).length then .error (.os .nameTooLong) else .ok () := by
  obtain ⟨top, hroot, -⟩ := nodeAt?_eq_some_iff.mp h
  obtain ⟨hzero, hne, -⟩ := checkPath_eq_ok_iff.mp (checkPath_of_stat hroot)
  have hnames := ht.isEntry h
  have hnonempty : root.joinAll names ≠ [] := by
    rcases List.eq_nil_or_concat' names with rfl | ⟨init, last, rfl⟩
    · exact hne
    · rw [Path.joinAll_concat]
      exact Path.join_ne_nil _ (hnames last (by simp)).ne_nil
  have hcontains : (root.joinAll names).contains 0 = false := by
    simpa using Path.zero_notMem_joinAll hzero hnames
  rw [checkPath, hcontains, if_neg (by simp), if_neg (by simpa using hnonempty)]

end FileTree

end Snippets
