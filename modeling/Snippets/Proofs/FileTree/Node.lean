/-
# Snippets.Proofs.FileTree.Node — what lies below a node, and well-formed trees

`Node.below?` goes down a list of names from a node, directory by directory and never through a
link. A node is well formed when in every directory below it the names are distinct and each is a
name that a file system can hold: not empty, at most 255 bytes, without a slash and without the byte
zero, and neither `.` nor `..`. A well-formed tree is what a file system hands to a program; the type
of trees has more values than that.
-/
import Mathlib.Data.List.Nodup
import Snippets.FileTree.Resolve

namespace Snippets

/-! ## Going down -/

/-- The node at a list of names below a node. Links are not followed. -/
def Node.below? : Node → List Name → Option Node
  | node, [] => some node
  | .dir d, name :: names => (d.lookup name).bind fun inner => inner.below? names
  | .file _, _ :: _ => none
  | .link _, _ :: _ => none

namespace Node

@[simp] theorem below?_nil (node : Node) : node.below? [] = some node := by
  cases node <;> rfl

@[simp] theorem below?_dir_cons (d : Directory) (name : Name) (names : List Name) :
    (dir d).below? (name :: names) = (d.lookup name).bind fun inner => inner.below? names := rfl

theorem below?_append (node : Node) (names more : List Name) :
    node.below? (names ++ more) = (node.below? names).bind fun inner => inner.below? more := by
  induction names generalizing node with
  | nil => simp
  | cons name names ih =>
    cases node with
    | dir d =>
      rw [List.cons_append, below?_dir_cons, below?_dir_cons, Option.bind_assoc]
      exact Option.bind_congr fun inner _ => ih inner
    | file content => rfl
    | link target => rfl

end Node

/-- Looking up names in a directory is going down from it. -/
theorem Directory.get?_eq_below? (d : Directory) (names : List Name) :
    d.get? names = (Node.dir d).below? names := by
  induction names generalizing d with
  | nil => rfl
  | cons name names ih =>
    cases names with
    | nil => simp [get?]
    | cons next names =>
      rw [get?, Node.below?_dir_cons]
      cases d.lookup name with
      | none => rfl
      | some node =>
        cases node with
        | dir inner => exact ih inner
        | file content => rfl
        | link target => rfl

theorem FileTree.get?_eq_below? (t : FileTree) (names : List Name) :
    t.get? names = (Node.dir t.top).below? names :=
  t.top.get?_eq_below? names

@[simp] theorem FileTree.get?_nil (t : FileTree) : t.get? [] = some (.dir t.top) := rfl

/-! ## Well-formed nodes -/

/-- A name that a directory can hold. -/
structure Name.IsEntry (name : Name) : Prop where
  /-- It is not empty. -/
  ne_nil : name ≠ []
  /-- It holds no slash. -/
  slash_notMem : Path.slash ∉ name
  /-- It does not hold the byte zero. -/
  zero_notMem : 0 ∉ name
  /-- It is not the directory itself. -/
  ne_here : name ≠ Path.here
  /-- It is not the directory above. -/
  ne_up : name ≠ Path.up
  /-- It is not too long. -/
  length_le : name.length ≤ FileTree.nameLimit

instance (name : Name) : Decidable name.IsEntry :=
  decidable_of_iff
    (name ≠ [] ∧ Path.slash ∉ name ∧ 0 ∉ name ∧ name ≠ Path.here ∧ name ≠ Path.up ∧
      name.length ≤ FileTree.nameLimit)
    ⟨fun ⟨hne, hslash, hzero, hhere, hup, hlength⟩ => ⟨hne, hslash, hzero, hhere, hup, hlength⟩,
      fun ⟨hne, hslash, hzero, hhere, hup, hlength⟩ => ⟨hne, hslash, hzero, hhere, hup, hlength⟩⟩

/-- A node whose directories hold distinct names of entries. -/
inductive Node.WellFormed : Node → Prop
  | file (content : Bytes) : WellFormed (.file content)
  | link (target : Path) : WellFormed (.link target)
  | dir {entries : List (Name × Node)} (distinct : (entries.map Prod.fst).Nodup)
      (names : ∀ e ∈ entries, e.1.IsEntry) (nodes : ∀ e ∈ entries, e.2.WellFormed) :
      WellFormed (.dir entries)

/-- A file tree that is well formed. -/
def FileTree.WellFormed (t : FileTree) : Prop := (Node.dir t.top).WellFormed

/-- Looking a name up finds an entry of that name. -/
theorem mem_of_lookup {α : Type} {name : Name} {node : α} {entries : List (Name × α)}
    (h : entries.lookup name = some node) : (name, node) ∈ entries := by
  obtain ⟨front, back, rfl, -⟩ := List.lookup_eq_some_iff.mp h
  simp

/-- Of distinct names, looking one up finds its entry. -/
theorem lookup_of_mem {α : Type} {name : Name} {node : α} {entries : List (Name × α)}
    (distinct : (entries.map Prod.fst).Nodup) (h : (name, node) ∈ entries) :
    entries.lookup name = some node := by
  obtain ⟨front, back, rfl⟩ := List.append_of_mem h
  rw [List.map_append, List.map_cons] at distinct
  have hfront : name ∉ front.map Prod.fst := by
    intro hmem
    exact List.disjoint_of_nodup_append distinct hmem List.mem_cons_self
  refine List.lookup_eq_some_iff.mpr ⟨front, back, rfl, ?_⟩
  intro e he
  have hne : name ≠ e.1 := by
    intro heq
    rw [heq] at hfront
    exact hfront (List.mem_map_of_mem he)
  simpa using hne

namespace Node.WellFormed

/-- What lies below a well-formed node is well formed, and reached by names of entries. -/
theorem descend {node inner : Node} (h : node.WellFormed) {names : List Name}
    (hbelow : node.below? names = some inner) :
    inner.WellFormed ∧ ∀ name ∈ names, name.IsEntry := by
  induction names generalizing node with
  | nil =>
    obtain rfl := Option.some.inj ((node.below?_nil).symm.trans hbelow)
    exact ⟨h, by simp⟩
  | cons name names ih =>
    cases h with
    | file content => exact absurd hbelow (by simp [Node.below?])
    | link target => exact absurd hbelow (by simp [Node.below?])
    | dir distinct hnames hnodes =>
      obtain ⟨next, hlookup, hnext⟩ := Option.bind_eq_some_iff.mp hbelow
      have hmem := mem_of_lookup hlookup
      obtain ⟨hinner, hmore⟩ := ih (hnodes _ hmem) hnext
      exact ⟨hinner, List.forall_mem_cons.mpr ⟨hnames _ hmem, hmore⟩⟩

end Node.WellFormed

end Snippets
