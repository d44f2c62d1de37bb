/-
# Snippets.Proofs.FileTree.Change — a change to one location

What stands at a location is told by its kind: a file with its content, a link with its target, or a
directory, its entries left out. Locations are compared by kind, because a change below a directory
changes its entries.

Putting a file or an empty directory under a name of a directory, where no directory stands, changes
what stands at that location and nowhere else (`kind?_put`).
-/
import Snippets.Proofs.FileTree.Descent

namespace Snippets

/-! ## Kinds -/

/-- What a node is, apart from the entries of a directory. -/
inductive Kind where
  /-- A regular file with its content. -/
  | file (content : Bytes)
  /-- A symbolic link with its target. -/
  | link (target : Path)
  /-- A directory. -/
  | dir
deriving DecidableEq

/-- The kind of a node. -/
def Node.kind : Node → Kind
  | file content => .file content
  | link target => .link target
  | dir _ => .dir

namespace Directory

variable {d inner : Directory} {above loc : List Name} {name : Name} {node : Node}

/-- The kind of what stands at a list of names below a directory. -/
def kind? (d : Directory) (loc : List Name) : Option Kind := (d.get? loc).map Node.kind

@[simp] theorem kind?_nil (d : Directory) : d.kind? [] = some .dir := rfl

theorem kind?_cons (d : Directory) (key : Name) (rest : List Name) :
    d.kind? (key :: rest) = ((d.lookup key).bind (·.below? rest)).map Node.kind := by
  rw [kind?, get?_eq_below?, Node.below?_dir_cons]

theorem kind?_cons_of_lookup {key : Name} (h : d.lookup key = some (.dir inner))
    (rest : List Name) : d.kind? (key :: rest) = inner.kind? rest := by
  rw [kind?_cons, h, kind?, get?_eq_below?]
  rfl

theorem lookup_of_get?_cons {key : Name} {rest : List Name} {found : Directory}
    (h : d.get? (key :: rest) = some (.dir found)) :
    ∃ inner : Directory, d.lookup key = some (.dir inner) ∧ inner.get? rest = some (.dir found) := by
  rw [get?_eq_below?, Node.below?_dir_cons] at h
  obtain ⟨next, hlookup, hnext⟩ := Option.bind_eq_some_iff.mp h
  cases next with
  | dir inner => exact ⟨inner, hlookup, by rw [get?_eq_below?, hnext]⟩
  | file content => cases rest <;> simp [Node.below?] at hnext
  | link target => cases rest <;> simp [Node.below?] at hnext

/-! ## Putting a node -/

theorem lookup_cons_eq (key first : Name) (node : Node) (rest : Directory) :
    List.lookup key ((first, node) :: rest) =
      if key = first then some node else List.lookup key rest := by
  rw [List.lookup_cons]
  by_cases h : key = first
  · simp [h]
  · rw [if_neg h, beq_eq_false_iff_ne.mpr h]

theorem lookup_set (d : Directory) (name key : Name) (node : Node) :
    (d.set name node).lookup key = if key = name then some node else d.lookup key := by
  induction d with
  | nil => exact lookup_cons_eq key name node []
  | cons entry rest ih =>
    obtain ⟨first, old⟩ := entry
    unfold set
    split
    · rename_i hfirst
      subst hfirst
      rw [lookup_cons_eq, lookup_cons_eq]
      split <;> rfl
    · rename_i hfirst
      rw [lookup_cons_eq, lookup_cons_eq, ih]
      by_cases h : key = first
      · subst h
        rw [if_pos rfl, if_neg hfirst, if_pos rfl]
      · rw [if_neg h, if_neg h]

theorem put_cons {key : Name} (h : d.lookup key = some (.dir inner)) {rest : List Name}
    (hrest : rest ≠ []) : d.put (key :: rest) node = d.set key (.dir (inner.put rest node)) := by
  cases rest with
  | nil => exact absurd rfl hrest
  | cons next rest => rw [put, h]

/-- Nothing lies below a node that is no directory, or an empty one. -/
theorem below?_eq_none_of_bare (hbare : ∀ entries, node = .dir entries → entries = [])
    {rest : List Name} (hrest : rest ≠ []) : node.below? rest = none := by
  cases rest with
  | nil => exact absurd rfl hrest
  | cons next rest =>
    cases node with
    | dir entries =>
      rw [hbare entries rfl]
      rfl
    | file content => rfl
    | link target => rfl

/-- A node put under a name of a directory, where no directory stands. -/
theorem kind?_set (hfree : ∀ inner, d.lookup name ≠ some (.dir inner))
    (hbare : ∀ entries, node = .dir entries → entries = []) (loc : List Name) :
    (d.set name node).kind? loc = if loc = [name] then some node.kind else d.kind? loc := by
  cases loc with
  | nil => simp
  | cons key rest =>
    rw [kind?_cons, kind?_cons, lookup_set]
    by_cases hkey : key = name
    · subst hkey
      cases rest with
      | nil => simp
      | cons next rest =>
        -- nothing lies below the node put, and nothing lay below what stood there
        have hnew := below?_eq_none_of_bare hbare (List.cons_ne_nil next rest)
        have hold : (d.lookup key).bind (·.below? (next :: rest)) = none := by
          cases hlookup : d.lookup key with
          | none => rfl
          | some old =>
            cases old with
            | dir inner => exact absurd hlookup (hfree inner)
            | file content => rfl
            | link target => rfl
        simp [hnew, hold]
    · simp [hkey]

/-- A directory of a directory changed below. -/
theorem kind?_set_dir (d : Directory) (first : Name) (changed : Directory) (key : Name)
    (rest : List Name) :
    (d.set first (.dir changed)).kind? (key :: rest) =
      if key = first then changed.kind? rest else d.kind? (key :: rest) := by
  by_cases hkey : key = first
  · subst hkey
    rw [if_pos rfl]
    exact kind?_cons_of_lookup (by rw [lookup_set, if_pos rfl]) rest
  · rw [if_neg hkey, kind?_cons, kind?_cons, lookup_set, if_neg hkey]

theorem kind?_put {found : Directory} (habove : d.get? above = some (.dir found))
    (hfree : ∀ inner, d.get? (above ++ [name]) ≠ some (.dir inner))
    (hbare : ∀ entries, node = .dir entries → entries = []) (loc : List Name) :
    (d.put (above ++ [name]) node).kind? loc =
      if loc = above ++ [name] then some node.kind else d.kind? loc := by
  induction above generalizing d loc with
  | nil => exact kind?_set hfree hbare loc
  | cons first above ih =>
    obtain ⟨inner, hlookup, hinner⟩ := lookup_of_get?_cons habove
    have hput : d.put (first :: above ++ [name]) node =
        d.set first (.dir (inner.put (above ++ [name]) node)) :=
      put_cons hlookup (by simp)
    have hnext (next : Directory) : inner.get? (above ++ [name]) ≠ some (.dir next) := by
      have hsame : d.get? (first :: above ++ [name]) = inner.get? (above ++ [name]) := by
        rw [List.cons_append, get?_eq_below?, get?_eq_below?, Node.below?_dir_cons, hlookup]
        rfl
      rw [← hsame]
      exact hfree next
    rw [hput]
    cases loc with
    | nil => simp
    | cons key rest =>
      rw [kind?_set_dir]
      by_cases hkey : key = first
      · subst hkey
        rw [kind?_cons_of_lookup hlookup, if_pos rfl, ih hinner hnext rest]
        simp
      · simp [hkey]

end Directory

namespace FileTree

variable {t : FileTree} {d : Directory} {above loc : List Name} {name : Name} {node : Node}

/-- The kind of what stands at a location. -/
def kind? (t : FileTree) (loc : List Name) : Option Kind := t.top.kind? loc

theorem kind?_eq_map (t : FileTree) (loc : List Name) :
    t.kind? loc = (t.get? loc).map Node.kind := rfl

theorem kind?_eq_file_iff {content : Bytes} :
    t.kind? loc = some (.file content) ↔ t.get? loc = some (.file content) := by
  rw [kind?_eq_map]
  cases t.get? loc with
  | none => simp
  | some node => cases node <;> simp [Node.kind]

theorem kind?_eq_link_iff {target : Path} :
    t.kind? loc = some (.link target) ↔ t.get? loc = some (.link target) := by
  rw [kind?_eq_map]
  cases t.get? loc with
  | none => simp
  | some node => cases node <;> simp [Node.kind]

theorem kind?_eq_dir_iff : t.kind? loc = some .dir ↔ ∃ d, t.get? loc = some (.dir d) := by
  rw [kind?_eq_map]
  cases t.get? loc with
  | none => simp
  | some node => cases node <;> simp [Node.kind]

theorem kind?_eq_none_iff : t.kind? loc = none ↔ t.get? loc = none := Option.map_eq_none_iff

/-- Only a directory has something below it. -/
theorem get?_of_get?_concat (h : t.get? (above ++ [name]) = some node) :
    ∃ d, t.get? above = some (.dir d) := by
  rw [get?_append] at h
  obtain ⟨start, hstart, hbelow⟩ := Option.bind_eq_some_iff.mp h
  cases start with
  | dir d => exact ⟨d, hstart⟩
  | file content => exact absurd hbelow (by simp [Node.below?])
  | link target => exact absurd hbelow (by simp [Node.below?])

/-- **What a change to one location leaves in place.** A node with nothing below it, put under a name
of a directory where no directory stands, changes what stands at that location and nothing else. -/
theorem kind?_put (habove : t.get? above = some (.dir d))
    (hfree : ∀ inner, t.get? (above ++ [name]) ≠ some (.dir inner))
    (hbare : ∀ entries, node = .dir entries → entries = []) (loc : List Name) :
    (t.put (above ++ [name]) node).kind? loc =
      if loc = above ++ [name] then some node.kind else t.kind? loc :=
  Directory.kind?_put habove hfree hbare loc

end FileTree

end Snippets
