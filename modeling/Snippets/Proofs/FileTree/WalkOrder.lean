/-
# Snippets.Proofs.FileTree.WalkOrder — a walk meets what lies below, in the order of locations

The location of a stop is the list of names that leads to it. Locations are compared name by name,
the names by their bytes, and a location comes before those that continue it; this is not the order
of the paths as byte strings, in which a slash counts as a byte.

A walk of a well-formed node meets each location below it once (`mem_stops_iff`), and the locations
ascend (`pairwise_stops`). Both are inductions over the node: the entries of a directory, sorted by
name, are walked one after the other behind the directory itself.
-/
import Mathlib.Data.List.Lex
import Snippets.FileTree.Walk
import Snippets.Proofs.FileTree.Node

namespace Snippets

/-! ## The order of locations -/

/-- Names compared by their bytes. -/
def Name.Before (a b : Name) : Prop := Bytes.before a b = true

instance : DecidableRel Name.Before := fun a b => inferInstanceAs (Decidable (Bytes.before a b = true))

instance : Std.Asymm Name.Before where
  asymm a b hab hba := by
    have hself : Bytes.before a a = true := Bytes.before_trans hab hba
    rw [Bytes.before_self] at hself
    exact Bool.false_ne_true hself

/-- Locations compared name by name. -/
def Location.Before : List Name → List Name → Prop := List.Lex Name.Before

instance : DecidableRel Location.Before := inferInstanceAs (DecidableRel (List.Lex Name.Before))

instance : Std.Asymm Location.Before := inferInstanceAs (Std.Asymm (List.Lex Name.Before))

/-! ## Sorting by name -/

section Sorting

variable {α : Type} {entry : Name × α} {entries : List (Name × α)}

theorem perm_insertByName (entry : Name × α) (entries : List (Name × α)) :
    (insertByName entry entries).Perm (entry :: entries) := by
  induction entries with
  | nil => exact .refl _
  | cons other rest ih =>
    unfold insertByName
    split
    · exact .refl _
    · exact (ih.cons other).trans (.swap entry other rest)

theorem pairwise_insertByName (hne : ∀ other ∈ entries, entry.1 ≠ other.1)
    (h : entries.Pairwise fun a b => a.1.Before b.1) :
    (insertByName entry entries).Pairwise fun a b => a.1.Before b.1 := by
  induction entries with
  | nil => exact .cons (by simp) .nil
  | cons other rest ih =>
    obtain ⟨hother, hrest⟩ := List.pairwise_cons.mp h
    rw [List.forall_mem_cons] at hne
    unfold insertByName
    split
    · rename_i hbefore
      refine List.pairwise_cons.mpr ⟨?_, h⟩
      intro e he
      rcases List.mem_cons.mp he with rfl | he
      · exact hbefore
      · exact Bytes.before_trans hbefore (hother e he)
    · -- the new entry goes further down, so it comes after `other` too
      rename_i hbefore
      have hafter : other.1.Before entry.1 := (Bytes.before_total hne.1).resolve_left hbefore
      refine List.pairwise_cons.mpr ⟨?_, ih hne.2 hrest⟩
      intro e he
      rcases List.mem_cons.mp ((perm_insertByName entry rest).mem_iff.mp he) with rfl | he
      · exact hafter
      · exact hother e he

/-- Inserting entries of new, distinct names one by one keeps all of them, in ascending order. -/
theorem foldl_insertByName (entries sorted : List (Name × α))
    (distinct : ((sorted ++ entries).map Prod.fst).Nodup)
    (h : sorted.Pairwise fun a b => a.1.Before b.1) :
    (entries.foldl (fun sorted entry => insertByName entry sorted) sorted).Perm
        (sorted ++ entries) ∧
      (entries.foldl (fun sorted entry => insertByName entry sorted) sorted).Pairwise
        fun a b => a.1.Before b.1 := by
  induction entries generalizing sorted with
  | nil => simpa using h
  | cons entry entries ih =>
    have hperm : (insertByName entry sorted ++ entries).Perm (sorted ++ entry :: entries) :=
      ((perm_insertByName entry sorted).append_right entries).trans List.perm_middle.symm
    -- the names still to come are new, so insertion meets no equal name
    have hne : ∀ other ∈ sorted, entry.1 ≠ other.1 := by
      intro other hother heq
      rw [List.map_append, List.map_cons] at distinct
      exact List.disjoint_of_nodup_append distinct (List.mem_map_of_mem hother)
        (heq ▸ List.mem_cons_self)
    have hsorted := pairwise_insertByName hne h
    obtain ⟨hall, hpairwise⟩ :=
      ih (insertByName entry sorted) ((hperm.map Prod.fst).nodup_iff.mpr distinct) hsorted
    exact ⟨hall.trans hperm, hpairwise⟩

theorem perm_sortByName (distinct : (entries.map Prod.fst).Nodup) :
    (sortByName entries).Perm entries :=
  (foldl_insertByName entries [] distinct .nil).1

theorem pairwise_sortByName (distinct : (entries.map Prod.fst).Nodup) :
    (sortByName entries).Pairwise fun a b => a.1.Before b.1 :=
  (foldl_insertByName entries [] distinct .nil).2

end Sorting

/-! ## The stops of a walk -/

/-- What a walk meets at a node. -/
def Node.stop : Node → Stop
  | .dir _ => .directory
  | .file _ => .leaf
  | .link _ => .leaf

theorem Node.exists_eq_dir {node : Node} (h : node.stop = .directory) :
    ∃ entries, node = .dir entries := by
  cases node with
  | dir entries => exact ⟨entries, rfl⟩
  | file content => exact absurd h (by simp [stop])
  | link target => exact absurd h (by simp [stop])

theorem entryStops_eq_map (entries : List (Name × Node)) :
    entryStops entries = entries.map fun e => (e.1, e.2.stops) := by
  induction entries with
  | nil => rfl
  | cons e entries ih => rw [entryStops, ih, List.map_cons]

theorem map_fst_entryStops (entries : List (Name × Node)) :
    (entryStops entries).map Prod.fst = entries.map Prod.fst := by
  rw [entryStops_eq_map, List.map_map]
  rfl

/-- The stops of a directory below itself: those of its entries. -/
theorem mem_stops_dir_cons {entries : List (Name × Node)}
    (distinct : (entries.map Prod.fst).Nodup) {stop : Stop} {name : Name} {names : List Name} :
    (stop, name :: names) ∈ (Node.dir entries).stops ↔
      ∃ node, (name, node) ∈ entries ∧ (stop, names) ∈ node.stops := by
  rw [← map_fst_entryStops] at distinct
  simp only [Node.stops, List.mem_cons, List.mem_flatMap, (perm_sortByName distinct).mem_iff]
  rw [entryStops_eq_map]
  simp only [List.mem_map]
  constructor
  · rintro (h | ⟨_, ⟨⟨key, node⟩, he, rfl⟩, ⟨kind, below⟩, hstop, h⟩)
    · -- the directory itself has no names in front
      exact absurd h (by simp)
    · obtain ⟨rfl, rfl, rfl⟩ : kind = stop ∧ key = name ∧ below = names := by simpa using h
      exact ⟨node, he, hstop⟩
  · rintro ⟨node, he, hstop⟩
    exact .inr ⟨_, ⟨_, he, rfl⟩, _, hstop, rfl⟩

/-- **A walk meets exactly what lies below.** -/
theorem mem_stops_iff {node : Node} (h : node.WellFormed) {stop : Stop} {names : List Name} :
    (stop, names) ∈ node.stops ↔ ∃ inner, node.below? names = some inner ∧ inner.stop = stop := by
  induction h generalizing names with
  | file content => cases names <;> simp [Node.stops, Node.below?, Node.stop, eq_comm]
  | link target => cases names <;> simp [Node.stops, Node.below?, Node.stop, eq_comm]
  | @dir entries distinct hnames hnodes ih =>
    cases names with
    | nil => simp [Node.stops, Node.stop, eq_comm]
    | cons name names =>
      rw [mem_stops_dir_cons distinct, Node.below?_dir_cons]
      constructor
      · rintro ⟨node, he, hstop⟩
        rw [lookup_of_mem distinct he]
        exact (ih _ he).mp hstop
      · rintro ⟨inner, hbelow, hstop⟩
        obtain ⟨node, hlookup, hinner⟩ := Option.bind_eq_some_iff.mp hbelow
        have he := mem_of_lookup hlookup
        exact ⟨node, he, (ih _ he).mpr ⟨inner, hinner, hstop⟩⟩

/-- **The locations of a walk ascend.** -/
theorem pairwise_stops {node : Node} (h : node.WellFormed) :
    node.stops.Pairwise fun a b => Location.Before a.2 b.2 := by
  induction h with
  | file content => exact .cons (by simp) .nil
  | link target => exact .cons (by simp) .nil
  | @dir entries distinct hnames hnodes ih =>
    rw [← map_fst_entryStops] at distinct
    rw [Node.stops, List.pairwise_cons, List.pairwise_flatMap]
    refine ⟨?_, ?_, ?_⟩
    · -- the directory itself comes first
      intro stop hstop
      simp only [List.mem_flatMap, List.mem_map] at hstop
      obtain ⟨e, -, below, -, rfl⟩ := hstop
      exact .nil
    · -- below one entry
      intro e he
      rw [(perm_sortByName distinct).mem_iff, entryStops_eq_map, List.mem_map] at he
      obtain ⟨entry, hentry, rfl⟩ := he
      rw [List.pairwise_map]
      exact (ih entry hentry).imp fun hbefore => .cons hbefore
    · -- below two entries, the names decide
      apply (pairwise_sortByName distinct).imp
      intro e e' hbefore stop hstop other hother
      obtain ⟨below, -, rfl⟩ := List.mem_map.mp hstop
      obtain ⟨below', -, rfl⟩ := List.mem_map.mp hother
      exact .rel hbefore

end Snippets
