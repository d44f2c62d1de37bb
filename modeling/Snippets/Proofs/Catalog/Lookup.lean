/-
# Snippets.Proofs.Catalog.Lookup — what a catalog holds after insertions

An entry stands in a catalog exactly when its group is found under its name, because the names ascend
(`mem_entries_iff`); so what is found determines the catalog (`eq_of_find?_eq`). Inserting changes what
is found under one name and nothing else, and gives back what was found there, so after a list of
insertions the last one under a name is found there.
-/
import Mathlib.Data.List.Sort
import Snippets.Catalog.Basic

namespace Snippets.Catalog

variable {c d : Catalog} {name key : Text} {group : Group}

/-- A name is in the catalog when it has a group. -/
theorem mem_names_iff {c : Catalog} : key ∈ c.names ↔ ∃ group, c.find? key = some group := by
  rw [names, find?, ← Option.isSome_iff_exists, List.lookup_isSome_iff]
  simp

/-! ## Entries -/

/-- An entry stands in a catalog when its group is found under its name. -/
theorem mem_entries_iff : (key, group) ∈ c.entries ↔ c.find? key = some group := by
  rw [find?, List.lookup_eq_some_iff]
  constructor
  · intro h
    obtain ⟨front, back, hentries⟩ := List.append_of_mem h
    refine ⟨front, back, hentries, fun e he => ?_⟩
    have hsorted := c.sorted
    rw [hentries, List.pairwise_append] at hsorted
    -- what stands in front has a lesser name
    have hbefore := hsorted.2.2 e he (key, group) List.mem_cons_self
    exact bne_iff_ne.mpr (Text.ne_of_before hbefore).symm
  · rintro ⟨front, back, hentries, -⟩
    rw [hentries]
    simp

/-- Catalogs in which the same is found are equal. -/
theorem eq_of_find?_eq (h : ∀ key, c.find? key = d.find? key) : c = d := by
  have hirrefl : Std.Irrefl fun a b : Text × Group => Text.before a.1 b.1 = true :=
    ⟨fun e hbefore => by simp at hbefore⟩
  have hantisymm : Std.Antisymm fun a b : Text × Group => Text.before a.1 b.1 = true :=
    ⟨fun a b hab hba => absurd (Text.before_trans hab hba) (by simp)⟩
  refine Catalog.ext (c.sorted.eq_of_mem_iff d.sorted fun e => ?_)
  obtain ⟨key, group⟩ := e
  rw [mem_entries_iff, mem_entries_iff, h]

/-! ## One insertion -/

theorem lookup_cons_eq_ite (entry : Text × Group) (rest : List (Text × Group)) :
    (entry :: rest).lookup key = if key = entry.1 then some entry.2 else rest.lookup key := by
  rw [List.lookup_cons]
  by_cases h : key = entry.1
  · rw [if_pos h, beq_iff_eq.mpr h]
  · rw [if_neg h, beq_eq_false_iff_ne.mpr h]

theorem lookup_place (entries : List (Text × Group)) :
    (place name group entries).2.lookup key =
      if key = name then some group else entries.lookup key := by
  induction entries with
  | nil => exact lookup_cons_eq_ite (name, group) []
  | cons entry rest ih =>
    obtain ⟨old, oldGroup⟩ := entry
    unfold place
    split
    · exact lookup_cons_eq_ite (name, group) _
    · split
      · rename_i heq
        subst heq
        rw [lookup_cons_eq_ite, lookup_cons_eq_ite]
        split <;> rfl
      · rename_i hne
        rw [lookup_cons_eq_ite, lookup_cons_eq_ite, ih]
        by_cases h : key = old
        · rw [if_pos h, if_pos h, if_neg (h ▸ Ne.symm hne)]
        · rw [if_neg h, if_neg h]

@[simp] theorem find?_empty : empty.find? key = none := rfl

theorem find?_insert (c : Catalog) :
    (c.insert name group).2.find? key = if key = name then some group else c.find? key :=
  lookup_place c.entries

/-- Below entries with greater names, nothing is found. -/
theorem lookup_eq_none_of_before {entries : List (Text × Group)}
    (h : ∀ e ∈ entries, Text.before key e.1 = true) : entries.lookup key = none := by
  rw [List.lookup_eq_none_iff]
  intro e he
  exact bne_iff_ne.mpr (Text.ne_of_before (h e he))

theorem fst_place {entries : List (Text × Group)}
    (h : entries.Pairwise fun a b => Text.before a.1 b.1 = true) :
    (place key group entries).1 = entries.lookup key := by
  induction entries with
  | nil => rfl
  | cons entry rest ih =>
    obtain ⟨old, oldGroup⟩ := entry
    obtain ⟨hold, hrest⟩ := List.pairwise_cons.mp h
    unfold place
    split
    · -- the name comes before all that are there
      rename_i hbefore
      refine (lookup_eq_none_of_before (List.forall_mem_cons.mpr ⟨hbefore, ?_⟩)).symm
      intro e he
      exact Text.before_trans hbefore (hold e he)
    · rw [lookup_cons_eq_ite]
      split
      · rfl
      · exact ih hrest

/-- An insertion gives back what was found under its name. -/
theorem fst_insert (c : Catalog) : (c.insert key group).1 = c.find? key := fst_place c.sorted

/-! ## Several insertions -/

/-- The catalog after inserting the entries one after the other. -/
def insertAll (c : Catalog) (entries : List (Text × Group)) : Catalog :=
  entries.foldl (fun grown entry => (grown.insert entry.1 entry.2).2) c

/-- The last entry of a name is found. -/
theorem find?_insertAll (c : Catalog) (entries : List (Text × Group)) :
    (c.insertAll entries).find? key = (entries.reverse.lookup key).or (c.find? key) := by
  induction entries generalizing c with
  | nil => rfl
  | cons entry rest ih =>
    show ((c.insert entry.1 entry.2).2.insertAll rest).find? key = _
    rw [ih, find?_insert, List.reverse_cons, List.lookup_append, Option.or_assoc,
      lookup_cons_eq_ite]
    split <;> rfl

end Snippets.Catalog
