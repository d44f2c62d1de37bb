/-
# Snippets.Catalog.Basic — groups by name

A catalog maps names to groups. Its entries stand in strictly ascending order of their names,
compared by code points, which is also the order of their UTF-8 bytes; the order is part of the
type, so every listing of a catalog is sorted and free of repetitions. Inserting under a name that
is taken replaces the group and gives the old one back.
-/
import Snippets.Catalog.Group
import Snippets.Text.Order

namespace Snippets

/-- Groups in strictly ascending order of their names. -/
@[ext]
structure Catalog where
  /-- The names and their groups. -/
  entries : List (Text × Group)
  /-- The names ascend strictly. -/
  sorted : entries.Pairwise (fun a b => Text.before a.1 b.1 = true)

namespace Catalog

/-- The catalog without groups. -/
def empty : Catalog := { entries := [], sorted := .nil }

/-- The names of the groups, in ascending order. -/
def names (c : Catalog) : List Text := c.entries.map (·.1)

/-- The number of groups. -/
def size (c : Catalog) : Nat := c.entries.length

/-- Whether there are no groups. -/
def isEmpty (c : Catalog) : Bool := c.entries.isEmpty

/-- The group of a name, if there is one. -/
def find? (c : Catalog) (name : Text) : Option Group := c.entries.lookup name

/-! ## Inserting -/

/-- The entries with a group put under a name, and the group it replaces, if any. -/
def place (name : Text) (group : Group) :
    List (Text × Group) → Option Group × List (Text × Group)
  | [] => (none, [(name, group)])
  | (key, old) :: rest =>
    if name.before key then (none, (name, group) :: (key, old) :: rest)
    else if name = key then (some old, (name, group) :: rest)
    else ((place name group rest).1, (key, old) :: (place name group rest).2)

/-- The entries after placing hold the new name and no other name that was not there. -/
theorem fst_of_mem_place {name : Text} {group : Group} {entries : List (Text × Group)}
    {e : Text × Group} (h : e ∈ (place name group entries).2) :
    e = (name, group) ∨ e ∈ entries := by
  induction entries with
  | nil => simpa [place] using h
  | cons entry rest ih =>
    obtain ⟨key, old⟩ := entry
    unfold place at h
    split at h
    · simpa using h
    · split at h
      · rcases List.mem_cons.mp h with h | h
        · exact .inl h
        · exact .inr (List.mem_cons_of_mem _ h)
      · rcases List.mem_cons.mp h with h | h
        · exact .inr (h ▸ List.mem_cons_self)
        · exact (ih h).imp_right (List.mem_cons_of_mem _)

/-- Placing keeps the names in strictly ascending order. -/
theorem pairwise_place (name : Text) (group : Group) {entries : List (Text × Group)}
    (h : entries.Pairwise (fun a b => Text.before a.1 b.1 = true)) :
    (place name group entries).2.Pairwise (fun a b => Text.before a.1 b.1 = true) := by
  induction entries with
  | nil => simp [place]
  | cons entry rest ih =>
    obtain ⟨key, old⟩ := entry
    have hrest := List.pairwise_cons.mp h
    unfold place
    split
    · rename_i hlt
      refine List.pairwise_cons.mpr ⟨fun e he => ?_, h⟩
      rcases List.mem_cons.mp he with rfl | he
      · exact hlt
      · exact Text.before_trans hlt (hrest.1 e he)
    · split
      · rename_i heq
        subst heq
        exact List.pairwise_cons.mpr hrest
      · rename_i hge hne
        refine List.pairwise_cons.mpr ⟨fun e he => ?_, ih hrest.2⟩
        rcases fst_of_mem_place he with rfl | he
        · exact (Text.before_total hne).resolve_left hge
        · exact hrest.1 e he

/-- The group that was stored under the name, if any, and the catalog with the new group under
that name. -/
def insert (c : Catalog) (name : Text) (group : Group) : Option Group × Catalog :=
  ((place name group c.entries).1,
    { entries := (place name group c.entries).2, sorted := pairwise_place name group c.sorted })

/-! ## Listing -/

/-- The line of one group: its name, a tab, and the path of its file in parentheses. -/
def listingLine (entry : Text × Group) : Text :=
  entry.1 ++ '\t' :: '(' :: (entry.2.source.display ++ [')', '\n'])

/-- One line for every group, in ascending order of their names. -/
def listing (c : Catalog) : Text := c.entries.flatMap listingLine

end Catalog

end Snippets
