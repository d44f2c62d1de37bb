/-
# Snippets.Proofs.Catalog.Insertion — a catalog is its last insertions

Whatever is inserted into the empty catalog, and in whatever order, the last insertion under each
name tells what the catalog holds: what is found, what a further insertion gives back, and every
listing (`insertAll_holds_last_insertions`). The names ascend by code points, and so do their bytes.

Everything rides on what single insertions do to what is found, and on the catalog being determined by
what is found in it.
-/
import Snippets.Proofs.Catalog.Export
import Snippets.Proofs.Catalog.Lookup
import Snippets.Proofs.Text.Utf8Order

namespace Snippets.Catalog

variable {c : Catalog} {entries : List (Text × Group)} {key : Text} {group : Group}

/-! ## Names and listings -/

theorem nodup_names (c : Catalog) : c.names.Nodup :=
  (pairwise_names c).imp Text.ne_of_before

/-- The names ascend by their bytes too. -/
theorem pairwise_encode_names (c : Catalog) :
    c.names.Pairwise fun name next => Bytes.before (Utf8.encode name) (Utf8.encode next) = true := by
  refine (pairwise_names c).imp fun {name next} hbefore => ?_
  rw [Utf8.before_encode, hbefore]

theorem size_eq_length_names (c : Catalog) : c.size = c.names.length := by
  rw [size, names, List.length_map]

/-- The groups are listed name by name, each on a line with its name, a tab, and the path of what is
found under it in parentheses. -/
theorem listing_eq_flatMap_names (c : Catalog) :
    c.listing = c.names.flatMap fun name => (c.find? name).elim [] fun group =>
      name ++ ['\t', '('] ++ group.source.display ++ [')', '\n'] := by
  rw [listing, names, List.flatMap_map]
  refine List.flatMap_congr fun e he => ?_
  rw [mem_entries_iff.mp he, Option.elim_some, listingLine]
  simp

/-- The JSON text lists the groups by the names of the catalog. -/
theorem exists_members_of_compact {value : Json} (h : c.toJson? = some value) :
    ∃ members, Json.read? value.compact = some (.object members) ∧
      members.map Prod.fst = c.names := by
  obtain ⟨members, rfl, hnames⟩ := exists_members_of_toJson? h
  exact ⟨members, Json.read?_compact _, hnames⟩

/-! ## All insertions -/

/-- The group of the last insertion under a name. -/
def IsLastInsertion (entries : List (Text × Group)) (key : Text) (group : Group) : Prop :=
  ∃ earlier later, entries = earlier ++ (key, group) :: later ∧ ∀ e ∈ later, e.1 ≠ key

theorem isLastInsertion_iff :
    IsLastInsertion entries key group ↔ entries.reverse.lookup key = some group := by
  rw [List.lookup_eq_some_iff]
  constructor
  · rintro ⟨earlier, later, rfl, hlater⟩
    refine ⟨later.reverse, earlier.reverse, by simp, fun e he => ?_⟩
    exact bne_iff_ne.mpr (hlater e (List.mem_reverse.mp he)).symm
  · rintro ⟨front, back, hreverse, hfront⟩
    refine ⟨back.reverse, front.reverse, ?_, fun e he => ?_⟩
    · rw [← List.reverse_reverse entries, hreverse]
      simp
    · exact (bne_iff_ne.mp (hfront e (List.mem_reverse.mp he))).symm

theorem find?_insertAll_eq_some_iff :
    (empty.insertAll entries).find? key = some group ↔ IsLastInsertion entries key group := by
  rw [find?_insertAll, find?_empty, Option.or_none, isLastInsertion_iff]

theorem find?_insertAll_eq_none_iff :
    (empty.insertAll entries).find? key = none ↔ ∀ group, (key, group) ∉ entries := by
  rw [find?_insertAll, find?_empty, Option.or_none, List.lookup_eq_none_iff]
  constructor
  · intro h group hmem
    exact absurd (h _ (List.mem_reverse.mpr hmem)) (by simp)
  · intro h e he
    rw [bne_iff_ne]
    rintro rfl
    exact h e.2 (List.mem_reverse.mp he)

theorem mem_names_insertAll_iff :
    key ∈ (empty.insertAll entries).names ↔ ∃ group, (key, group) ∈ entries := by
  rw [mem_names_iff, ← Option.isSome_iff_exists, ← not_iff_not, Option.not_isSome_iff_eq_none,
    find?_insertAll_eq_none_iff, not_exists]

theorem isEmpty_insertAll_iff : (empty.insertAll entries).isEmpty = true ↔ entries = [] := by
  rw [isEmpty, List.isEmpty_iff]
  constructor
  · intro h
    rw [List.eq_nil_iff_forall_not_mem]
    rintro ⟨key, group⟩ hmem
    have hname : key ∈ (empty.insertAll entries).names := mem_names_insertAll_iff.mpr ⟨group, hmem⟩
    rw [names, h] at hname
    exact absurd hname (by simp)
  · rintro rfl
    rfl

/-- **A catalog holds its last insertions.** What is found under a name is the group inserted last,
and nothing where none was inserted; a further insertion gives back what was found and changes
nothing else. The names are those inserted, once each, ascending by code points and by bytes, and all
listings follow them. So two rows of insertions with the same last ones give one catalog. -/
theorem insertAll_holds_last_insertions (entries : List (Text × Group)) :
    let c := empty.insertAll entries
    (∀ key group, c.find? key = some group ↔ IsLastInsertion entries key group) ∧
    (∀ key, c.find? key = none ↔ ∀ group, (key, group) ∉ entries) ∧
    (∀ key group, (c.insert key group).1 = c.find? key ∧
      ∀ other, other ≠ key → (c.insert key group).2.find? other = c.find? other) ∧
    (c.names.Pairwise fun name next => Text.before name next = true) ∧
    (c.names.Pairwise fun name next =>
      Bytes.before (Utf8.encode name) (Utf8.encode next) = true) ∧
    (c.names.Nodup ∧ ∀ key, key ∈ c.names ↔ ∃ group, (key, group) ∈ entries) ∧
    (c.size = c.names.length ∧ (c.isEmpty = true ↔ entries = [])) ∧
    (c.listing = c.names.flatMap fun name => (c.find? name).elim [] fun group =>
      name ++ ['\t', '('] ++ group.source.display ++ [')', '\n']) ∧
    (∀ value, c.toJson? = some value → ∃ members,
      Json.read? value.compact = some (.object members) ∧ members.map Prod.fst = c.names) ∧
    ∀ others : List (Text × Group),
      (∀ key group, IsLastInsertion others key group ↔ IsLastInsertion entries key group) →
      empty.insertAll others = c := by
  intro c
  refine ⟨fun key group => find?_insertAll_eq_some_iff, fun key => find?_insertAll_eq_none_iff, ?_,
    pairwise_names c, pairwise_encode_names c, ⟨nodup_names c, fun key => mem_names_insertAll_iff⟩,
    ⟨size_eq_length_names c, isEmpty_insertAll_iff⟩, listing_eq_flatMap_names c,
    fun value => exists_members_of_compact, ?_⟩
  · intro key group
    refine ⟨fst_insert c, fun other hother => ?_⟩
    rw [find?_insert, if_neg hother]
  · intro others hlast
    apply eq_of_find?_eq
    intro key
    ext group
    rw [find?_insertAll_eq_some_iff, find?_insertAll_eq_some_iff, hlast]

/-- Insertions in another order, and one of them twice. -/
theorem insertAll_holds_last_insertions_reordered :
    let first : Group := { source := Path.ofText ['p'], snippets := [] }
    let last : Group := { source := Path.ofText ['q'], snippets := [] }
    let c := empty.insertAll [("aé".toList, last), ("az".toList, first)]
    c = empty.insertAll [("az".toList, last), ("aé".toList, first), ("az".toList, first),
        ("aé".toList, last)] ∧
      c.names = ["az".toList, "aé".toList] ∧ c.listing = "az\t(p)\naé\t(q)\n".toList := by
  intro first last c
  refine ⟨(insertAll_holds_last_insertions _).2.2.2.2.2.2.2.2.2 _ fun key group => ?_, rfl, rfl⟩
  rw [isLastInsertion_iff, isLastInsertion_iff]
  by_cases hz : key = "az".toList
  · subst hz
    rfl
  · by_cases haccent : key = "aé".toList
    · subst haccent
      rfl
    · simp only [List.reverse_cons, List.reverse_nil, List.nil_append, List.cons_append,
        lookup_cons_eq_ite, hz, haccent, if_false, List.lookup_nil]

end Snippets.Catalog
