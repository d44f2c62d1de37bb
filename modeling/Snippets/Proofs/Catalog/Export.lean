/-
# Snippets.Proofs.Catalog.Export — an export is read back as the catalog it was made of

Every catalog whose source paths are text has a JSON form, and reading it gives the catalog back:
from the compact form, and from the exported file whatever the time written into it
(`ofJson?_of_toJson?`, `ofExport?_of_exportFile?`). So no two catalogs have one form. A catalog with
a source path that is not text has none.

The texts are read back by the round trip of JSON values, so what is left is a left inverse for the
members: a member that is left out must read as what it was left out for, and no other member of the
object may stand in its place.
-/
import Snippets.Catalog.Import
import Snippets.Proofs.Catalog.Save
import Snippets.Proofs.Json.RoundTrip
import Snippets.Proofs.Text.Utf8

namespace Snippets

/-! ## Members -/

namespace Json

theorem lookup_name (key name : String) (value : Json) :
    List.lookup key.toList [(name.toList, value)] = if key = name then some value else none := by
  rw [List.lookup_cons, List.lookup_nil]
  by_cases h : key = name
  · simp [h]
  · have hne : (key.toList == name.toList) = false :=
      beq_eq_false_iff_ne.mpr fun heq => h (String.toList_inj.mp heq)
    rw [hne, if_neg h]

theorem lookup_optionalMember (key name : String) (s : Text) :
    List.lookup key.toList (optionalMember name s) =
      if key = name ∧ s ≠ [] then some (.string s) else none := by
  unfold optionalMember
  cases s with
  | nil => simp
  | cons c s => simp [lookup_name]

end Json

theorem mapM_map_of_left_inverse {α β : Type} {f : α → β} {g : β → Option α}
    (h : ∀ a, g (f a) = some a) (l : List α) : (l.map f).mapM g = some l := by
  induction l with
  | nil => rfl
  | cons a l ih =>
    rw [List.map_cons, List.mapM_cons, h, ih]
    rfl

theorem isSome_mapM {α β : Type} {f : α → Option β} {l : List α} :
    (l.mapM f).isSome ↔ ∀ a ∈ l, (f a).isSome := by
  induction l with
  | nil => simp
  | cons a l ih =>
    rw [List.mapM_cons, List.forall_mem_cons, ← ih]
    cases f a <;> cases l.mapM f <;> simp

/-! ## Snippets and groups -/

theorem Snippet.member?_toJson (s : Snippet) (key : String) :
    s.toJson.member? key =
      ((((if key = "name" then some (.string s.name) else none).or
        (if key = "abbr" ∧ s.abbr ≠ [] then some (.string s.abbr) else none)).or
        (if key = "alias" ∧ s.aliasName ≠ [] then some (.string s.aliasName) else none)).or
        (if key = "body" then some (.array (s.body.map .string)) else none)).or
        (s.minIndent.bind fun n => if key = "min_indent" then some (.number n) else none) := by
  have hmargin : List.lookup key.toList
      (s.minIndent.map fun n => ("min_indent".toList, Json.number n)).toList =
        s.minIndent.bind fun n => if key = "min_indent" then some (.number n) else none := by
    cases s.minIndent with
    | none => rfl
    | some n => exact Json.lookup_name key "min_indent" (.number n)
  simp only [toJson, Json.member?, Json.members?, Option.bind_some, List.lookup_append,
    Json.lookup_name, Json.lookup_optionalMember, hmargin]

theorem Snippet.optionalText?_abbr (s : Snippet) : s.toJson.optionalText? "abbr" = some s.abbr := by
  by_cases h : s.abbr = [] <;> simp [Json.optionalText?, member?_toJson, h, Json.text?]

theorem Snippet.optionalText?_alias (s : Snippet) :
    s.toJson.optionalText? "alias" = some s.aliasName := by
  by_cases h : s.aliasName = [] <;> simp [Json.optionalText?, member?_toJson, h, Json.text?]

theorem Snippet.optionalNumber?_margin (s : Snippet) :
    s.toJson.optionalNumber? "min_indent" = some s.minIndent := by
  cases h : s.minIndent <;> simp [Json.optionalNumber?, member?_toJson, h, Json.number?]

/-- A snippet is read back from its object: what is left out was empty or none. -/
theorem Snippet.ofJson?_toJson (s : Snippet) : Snippet.ofJson? s.toJson = some s := by
  have hname : s.toJson.member? "name" = some (.string s.name) := by simp [member?_toJson]
  have hbody : s.toJson.member? "body" = some (.array (s.body.map .string)) := by
    simp [member?_toJson]
  have hlines : (s.body.map Json.string).mapM Json.text? = some s.body :=
    mapM_map_of_left_inverse (fun line => show (Json.string line).text? = some line from rfl) s.body
  simp [ofJson?, hname, hbody, optionalText?_abbr, optionalText?_alias, optionalNumber?_margin,
    Json.text?, Json.items?, hlines]

/-- A group is read back from its object. -/
theorem Group.ofJson?_of_toJson? {g : Group} {value : Json} (h : g.toJson? = some value) :
    Group.ofJson? value = some g := by
  obtain ⟨source, hsource, rfl⟩ := Option.map_eq_some_iff.mp h
  have hpath : Utf8.encode source = g.source := (Utf8.encode_of_decode hsource).symm
  have hsnippets : (g.snippets.map Snippet.toJson).mapM Snippet.ofJson? = some g.snippets :=
    mapM_map_of_left_inverse Snippet.ofJson?_toJson g.snippets
  calc _ = ((g.snippets.map Snippet.toJson).mapM Snippet.ofJson?).bind
        fun snippets => some { source := Utf8.encode source, snippets } := rfl
    _ = some g := by rw [hsnippets, hpath, Option.bind_some]

theorem Group.isSome_toJson? {g : Group} :
    g.toJson?.isSome ↔ g.source.toByteArray.IsValidUTF8 := by
  rw [toJson?, Option.isSome_map, Utf8.isSome_decode_iff]

/-! ## Catalogs -/

namespace Catalog

/-- A catalog whose source paths are all valid UTF-8. -/
def Exportable (c : Catalog) : Prop := ∀ e ∈ c.entries, e.2.source.toByteArray.IsValidUTF8

/-- The entries are read back from the members, and the names stay as they are. -/
theorem mapM_entryOf?_of_membersOf? {entries : List (Text × Group)} {members : List (Text × Json)}
    (h : membersOf? entries = some members) :
    members.mapM entryOf? = some entries ∧ members.map Prod.fst = entries.map Prod.fst := by
  induction entries generalizing members with
  | nil =>
    obtain rfl : [] = members := Option.some.inj h
    exact ⟨rfl, rfl⟩
  | cons entry entries ih =>
    obtain ⟨name, g⟩ := entry
    rw [membersOf?, List.mapM_cons] at h
    obtain ⟨member, hmember, h⟩ := Option.bind_eq_some_iff.mp h
    obtain ⟨rest, hrest, h⟩ := Option.bind_eq_some_iff.mp h
    obtain rfl : member :: rest = members := Option.some.inj h
    obtain ⟨value, hvalue, rfl⟩ := Option.map_eq_some_iff.mp hmember
    obtain ⟨hentries, hnames⟩ := ih hrest
    have hentry : entryOf? (name, value) = some (name, g) := by
      rw [entryOf?, Group.ofJson?_of_toJson? hvalue, Option.map_some]
    refine ⟨?_, by rw [List.map_cons, List.map_cons, hnames]⟩
    rw [List.mapM_cons, hentry, hentries]
    rfl

theorem isSome_toJson? {c : Catalog} : c.toJson?.isSome ↔ c.Exportable := by
  rw [toJson?, Option.isSome_map, membersOf?, isSome_mapM]
  exact forall₂_congr fun e _ => by rw [Option.isSome_map, Group.isSome_toJson?]

theorem isSome_exportFile? {c : Catalog} {generatedAt : Text} :
    (c.exportFile? generatedAt).isSome ↔ c.Exportable := by
  rw [exportFile?, Option.isSome_map, isSome_toJson?]

theorem exportFile?_eq_none_iff {c : Catalog} {generatedAt : Text} :
    c.exportFile? generatedAt = none ↔ ¬ c.Exportable := by
  rw [← isSome_exportFile?, Option.not_isSome_iff_eq_none]

/-- The form of a catalog is an object with one member for each group. -/
theorem exists_members_of_toJson? {c : Catalog} {value : Json} (h : c.toJson? = some value) :
    ∃ members, value = .object members ∧ members.map Prod.fst = c.names := by
  obtain ⟨members, hmembers, rfl⟩ := Option.map_eq_some_iff.mp h
  exact ⟨members, rfl, (mapM_entryOf?_of_membersOf? hmembers).2⟩

theorem pairwise_names (c : Catalog) :
    c.names.Pairwise fun name next => Text.before name next = true :=
  List.pairwise_map.mpr c.sorted

/-- A catalog is read back from its object. -/
theorem ofJson?_of_toJson? {c : Catalog} {value : Json} (h : c.toJson? = some value) :
    ofJson? value = some c := by
  obtain ⟨members, hmembers, rfl⟩ := Option.map_eq_some_iff.mp h
  have hentries := (mapM_entryOf?_of_membersOf? hmembers).1
  simp only [ofJson?, Json.members?, hentries, Option.bind_eq_bind, Option.bind_some, c.sorted,
    dif_pos]
  rfl

/-- A catalog is read back from its exported file. -/
theorem ofExport?_of_exportFile? {c : Catalog} {generatedAt file : Text}
    (h : c.exportFile? generatedAt = some file) : ofExport? file = some c := by
  obtain ⟨value, hvalue, rfl⟩ := Option.map_eq_some_iff.mp h
  rw [ofExport?, Json.read?_pretty]
  exact ofJson?_of_toJson? hvalue

/-- **An export is faithful.** Of a catalog whose source paths are all text, the compact form and the
groups in the exported file are read back as the catalog itself, the names of the groups ascending,
whatever the time of the export; so two catalogs never have one compact form, nor one exported file.
Any other catalog has no form, and a save of it fails for that reason before the file is opened. -/
theorem export_faithful (c : Catalog) :
    (c.Exportable → ∃ members : List (Text × Json),
      c.toJson? = some (.object members) ∧
      members.map Prod.fst = c.names ∧
      (c.names.Pairwise fun name next => Text.before name next = true) ∧
      Json.read? (Json.object members).compact = some (.object members) ∧
      ofJson? (.object members) = some c ∧
      ∀ generatedAt, ∃ file, c.exportFile? generatedAt = some file ∧
        Json.read? file = some (.object [
          ("generated_at".toList, .string generatedAt), ("groups".toList, .object members)]) ∧
        ofExport? file = some c ∧
        ∀ path t, (c.save generatedAt path t).result = .ok () →
          (c.save generatedAt path t).tree.read path = .ok (Utf8.encode file)) ∧
    (∀ other : Catalog, c.Exportable →
      c.toJson?.map Json.compact = other.toJson?.map Json.compact → c = other) ∧
    (∀ (other : Catalog) (generatedAt generatedAt' : Text), c.Exportable →
      c.exportFile? generatedAt = other.exportFile? generatedAt' → c = other) ∧
    (¬ c.Exportable → c.toJson? = none ∧
      ∀ generatedAt, c.exportFile? generatedAt = none ∧
        ∀ path t, (prepareDirectory t path).2 = .ok () →
          (c.save generatedAt path t).result = .error .sourceNotText) := by
  refine ⟨fun h => ?_, fun other h hsame => ?_, fun other generatedAt generatedAt' h hsame => ?_,
    fun h => ?_⟩
  case refine_1 =>
    obtain ⟨value, hvalue⟩ := Option.isSome_iff_exists.mp (isSome_toJson?.mpr h)
    obtain ⟨members, rfl, hnames⟩ := exists_members_of_toJson? hvalue
    refine ⟨members, hvalue, hnames, pairwise_names c, Json.read?_compact _,
      ofJson?_of_toJson? hvalue, fun generatedAt => ?_⟩
    have hfile : c.exportFile? generatedAt = some _ := congrArg (Option.map _) hvalue
    refine ⟨_, hfile, Json.read?_pretty _, ofExport?_of_exportFile? hfile, fun path t hsave => ?_⟩
    obtain ⟨text, htext, hread⟩ := save_ok hsave
    obtain rfl := Option.some.inj (htext.symm.trans hfile)
    exact hread
  case refine_2 =>
    obtain ⟨value, hvalue⟩ := Option.isSome_iff_exists.mp (isSome_toJson?.mpr h)
    rw [hvalue, Option.map_some] at hsame
    obtain ⟨value', hvalue', hcompact⟩ := Option.map_eq_some_iff.mp hsame.symm
    -- one text is read as one value, and one value as one catalog
    have hread := Json.read?_compact value'
    rw [hcompact, Json.read?_compact] at hread
    obtain rfl := Option.some.inj hread
    exact Option.some.inj ((ofJson?_of_toJson? hvalue).symm.trans (ofJson?_of_toJson? hvalue'))
  case refine_3 =>
    obtain ⟨file, hfile⟩ := Option.isSome_iff_exists.mp (isSome_exportFile?.mpr h)
    exact Option.some.inj ((ofExport?_of_exportFile? hfile).symm.trans
      (ofExport?_of_exportFile? (hsame.symm.trans hfile)))
  case refine_4 =>
    have hfile (generatedAt : Text) : c.exportFile? generatedAt = none :=
      exportFile?_eq_none_iff.mpr h
    exact ⟨Option.not_isSome_iff_eq_none.mp fun hsome => h (isSome_toJson?.mp hsome),
      fun generatedAt => ⟨hfile generatedAt, fun path t hdirectory =>
        save_of_exportFile?_eq_none hdirectory (hfile generatedAt)⟩⟩

/-- A catalog with one group of one snippet. -/
def single (name : Text) (source : Path) (s : Snippet) : Catalog :=
  (Catalog.empty.insert name { source, snippets := [s] }).2

theorem exportable_single {name : Text} {source : Path} {s : Snippet} :
    (single name source s).Exportable ↔ (Utf8.decode source).isSome := by
  rw [Utf8.isSome_decode_iff]
  exact List.forall_mem_singleton

/-- A snippet whose texts are made of what a JSON text is made of. -/
def awkward : Snippet :=
  { name := "\",\"".toList, abbr := [], aliasName := "\\".toList, body := ["]\x7d\u0001".toList, []],
    minIndent := none }

/-- Awkward texts are read back, and a source path that is not text fails the export. -/
theorem export_faithful_awkward :
    (∃ members, (single "😀\n".toList (Path.ofText "ä.snip".toList) awkward).toJson? =
        some (.object members) ∧
      Json.read? (Json.object members).compact = some (.object members) ∧
      ofJson? (.object members) =
        some (single "😀\n".toList (Path.ofText "ä.snip".toList) awkward)) ∧
    (single ['x'] [0xFF] awkward).toJson? = none := by
  constructor
  · obtain ⟨members, hjson, -, -, hread, hback, -⟩ :=
      (export_faithful (single "😀\n".toList (Path.ofText "ä.snip".toList) awkward)).1
        (exportable_single.mpr (by decide))
    exact ⟨members, hjson, hread, hback⟩
  · exact ((export_faithful (single ['x'] [0xFF] awkward)).2.2.2
      fun h => absurd (exportable_single.mp h) (by decide)).1

end Catalog

end Snippets
