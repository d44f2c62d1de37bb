/-
# Snippets.Catalog.Import — an export read back

The reader for what `Snippets.Catalog.Export` writes. A description or an alias that is left out is
empty, and a margin that is left out is none. The names of the groups have to ascend strictly, as
they do in a catalog.
-/
import Snippets.Catalog.Export
import Snippets.Json.Reader

namespace Snippets

namespace Json

/-! ## Parts of a value -/

/-- The text of a string. -/
def text? : Json → Option Text
  | string s => some s
  | _ => none

/-- The value of a number. -/
def number? : Json → Option Nat
  | number n => some n
  | _ => none

/-- The items of an array. -/
def items? : Json → Option (List Json)
  | array items => some items
  | _ => none

/-- The members of an object. -/
def members? : Json → Option (List (Text × Json))
  | object members => some members
  | _ => none

/-- The value of the first member of a name, when the value is an object that has one. -/
def member? (value : Json) (name : String) : Option Json :=
  value.members?.bind fun members => members.lookup name.toList

/-- The text of a member, empty when the member is left out. -/
def optionalText? (value : Json) (name : String) : Option Text :=
  match value.member? name with
  | none => some []
  | some member => member.text?

/-- The number of a member, none when the member is left out. -/
def optionalNumber? (value : Json) (name : String) : Option (Option Nat) :=
  match value.member? name with
  | none => some none
  | some member => member.number?.map some

end Json

/-! ## Snippets, groups and catalogs -/

/-- The snippet that an object describes. -/
def Snippet.ofJson? (value : Json) : Option Snippet := do
  let name ← (← value.member? "name").text?
  let abbr ← value.optionalText? "abbr"
  let aliasName ← value.optionalText? "alias"
  let body ← (← (← value.member? "body").items?).mapM Json.text?
  let minIndent ← value.optionalNumber? "min_indent"
  return { name, abbr, aliasName, body, minIndent }

/-- The group that an object describes. -/
def Group.ofJson? (value : Json) : Option Group := do
  let source ← (← value.member? "source_filename").text?
  let snippets ← (← (← value.member? "snippets").items?).mapM Snippet.ofJson?
  return { source := Utf8.encode source, snippets }

namespace Catalog

/-- The entry that a member of a catalog describes. -/
def entryOf? (member : Text × Json) : Option (Text × Group) :=
  (Group.ofJson? member.2).map fun group => (member.1, group)

/-- The catalog that an object describes. -/
def ofJson? (value : Json) : Option Catalog := do
  let entries ← (← value.members?).mapM entryOf?
  if sorted : entries.Pairwise (fun a b => Text.before a.1 b.1 = true) then
    return { entries, sorted }
  else none

/-- The catalog in the text of an exported file. -/
def ofExport? (s : Text) : Option Catalog := do ofJson? (← (← Json.read? s).member? "groups")

end Catalog

end Snippets
