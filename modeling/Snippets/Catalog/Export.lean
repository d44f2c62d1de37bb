/-
# Snippets.Catalog.Export — a catalog as JSON

A catalog is an object with one member for each group, in ascending order of names; a group is an
object with its source path and its snippets; a snippet leaves out an empty description, an empty
alias and an absent margin. A source path has to be valid UTF-8, otherwise nothing is written.

The exported file holds the time of the export and the catalog, in the pretty form and without a
line feed at its end.
-/
import Snippets.Catalog.Basic
import Snippets.Json.Basic

namespace Snippets

/-- A member with a text, unless the text is empty. -/
def Json.optionalMember (name : String) (s : Text) : List (Text × Json) :=
  if s.isEmpty then [] else [(name.toList, .string s)]

/-- A snippet as an object. -/
def Snippet.toJson (s : Snippet) : Json :=
  .object (
    [("name".toList, .string s.name)]
    ++ Json.optionalMember "abbr" s.abbr
    ++ Json.optionalMember "alias" s.aliasName
    ++ [("body".toList, .array (s.body.map .string))]
    ++ (s.minIndent.map fun n => ("min_indent".toList, Json.number n)).toList)

/-- A group as an object, if its source path is valid UTF-8. -/
def Group.toJson? (g : Group) : Option Json :=
  (Utf8.decode g.source).map fun source =>
    .object [
      ("source_filename".toList, .string source),
      ("snippets".toList, .array (g.snippets.map Snippet.toJson))]

namespace Catalog

/-- The members of an object for entries of a catalog, if all source paths are valid UTF-8. -/
def membersOf? (entries : List (Text × Group)) : Option (List (Text × Json)) :=
  entries.mapM fun entry => (Group.toJson? entry.2).map fun value => (entry.1, value)

/-- A catalog as an object, if all source paths are valid UTF-8. -/
def toJson? (c : Catalog) : Option Json := (membersOf? c.entries).map .object

/-- The content of the exported file: the time of the export and the catalog. -/
def exportFile? (c : Catalog) (generatedAt : Text) : Option Text :=
  c.toJson?.map fun groups =>
    Json.pretty (.object [
      ("generated_at".toList, .string generatedAt),
      ("groups".toList, groups)])

end Catalog

end Snippets
