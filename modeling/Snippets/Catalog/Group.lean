/-
# Snippets.Catalog.Group — the snippets of one file

A group holds the snippets of one file in file order, together with the path of that file. Names
may repeat; looking one up gives the first snippet with that name, and aliases are never
consulted.
-/
import Snippets.FileTree.Path
import Snippets.Snippet.Basic

namespace Snippets

/-- The snippets of one file. -/
structure Group where
  /-- The path of the file. -/
  source : Path
  /-- The snippets, in file order. -/
  snippets : List Snippet
deriving DecidableEq, Repr

namespace Group

/-- The first snippet with a name. -/
def find? (g : Group) (name : Text) : Option Snippet := g.snippets.find? (·.name = name)

/-- The names of the snippets, in file order, with repetitions. -/
def names (g : Group) : List Text := g.snippets.map (·.name)

/-- The names of the snippets, each ended by a line feed. -/
def listing (g : Group) : Text := g.names.flatMap (· ++ ['\n'])

end Group

end Snippets
