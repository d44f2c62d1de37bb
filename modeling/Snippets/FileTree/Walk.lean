/-
# Snippets.FileTree.Walk — what lies below a directory, in order

A directory is walked depth first: it is met before its entries, and these come in ascending order
of the bytes of their names. The walk does not enter a directory through a link; the link itself
is met like a file. The walk of a path gives the paths met, each the path given joined with the
names below it. Such a path can be longer than a path may be; the walk lists it all the same, and
who opens it is refused.
-/
import Snippets.FileTree.Operations
import Snippets.Text.Order

namespace Snippets

/-! ## Ascending order of names -/

/-- The entries with one more, put before the first entry whose name is greater. -/
def insertByName {α : Type} (entry : Name × α) : List (Name × α) → List (Name × α)
  | [] => [entry]
  | other :: rest =>
    if Bytes.before entry.1 other.1 then entry :: other :: rest else other :: insertByName entry rest

/-- The entries in ascending order of the bytes of their names; entries of one name keep their
order. -/
def sortByName {α : Type} (entries : List (Name × α)) : List (Name × α) :=
  entries.foldl (fun sorted entry => insertByName entry sorted) []

/-! ## The walk -/

/-- What a walk meets. -/
inductive Stop where
  /-- A directory, met before its entries. -/
  | directory
  /-- A file or a link. -/
  | leaf
deriving DecidableEq, Repr

mutual

/-- What a walk of a node meets, in order, each with the names that lead to it. -/
def Node.stops : Node → List (Stop × List Name)
  | .file _ => [(.leaf, [])]
  | .link _ => [(.leaf, [])]
  | .dir entries =>
    (.directory, []) :: (sortByName (entryStops entries)).flatMap fun entry =>
      entry.2.map fun stop => (stop.1, entry.1 :: stop.2)

/-- What a walk of each entry of a directory meets. -/
def entryStops : List (Name × Node) → List (Name × List (Stop × List Name))
  | [] => []
  | (name, node) :: rest => (name, node.stops) :: entryStops rest

end

namespace FileTree

/-- What a walk from a path meets: only the path itself when it leads to a file, and also what lies
below it when it leads to a directory. -/
def walk (t : FileTree) (root : Path) : Except IoError (List (Stop × Path)) :=
  (t.stat root).map fun node => node.stops.map fun stop => (stop.1, root.joinAll stop.2)

end FileTree

end Snippets
