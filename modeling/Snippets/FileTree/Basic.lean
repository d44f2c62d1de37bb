/-
# Snippets.FileTree.Basic — directories, files and symbolic links

A file tree is the directory at its top: a list of names, each with a file, a symbolic link or a
directory. A node is addressed by the names that lead to it from the top; links on the way are not
followed here. With the tree goes the place of the working directory, where relative paths start.
-/
import Snippets.FileTree.Path

namespace Snippets

/-- What a name in a directory stands for. -/
inductive Node where
  /-- A regular file with its content. -/
  | file (content : Bytes)
  /-- A symbolic link with its target. -/
  | link (target : Path)
  /-- A directory with its entries. -/
  | dir (entries : List (Name × Node))

/-- The entries of a directory. -/
abbrev Directory := List (Name × Node)

/-- A file tree, seen from a working directory. -/
structure FileTree where
  /-- The directory at the top. -/
  top : Directory
  /-- The names that lead from the top to the working directory. -/
  workingDir : List Name

namespace Directory

/-- The node at a list of names below a directory. -/
def get? : Directory → List Name → Option Node
  | d, [] => some (.dir d)
  | d, [name] => d.lookup name
  | d, name :: next :: rest =>
    match d.lookup name with
    | some (.dir inner) => get? inner (next :: rest)
    | _ => none

/-- The directory with a node under a name, in place of what the name stood for before. -/
def set : Directory → Name → Node → Directory
  | [], name, node => [(name, node)]
  | (key, old) :: rest, name, node =>
    if key = name then (key, node) :: rest else (key, old) :: set rest name node

/-- The directory with a node at a list of names below it. Nothing happens when there is no
directory that could hold the last of the names. -/
def put : Directory → List Name → Node → Directory
  | d, [], _ => d
  | d, [name], node => d.set name node
  | d, name :: next :: rest, node =>
    match d.lookup name with
    | some (.dir inner) => d.set name (.dir (put inner (next :: rest) node))
    | _ => d

end Directory

namespace FileTree

/-- The node at a list of names below the top. -/
def get? (t : FileTree) (location : List Name) : Option Node := t.top.get? location

/-- The tree with a node at a list of names below the top. -/
def put (t : FileTree) (location : List Name) (node : Node) : FileTree :=
  { t with top := t.top.put location node }

end FileTree

end Snippets
