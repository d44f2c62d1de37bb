/-
# Snippets.FileTree.Operations — reading and changing a file tree

Each operation gives the new tree, or the reason why it is refused. Making a directory with all
directories above it can stop half way; then the directories made so far stay, so it gives the
tree in both cases.
-/
import Snippets.FileTree.Resolve

namespace Snippets.FileTree

/-! ## Files -/

/-- The content of the file a path leads to. -/
def read (t : FileTree) (p : Path) : Except IoError Bytes :=
  match t.stat p with
  | .error e => .error e
  | .ok (.file content) => .ok content
  | .ok _ => .error (.os .isDirectory)

/-- The tree with a content in the file a path leads to. A file that does not exist is made, also
at the end of a link; its directory has to exist. -/
def writeFile (t : FileTree) (p : Path) (content : Bytes) : Except IoError FileTree :=
  match t.resolve .write p with
  | .error e => .error e
  | .ok arrival =>
    match arrival.node? with
    | some (.dir _) => .error (.os .isDirectory)
    | _ => .ok (t.put arrival.location (.file content))

/-! ## Directories -/

/-- The tree with an empty directory under a name that is free. -/
def makeDir (t : FileTree) (p : Path) : Except IoError FileTree :=
  (t.vacancy p).map fun location => t.put location (.dir [])

/-- A refusal to make a directory is no failure when the path leads to a directory anyway. -/
def acceptDir (t : FileTree) (p : Path) (e : IoError) : Except IoError Unit :=
  if t.isDir p then .ok () else .error e

/-- The tree with the directory at the first of the paths, which lead upwards one from the other.
The first is tried first; only when it is refused because something above it is missing, the
directories above it are made and it is tried again. -/
def makeDirsUp (t : FileTree) : List Path → FileTree × Except IoError Unit
  | [] => (t, .ok ())
  | p :: above =>
    match t.makeDir p with
    | .ok made => (made, .ok ())
    | .error (.os .noSuchEntry) =>
      match makeDirsUp t above with
      | (below, .error e) => (below, .error e)
      | (below, .ok ()) =>
        match below.makeDir p with
        | .ok made => (made, .ok ())
        | .error e => (below, below.acceptDir p e)
    | .error e => (t, t.acceptDir p e)

/-- The tree with the directory that a path names and the directories above it. -/
def makeDirs (t : FileTree) (p : Path) : FileTree × Except IoError Unit := t.makeDirsUp p.ancestors

end Snippets.FileTree
