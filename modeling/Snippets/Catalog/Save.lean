/-
# Snippets.Catalog.Save — writing the export of a catalog

The directory of the export is made when it does not exist, with all directories above it; then
the export is composed, and last the file is written. A failure ends the sequence where it
happens: directories made before stay, and the file is untouched until its content is complete.
-/
import Snippets.Catalog.Export
import Snippets.Event
import Snippets.FileTree.Operations

namespace Snippets.Catalog

/-- A save: the tree afterwards, what was reported, and the reason why it failed, if it did. -/
structure Saved where
  /-- The tree afterwards. -/
  tree : FileTree
  /-- The events, in order. -/
  events : List Event
  /-- Success, or the reason for the failure. -/
  result : Except Failure Unit

/-- The tree with the directory of a path, made when it does not exist. -/
def prepareDirectory (t : FileTree) (path : Path) : FileTree × Except IoError Unit :=
  match path.parent? with
  | none => (t, .ok ())
  | some parent =>
    if parent.isEmpty || t.reaches parent then (t, .ok ()) else t.makeDirs parent

/-- The save of a catalog under a path. -/
def save (c : Catalog) (generatedAt : Text) (path : Path) (t : FileTree) : Saved :=
  match prepareDirectory t path with
  | (prepared, .error e) => { tree := prepared, events := [], result := .error (.io e) }
  | (prepared, .ok ()) =>
    match c.exportFile? generatedAt with
    | none => { tree := prepared, events := [], result := .error .sourceNotText }
    | some text =>
      match prepared.writeFile path (Utf8.encode text) with
      | .error e => { tree := prepared, events := [], result := .error (.io e) }
      | .ok written => { tree := written, events := [.saved path c.size], result := .ok () }

end Snippets.Catalog
