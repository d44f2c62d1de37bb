/-
# Snippets.Catalog.Load — the catalog of the snippet files below a directory

A file belongs to the group named by the stem of its name when its extension is `snip` and the
stem is valid UTF-8; any other file is passed over. The files are read in the order of the walk,
so of two files with one group name the later one wins. The first directory that cannot be opened
and the first file that cannot be read end the load; the events up to there remain.
-/
import Snippets.Catalog.Basic
import Snippets.Event
import Snippets.FileTree.Walk
import Snippets.Snippet.Reader

namespace Snippets

/-- The extension of a snippet file. -/
def snippetExtension : Name := Utf8.encode "snip".toList

/-- The name of the group that a file defines, if it is a snippet file. -/
def groupName? (p : Path) : Option Text :=
  match p.fileName? with
  | none => none
  | some name =>
    match Path.splitExtension name with
    | (stem, some extension) => if extension = snippetExtension then Utf8.decode stem else none
    | (_, none) => none

/-- The snippets in the file that a path leads to. -/
def FileTree.readSnippets (t : FileTree) (p : Path) : Except IoError (List Snippet) :=
  match t.read p with
  | .error e => .error e
  | .ok content =>
    match Snippet.ofBytes? content with
    | none => .error .invalidUtf8
    | some snippets => .ok snippets

namespace Catalog

/-- A load: what was reported, and the catalog or the reason why there is none. -/
structure Loaded where
  /-- The events, in order. -/
  events : List Event
  /-- The catalog, or the reason why there is none. -/
  result : Except Failure Catalog

/-- The load with earlier events in front. -/
def Loaded.after (earlier : List Event) (l : Loaded) : Loaded :=
  { l with events := earlier ++ l.events }

/-- The load along the stops of a walk, in order, on top of a catalog. A directory is opened, a path
that leads to a file is read, and one that leads to no file is passed over without an event. -/
def loadStops (t : FileTree) (c : Catalog) : List (Stop × Path) → Loaded
  | [] => { events := [], result := .ok c }
  | (.directory, path) :: rest =>
    match FileTree.checkPath path with
    | .error e => { events := [], result := .error (.walk path e) }
    | .ok () => loadStops t c rest
  | (.leaf, path) :: rest =>
    if t.isFile path then
      match groupName? path with
      | none => (loadStops t c rest).after [.skipped path]
      | some key =>
        match t.readSnippets path with
        | .error e => { events := [], result := .error (.io e) }
        | .ok snippets =>
          let (replaced, grown) := c.insert key { source := path, snippets }
          (loadStops t grown rest).after
            (.parsed key path snippets.length ::
              (replaced.map fun old => Event.redefined key old.source).toList)
    else loadStops t c rest

/-- The load of the snippet files below a root. -/
def load (t : FileTree) (root : Path) : Loaded :=
  match t.walk root with
  | .error e => { events := [], result := .error (.walk root e) }
  | .ok stops => loadStops t .empty stops

end Catalog

end Snippets
