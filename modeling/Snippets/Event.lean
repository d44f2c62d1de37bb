/-
# Snippets.Event — what a run reports on its log

The events of loading and exporting, in the order in which they happen. An event is written as a
level, a message and named fields.
-/
import Snippets.Failure

namespace Snippets

/-- Something worth a line in the log. -/
inductive Event where
  /-- A run starts to load the files below a root. -/
  | loading (root : Path)
  /-- A file was passed over because of its name. -/
  | skipped (path : Path)
  /-- A file was read into a group. -/
  | parsed (group : Text) (path : Path) (count : Nat)
  /-- A group took the place of one read before. -/
  | redefined (group : Text) (replaced : Path)
  /-- The catalog was exported. -/
  | saved (path : Path) (groups : Nat)
deriving DecidableEq, Repr

namespace Event

/-- How important an event is. -/
def level : Event → Text
  | saved _ _ => "INFO".toList
  | _ => "DEBUG".toList

/-- The message of an event. -/
def message : Event → Text
  | loading _ => "loading snippets".toList
  | skipped _ => "skipping non-snippet file".toList
  | parsed _ _ _ => "parsed snippet file".toList
  | redefined _ _ => "group defined more than once".toList
  | saved _ _ => "saved snippet cache".toList

/-- The named fields of an event. -/
def fields : Event → List (Text × Text)
  | loading root => [("root".toList, root.display)]
  | skipped path => [("path".toList, path.display)]
  | parsed group path count =>
    [("group".toList, group), ("path".toList, path.display), ("count".toList, Text.ofNat count)]
  | redefined group replaced => [("group".toList, group), ("replaced".toList, replaced.display)]
  | saved path groups => [("path".toList, path.display), ("groups".toList, Text.ofNat groups)]

end Event

end Snippets
