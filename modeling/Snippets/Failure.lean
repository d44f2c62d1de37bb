/-
# Snippets.Failure — why a run fails

Every failure is a cause with the data that its message names. `Failure.message` is the only place
where the wording stands.
-/
import Snippets.FileTree.Resolve
import Snippets.Text.Quoted

namespace Snippets

/-- Why a run fails. -/
inductive Failure where
  /-- A file could not be read or written. -/
  | io (cause : IoError)
  /-- The root of a walk or a directory below it could not be opened. -/
  | walk (path : Path) (cause : IoError)
  /-- The source path of a group is not valid UTF-8, so the catalog has no JSON form. -/
  | sourceNotText
  /-- There is no group of that name. -/
  | groupNotFound (group : Text)
  /-- The group has no snippet of that name. -/
  | snippetNotFound (group name : Text)
deriving DecidableEq, Repr

/-- The message of a failure. -/
def Failure.message : Failure → Text
  | io cause => "I/O error: ".toList ++ cause.message
  | walk path cause =>
    "Directory walk error: IO error for operation on ".toList ++ path.display ++ ": ".toList
      ++ cause.message
  | sourceNotText => "JSON error: path contains invalid UTF-8 characters".toList
  | groupNotFound group => "group ".toList ++ Text.quote group ++ " not found".toList
  | snippetNotFound group name =>
    "snippet ".toList ++ Text.quote name ++ " not found in group ".toList ++ Text.quote group

end Snippets
