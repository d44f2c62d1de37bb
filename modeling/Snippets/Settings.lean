/-
# Snippets.Settings — where snippets and the export are found

The root of the snippet files is the one given on the command line, else the one set in the
environment unless it is blank, else `.vim` in the home directory. The export is `groups.json` in
`.snip` in the home directory. Without a home directory both are relative.
-/
import Snippets.FileTree.Path
import Snippets.Text.Blank

namespace Snippets

/-- What the environment says. -/
structure Environment where
  /-- The home directory, when it is set. -/
  home : Option Text
  /-- The root of the snippet files, when it is set. -/
  snippetsRoot : Option Text
deriving DecidableEq, Repr

namespace Environment

/-- A name in the home directory, or the name alone when there is no home directory. -/
def inHome (env : Environment) (name : String) : Path :=
  match env.home with
  | some home => (Path.ofText home).join (Path.ofText name.toList)
  | none => Path.ofText name.toList

/-- The directory of the program's own files. -/
def configDir (env : Environment) : Path := env.inHome ".snip"

/-- The path of the export. -/
def cacheFile (env : Environment) : Path := env.configDir.join (Path.ofText "groups.json".toList)

/-- The root when the command line gives none. -/
def defaultRoot (env : Environment) : Path :=
  match env.snippetsRoot with
  | some root =>
    if Text.trim root = [] then env.inHome ".vim" else Path.ofText (Text.trim root)
  | none => env.inHome ".vim"

/-- The root of the snippet files. -/
def root (env : Environment) (given : Option Path) : Path := given.getD env.defaultRoot

end Environment

end Snippets
