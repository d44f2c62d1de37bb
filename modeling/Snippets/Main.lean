/-
# Snippets.Main — the command line

The program as a command. What it sees of the file system is the root itself and the paths listed
on its standard input, one a line, directories and files alike:

    find ~/.vim ~/.snip | snippets -g go show fn main

These are read into a file tree, the run itself is `execute` on that tree, and afterwards the
export is written to disk when the run has changed it. Everything else stands in the library.
-/
import Snippets.Run
import Std.Time

namespace Snippets.CommandLine

/-- A short reminder of the words of a command line. -/
def usage : String :=
  "usage: snippets [-r DIR] [-g GROUP] [--no-cache] (show NAME [ARG]... | ls | groups)\n"

/-- The version line. -/
def versionLine : String := "snippets 0.1.0\n"

/-- A path as a string. -/
def pathString (p : Path) : String := String.ofList p.display

/-- The environment variables that a run looks at. -/
def readEnvironment : IO Environment := do
  let home ← IO.getEnv "HOME"
  let root ← IO.getEnv "SNIP_SNIPPETS_ROOT"
  return { home := home.map String.toList, snippetsRoot := root.map String.toList }

/-- The tree with what a path leads to on disk: a file with its content, an empty directory, or
nothing when there is nothing to read. -/
def addFromDisk (t : FileTree) (listed : String) : IO FileTree := do
  let path := Path.ofText listed.toList
  try
    let content ← IO.FS.readBinFile listed
    let above := (t.makeDirs (path.parent?.getD [])).1
    return (above.writeFile path content.toList).toOption.getD above
  catch
    | .inappropriateType _ code _ =>
      return if code.toNat = OsError.isDirectory.code then (t.makeDirs path).1 else t
    | _ => return t

/-- The tree with nothing but the working directory and the directories above it. -/
def bareTree : IO FileTree := do
  let workingDir := Path.ofText (← IO.currentDir).toString.toList
  let (made, _) := FileTree.makeDirs { top := [], workingDir := [] } workingDir
  return { made with workingDir := workingDir.steps }

/-- The tree of the root and of the paths listed on standard input, unless that is a terminal. -/
def readTree (root : Path) : IO FileTree := do
  let input ← IO.getStdin
  let listed ← if ← input.isTty then pure #[] else input.lines
  (listed.push (pathString root)).foldlM addFromDisk (← bareTree)

/-- Writes the export to disk when a run has changed it. -/
def writeExport (path : Path) (old new : FileTree) : IO Unit := do
  match new.read path with
  | .error _ => return
  | .ok content =>
    unless (old.read path).toOption = some content do
      IO.FS.createDirAll (pathString (path.parent?.getD Path.here))
      IO.FS.writeBinFile (pathString path) ⟨content.toArray⟩

/-- The time now, as the export states it. -/
def now : IO Text := do
  let t ← Std.Time.DateTime.now
  return (t.format "uuuu-MM-dd'T'HH:mm:ss.SSSSSSSSSxxx").toList

/-- Shows why a command line is not run. -/
def showRefusal : Refusal → IO Unit
  | .versionRequested => IO.print versionLine
  | .helpRequested => IO.print usage
  | _ => IO.eprint usage

end Snippets.CommandLine

open Snippets CommandLine in
/-- The command: reads the environment and the tree, runs, writes the export and the report. -/
def main (args : List String) : IO UInt32 := do
  let words := args.map String.toList
  let env ← readEnvironment
  match parse words with
  | .error refusal =>
    showRefusal refusal
    return refusal.exitStatus.toUInt32
  | .ok invocation =>
    let tree ← readTree (env.root invocation.root)
    let outcome := execute invocation env env.cacheFile (← now) tree
    let report := outcome.report
    writeExport env.cacheFile tree report.tree
    IO.print (String.ofList report.out)
    IO.eprint (String.ofList report.err)
    return report.status.toUInt32
