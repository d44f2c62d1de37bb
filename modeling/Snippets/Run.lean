/-
# Snippets.Run — running a command

A run loads the snippet files, exports the catalog unless that is switched off, and then carries
out the command. The export comes before the command looks anything up, so it is written also when
the group or snippet asked for does not exist.
-/
import Snippets.Catalog.Load
import Snippets.Catalog.Save
import Snippets.CommandLine
import Snippets.Settings

namespace Snippets

namespace Catalog

/-- The group of a name, or the failure to find it. -/
def group (c : Catalog) (name : Text) : Except Failure Group :=
  match c.find? name with
  | some g => .ok g
  | none => .error (.groupNotFound name)

/-- A command on a catalog, with the group it looks in: the output after the command, which writes
behind `out`, and whether it succeeds. Everything is looked up before anything is written. -/
def perform (c : Catalog) (group : Text) (command : Command) (out : Text) :
    Text × Except Failure Unit :=
  match command with
  | .render name args =>
    match c.group group with
    | .error e => (out, .error e)
    | .ok g =>
      match g.find? name with
      | none => (out, .error (.snippetNotFound group name))
      | some snippet => (out ++ (snippet.render args ++ ['\n']), .ok ())
  | .listSnippets =>
    match c.group group with
    | .error e => (out, .error e)
    | .ok g => (out ++ g.listing, .ok ())
  | .listGroups => (out ++ c.listing, .ok ())

/-- What a command writes to an empty output when it succeeds, or why it fails. -/
def run (c : Catalog) (group : Text) (command : Command) : Except Failure Text :=
  match c.perform group command [] with
  | (_, .error e) => .error e
  | (out, .ok ()) => .ok out

end Catalog

/-- What a run leaves behind. -/
structure Outcome where
  /-- The tree afterwards. -/
  tree : FileTree
  /-- The events, in order. -/
  events : List Event
  /-- What has been written to the output. -/
  output : Text
  /-- Success, or the reason for the failure. -/
  result : Except Failure Unit

/-- The outcome of a command on a catalog, after `events` and on a tree that it leaves as it is. -/
def Catalog.outcome (c : Catalog) (invocation : Invocation) (events : List Event) (t : FileTree) :
    Outcome :=
  let (output, result) := c.perform invocation.group invocation.command []
  { tree := t, events, output, result }

/-- The run of an accepted command line. `cache` is the path of the export and `generatedAt` the
time written into it. -/
def execute (invocation : Invocation) (env : Environment) (cache : Path) (generatedAt : Text)
    (t : FileTree) : Outcome :=
  let root := env.root invocation.root
  let loaded := Catalog.load t root
  let events := .loading root :: loaded.events
  match loaded.result with
  | .error e => { tree := t, events, output := [], result := .error e }
  | .ok catalog =>
    if invocation.noCache then catalog.outcome invocation events t
    else
      let saved := catalog.save generatedAt cache t
      let events := events ++ saved.events
      match saved.result with
      | .error e => { tree := saved.tree, events, output := [], result := .error e }
      | .ok () => catalog.outcome invocation events saved.tree

/-! ## The program as a whole -/

/-- What a user of the program sees, and the tree afterwards. -/
structure Report where
  /-- The exit status. -/
  status : Nat
  /-- What is written to standard output. -/
  out : Text
  /-- What is written to standard error. -/
  err : Text
  /-- The tree afterwards. -/
  tree : FileTree

/-- The report of an outcome: a failure goes to standard error and gives status one. -/
def Outcome.report (o : Outcome) : Report :=
  match o.result with
  | .ok () => { status := 0, out := o.output, err := [], tree := o.tree }
  | .error e =>
    { status := 1, out := o.output, err := "Error: ".toList ++ e.message ++ ['\n'], tree := o.tree }

/-- The whole program on the words of a command line. -/
def runProgram (words : List Text) (env : Environment) (generatedAt : Text) (t : FileTree) :
    Except Refusal Report :=
  (CommandLine.parse words).map fun invocation =>
    (execute invocation env env.cacheFile generatedAt t).report

end Snippets
