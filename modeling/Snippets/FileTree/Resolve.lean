/-
# Snippets.FileTree.Resolve — where a path leads

A path is followed step by step, an absolute one from the top of the tree and a relative one from
the working directory. `.` stays, `..` goes to the directory above (the top is its own), and any
other name is looked up. A symbolic link continues with the steps of its target, taken from the
directory that holds the link or, for an absolute target, from the top, followed by the steps that
were left. At most forty links are followed for one path. Only the last step may lead to a file or
to a name that does not exist.

A whole path may have at most 4095 bytes, and a single name 255. The limit on a path is one on the
bytes handed over, before anything is looked up; the targets of links met on the way add nothing
to it.
-/
import Snippets.FileTree.Basic

namespace Snippets

/-- Why the file system refuses an operation. -/
inductive OsError where
  | noSuchEntry
  | alreadyExists
  | notDirectory
  | isDirectory
  | nameTooLong
  | tooManyLinks
deriving DecidableEq, Repr

namespace OsError

/-- The number of an error. -/
def code : OsError → Nat
  | noSuchEntry => 2
  | alreadyExists => 17
  | notDirectory => 20
  | isDirectory => 21
  | nameTooLong => 36
  | tooManyLinks => 40

/-- The description of an error. -/
def description : OsError → Text
  | noSuchEntry => "No such file or directory".toList
  | alreadyExists => "File exists".toList
  | notDirectory => "Not a directory".toList
  | isDirectory => "Is a directory".toList
  | nameTooLong => "File name too long".toList
  | tooManyLinks => "Too many levels of symbolic links".toList

/-- The message of an error: its description and number. -/
def message (e : OsError) : Text :=
  e.description ++ " (os error ".toList ++ Text.ofNat e.code ++ [')']

end OsError

/-- Why reading or writing a file fails. -/
inductive IoError where
  /-- The file system refuses. -/
  | os (cause : OsError)
  /-- The path holds the byte zero. -/
  | zeroInPath
  /-- The content is not valid UTF-8. -/
  | invalidUtf8
deriving DecidableEq, Repr

/-- The message of a failed reading or writing. -/
def IoError.message : IoError → Text
  | os cause => cause.message
  | zeroInPath => "file name contained an unexpected NUL byte".toList
  | invalidUtf8 => "stream did not contain valid UTF-8".toList

namespace FileTree

/-- The greatest length of a name. -/
def nameLimit : Nat := 255

/-- The greatest length of a path. -/
def pathLimit : Nat := 4095

/-- The greatest number of links followed for one path. -/
def linkLimit : Nat := 40

/-- The end of a path that could be followed. -/
structure Arrival where
  /-- The names from the top of the tree, free of links. -/
  location : List Name
  /-- What is there; `none` when the last name does not exist. -/
  node? : Option Node

/-- What a path is followed for, which decides what a slash at its end means. -/
inductive Purpose where
  /-- To see what is there: a slash asks for a directory. -/
  | inspect
  /-- To write a file: a slash rules that out before the last name is looked up. -/
  | write
deriving DecidableEq, Repr

/-- How a path is followed: the purpose, and whether the path ends with a slash. -/
structure Manner where
  /-- What the path is followed for. -/
  purpose : Purpose
  /-- Whether the path ends with a slash. -/
  slashed : Bool
deriving DecidableEq, Repr

/-- Following the steps of a path from the directory at `here`. A link met on the way is left to
`jump`, which gets the directory that holds it, its target, and the steps that are left. -/
def advance (t : FileTree)
    (jump : (here : List Name) → (target : Path) → (rest : List Name) → Except OsError Arrival)
    (manner : Manner) : (here : List Name) → (steps : List Name) → Except OsError Arrival
  | here, [] => .ok { location := here, node? := t.get? here }
  | here, step :: rest =>
    if step = Path.here then advance t jump manner here rest
    else if step = Path.up then advance t jump manner here.dropLast rest
    else if rest.isEmpty ∧ manner = { purpose := .write, slashed := true } then .error .isDirectory
    else if nameLimit < step.length then .error .nameTooLong
    else match t.get? (here ++ [step]) with
      | some (.dir _) => advance t jump manner (here ++ [step]) rest
      | some (.link target) => jump here target rest
      | some (.file content) =>
        if rest.isEmpty && !manner.slashed then
          .ok { location := here ++ [step], node? := some (.file content) }
        else .error .notDirectory
      | none =>
        if rest.isEmpty then .ok { location := here ++ [step], node? := none }
        else .error .noSuchEntry

/-- The manner after a link: a slash at the end of its target counts when no steps are left. -/
def Manner.past (manner : Manner) (target : Path) (rest : List Name) : Manner :=
  { manner with slashed := manner.slashed || (rest.isEmpty && target.endsWithSlash) }

/-- Following the target of a link, and then the steps left, with a number of links that may still
be followed. -/
def jump (t : FileTree) (manner : Manner) : (links : Nat) → (here : List Name) →
    (target : Path) → (rest : List Name) → Except OsError Arrival
  | 0, _, _, _ => .error .tooManyLinks
  | links + 1, here, target, rest =>
    if target.isEmpty then .error .noSuchEntry
    else
      advance t (jump t (manner.past target rest) links) (manner.past target rest)
        (if target.isAbsolute then [] else here) (target.steps ++ rest)

/-- Where a path starts: an absolute one at the top, a relative one in the working directory, which
has to be there. -/
def start? (t : FileTree) (p : Path) : Option (List Name) :=
  if p.isAbsolute then some []
  else match t.get? t.workingDir with
    | some (.dir _) => some t.workingDir
    | _ => none

/-- Following steps from where a path starts. -/
def follow (t : FileTree) (manner : Manner) (p : Path) (steps : List Name) :
    Except OsError Arrival :=
  match t.start? p with
  | none => .error .noSuchEntry
  | some here => advance t (jump t manner linkLimit) manner here steps

/-- A path that may be handed to the file system: it holds no byte zero, is not empty and not too
long. -/
def checkPath (p : Path) : Except IoError Unit :=
  if p.contains 0 then .error .zeroInPath
  else if p.isEmpty then .error (.os .noSuchEntry)
  else if pathLimit < p.length then .error (.os .nameTooLong)
  else .ok ()

/-- Where a path leads, links followed to the end. -/
def resolve (t : FileTree) (purpose : Purpose) (p : Path) : Except IoError Arrival :=
  match checkPath p with
  | .error e => .error e
  | .ok () => (t.follow { purpose, slashed := p.endsWithSlash } p p.steps).mapError .os

/-- What a path leads to, links followed to the end. -/
def stat (t : FileTree) (p : Path) : Except IoError Node :=
  match t.resolve .inspect p with
  | .error e => .error e
  | .ok arrival =>
    match arrival.node? with
    | none => .error (.os .noSuchEntry)
    | some node => .ok node

/-- Whether a path leads to something. -/
def reaches (t : FileTree) (p : Path) : Bool :=
  match t.stat p with
  | .ok _ => true
  | .error _ => false

/-- Whether a path leads to a regular file. -/
def isFile (t : FileTree) (p : Path) : Bool :=
  match t.stat p with
  | .ok (.file _) => true
  | _ => false

/-- Whether a path leads to a directory. -/
def isDir (t : FileTree) (p : Path) : Bool :=
  match t.stat p with
  | .ok (.dir _) => true
  | _ => false

/-- Where the directory above the last name of a path is, links followed. -/
def followAbove (t : FileTree) (p : Path) : Except OsError Arrival :=
  t.follow { purpose := .inspect, slashed := false } p p.steps.dropLast

/-- The location of a new entry: the directory that holds the last name of a path, links followed,
and that name, which has to be free. -/
def vacancy (t : FileTree) (p : Path) : Except IoError (List Name) :=
  match checkPath p with
  | .error e => .error e
  | .ok () =>
    match p.steps.getLast? with
    | none => .error (.os .alreadyExists)
    | some name =>
      match t.followAbove p with
      | .error e => .error (.os e)
      | .ok arrival =>
        match arrival.node? with
        | some (.dir _) =>
          if name = Path.here ∨ name = Path.up then .error (.os .alreadyExists)
          else if nameLimit < name.length then .error (.os .nameTooLong)
          else if (t.get? (arrival.location ++ [name])).isSome then .error (.os .alreadyExists)
          else .ok (arrival.location ++ [name])
        | some _ => .error (.os .notDirectory)
        | none => .error (.os .noSuchEntry)

end FileTree

end Snippets
