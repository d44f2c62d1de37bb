/-
# Snippets.FileTree.Path — paths

A path is a byte string; `/` separates its names. Two readings of it are used. Looking something
up follows the *steps* of a path: the names between slashes, repeated slashes counting once. The
*parts* of a path drop the name `.` as well, except a `.` that starts a relative path; the last
part is the file name, and the path without its last part is the parent.
-/
import Snippets.Text.Utf8

namespace Snippets

/-- A name in a directory. -/
abbrev Name := Bytes

/-- A path: names separated by `/`. -/
abbrev Path := Bytes

namespace Path

/-- The byte `/`. -/
def slash : UInt8 := 47

/-- The byte `.`. -/
def dot : UInt8 := 46

/-- The name of the directory itself. -/
def here : Name := [dot]

/-- The name of the directory above. -/
def up : Name := [dot, dot]

/-- A path that starts with a slash. -/
def isAbsolute (p : Path) : Bool := p.head? = some slash

/-- A path that ends with a slash. -/
def endsWithSlash (p : Path) : Bool := p.getLast? = some slash

/-! ## Paths and text -/

/-- The path that a text names. -/
def ofText (s : Text) : Path := Utf8.encode s

/-- A path as it is shown to a reader: malformed bytes become replacement characters. -/
def display (p : Path) : Text := Utf8.decodeLossy p

/-! ## Joining -/

/-- A name below a path: one slash between them, none after an empty path or one that ends with a
slash. -/
def join (base : Path) (name : Name) : Path :=
  if base.isEmpty || base.endsWithSlash then base ++ name else base ++ slash :: name

/-- Several names below a path. -/
def joinAll (base : Path) (names : List Name) : Path := names.foldl join base

@[simp] theorem joinAll_nil (base : Path) : base.joinAll [] = base := rfl

@[simp] theorem joinAll_cons (base : Path) (name : Name) (names : List Name) :
    base.joinAll (name :: names) = (base.join name).joinAll names := rfl

/-! ## Steps and parts -/

/-- The names that a path leads through, from left to right. -/
def steps (p : Path) : List Name := (p.splitOn slash).filter (fun name => !name.isEmpty)

/-- The names of a path without `.`, except a `.` that starts a relative path. -/
def parts (p : Path) : List Name :=
  match p.steps with
  | [] => []
  | first :: rest =>
    let rest := rest.filter (· ≠ here)
    if first = here ∧ p.isAbsolute then rest else first :: rest

/-- The last part of a path, unless it is `.` or `..`. -/
def fileName? (p : Path) : Option Name := p.parts.getLast?.filter fun name => name ≠ here ∧ name ≠ up

/-! ## The paths above -/

/-- A relative path that starts with the name `.`. -/
def startsHere (p : Path) : Bool := p = here || (here ++ [slash]).isPrefixOf p

/-- The length of the start of a path that no cut goes into: the slash of an absolute path, the
`.` that starts a relative one. -/
def baseLength (p : Path) : Nat := if p.isAbsolute || p.startsHere then 1 else 0

/-- A byte string read from its end, without the slashes and the names `.` met first. -/
def dropIdle : Bytes → Bytes
  | [] => []
  | [b] => if b = slash ∨ b = dot then [] else [b]
  | b :: next :: rest =>
    if b = slash then dropIdle (next :: rest)
    else if b = dot ∧ next = slash then dropIdle rest
    else b :: next :: rest

/-- The path without its last part, if it has one. It is cut out of the path as it stands: slashes
and names `.` go where they would end up last, all others stay. -/
def parent? (p : Path) : Option Path :=
  let base := p.take p.baseLength
  match dropIdle (p.drop p.baseLength).reverse with
  | [] => if base = here then some [] else none
  | below => some (base ++ (dropIdle (below.dropWhile (· ≠ slash))).reverse)

/-- The path and the paths above it, at most `count` of them, up to the last that is not empty. -/
def ancestorsWithin : (count : Nat) → Path → List Path
  | 0, _ => []
  | count + 1, p =>
    if p.isEmpty then []
    else p :: match p.parent? with
      | none => []
      | some above => ancestorsWithin count above

/-- The path and the paths above it, from itself upwards. Each is shorter than the one before, so
there are no more of them than bytes. -/
def ancestors (p : Path) : List Path := ancestorsWithin p.length p

/-! ## Stem and extension -/

/-- A file name as stem and extension, cut at its last dot; a name without a dot, or with its only
dot at the start, has no extension. -/
def splitExtension (name : Name) : Name × Option Name :=
  let after := name.reverse.takeWhile (· ≠ dot)
  match name.reverse.dropWhile (· ≠ dot) with
  | [] => (name, none)
  | [_] => (name, none)
  | _ :: before => (before.reverse, some after.reverse)

end Path

end Snippets
