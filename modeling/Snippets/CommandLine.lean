/-
# Snippets.CommandLine — the words of a command line

A command line is a row of options and then a command with its own words. An option with a value
may have it attached (`-gV`, `-g=V`, `--group=V`) or as the next word; a next word may not look
like an option, except `-` itself. `--` ends the options. Words are texts; an invocation holds its
root as a path, which for a root given in words is the one that the text names.

Words are read from left to right and the first offence decides, with one delay: a detached value
is judged when the next option, the end of the options or the end of the line is reached. So an
unknown word is reported before a fault of the value in front of it.
-/
import Snippets.FileTree.Path

namespace Snippets

/-- What to do with the catalog. -/
inductive Command where
  /-- Render a snippet with arguments. -/
  | render (name : Text) (args : List Text)
  /-- List the names of the snippets of the group. -/
  | listSnippets
  /-- List the groups. -/
  | listGroups
deriving DecidableEq, Repr

/-- An accepted command line. -/
structure Invocation where
  /-- The root of the snippet files, when given. -/
  root : Option Path
  /-- The group to look in. -/
  group : Text
  /-- Whether the export is left out. -/
  noCache : Bool
  /-- What to do. -/
  command : Command
deriving DecidableEq, Repr

/-- Why a command line is not run. -/
inductive Refusal where
  /-- Help was asked for. -/
  | helpRequested
  /-- The version was asked for. -/
  | versionRequested
  /-- Nothing was given at all. -/
  | nothingGiven
  /-- Options without a command. -/
  | missingCommand
  /-- A word that should be a command and is none. -/
  | unknownCommand
  /-- Rendering without the name of a snippet. -/
  | missingName
  /-- A word that has no place where it stands. -/
  | unknownArgument
  /-- An option without its value, or an empty root. -/
  | invalidValue
  /-- An option given twice. -/
  | repeatedOption
  /-- A value attached to an option that takes none. -/
  | needlessValue
deriving DecidableEq, Repr

/-- The exit status of a refused command line: zero when help or the version was asked for. -/
def Refusal.exitStatus : Refusal → Nat
  | helpRequested => 0
  | versionRequested => 0
  | _ => 2

namespace CommandLine

/-- The group when none is given. -/
def defaultGroup : Text := "go".toList

/-! ## One word -/

/-- The options that take a value. -/
inductive ValueOption where
  | root
  | group
deriving DecidableEq, Repr

/-- The options that take none. -/
inductive Flag where
  | noCache
  | help
  | version
deriving DecidableEq, Repr

/-- What a word looks like by itself. -/
inductive Shape where
  /-- It does not look like an option. -/
  | plain
  /-- It is `--`. -/
  | separator
  /-- An option that takes no value. -/
  | flag (f : Flag)
  /-- An option that takes no value, with a value attached. -/
  | overfull
  /-- An option that takes a value, and the value attached to it, if any. -/
  | valued (o : ValueOption) (attached : Option Text)
  /-- It looks like an option and is none. -/
  | unknown
deriving DecidableEq, Repr

/-- The text before the first equals sign, and the text behind it when there is one. -/
def splitEquals : Text → Text × Option Text
  | [] => ([], none)
  | c :: rest =>
    if c = '=' then ([], some rest) else (c :: (splitEquals rest).1, (splitEquals rest).2)

/-- The flag of a long name. -/
def longFlag? (name : Text) : Option Flag :=
  if name = "no-cache".toList then some .noCache
  else if name = "help".toList then some .help
  else if name = "version".toList then some .version
  else none

/-- The option with a value of a long name. -/
def longValued? (name : Text) : Option ValueOption :=
  if name = "root".toList then some .root
  else if name = "group".toList then some .group
  else none

/-- The shape of a word that starts with two dashes and holds more. -/
def longShape (body : Text) : Shape :=
  let (name, attached) := splitEquals body
  match longValued? name, longFlag? name with
  | some o, _ => .valued o attached
  | none, some f => if attached.isSome then .overfull else .flag f
  | none, none => .unknown

/-- The value attached to a short option by the rest of its word. -/
def shortAttached : Text → Option Text
  | [] => none
  | '=' :: rest => some rest
  | rest => some rest

/-- The shape of a word that starts with one dash and the character `letter`. -/
def shortShape (letter : Char) (rest : Text) : Shape :=
  if letter = 'r' then .valued .root (shortAttached rest)
  else if letter = 'g' then .valued .group (shortAttached rest)
  else if letter = 'h' then .flag .help
  else if letter = 'V' then .flag .version
  else .unknown

/-- What a word looks like by itself. -/
def shape : Text → Shape
  | ['-', '-'] => .separator
  | '-' :: '-' :: body => longShape body
  | '-' :: letter :: rest => shortShape letter rest
  | _ => .plain

/-! ## The words of a command -/

/-- The names of the commands. -/
inductive CommandName where
  | render
  | listSnippets
  | listGroups
  | help
deriving DecidableEq, Repr

/-- The command that a word names. -/
def commandName? (word : Text) : Option CommandName :=
  if word = "show".toList then some .render
  else if word = "ls".toList then some .listSnippets
  else if word = "groups".toList then some .listGroups
  else if word = "help".toList then some .help
  else none

/-- A word that looks like an option, among the words of a command: only help is known there. -/
def refusalInCommand : Shape → Refusal
  | .flag .help => .helpRequested
  | .overfull => .needlessValue
  | _ => .unknownArgument

/-- The shape of a word among the words of a command, where only `-h` and `--help` are options. -/
def shapeInCommand (word : Text) : Shape :=
  match word with
  | '-' :: '-' :: body =>
    match body, splitEquals body with
    | [], _ => .separator
    | _, (name, attached) =>
      if name = "help".toList then (if attached.isSome then .overfull else .flag .help)
      else .unknown
  | '-' :: letter :: _ => if letter = 'h' then .flag .help else .unknown
  | _ => .plain

/-- The positional words of a command: up to `--` none may look like an option, behind it every
word counts. -/
def positionals : List Text → Except Refusal (List Text)
  | [] => .ok []
  | word :: rest =>
    match shapeInCommand word with
    | .plain => (positionals rest).map (word :: ·)
    | .separator => .ok rest
    | other => .error (refusalInCommand other)

/-- Refuses the positional words of a command that takes none; the first one decides. -/
def noPositionals : List Text → Except Refusal Unit
  | [] => .ok ()
  | word :: rest =>
    match shapeInCommand word with
    | .plain => .error .unknownArgument
    | .separator => if rest.isEmpty then .ok () else .error .unknownArgument
    | other => .error (refusalInCommand other)

/-- What the words after `help` ask for: help on one command at most. -/
def helpOn : List Text → Refusal
  | [] => .helpRequested
  | [word] => if (commandName? word).isSome then .helpRequested else .unknownCommand
  | _ => .unknownCommand

/-- The command with a name and the words behind it. -/
def commandOf (name : CommandName) (rest : List Text) : Except Refusal Command :=
  match name with
  | .render =>
    match positionals rest with
    | .error e => .error e
    | .ok [] => .error .missingName
    | .ok (snippet :: args) => .ok (.render snippet args)
  | .listSnippets => (noPositionals rest).map fun _ => .listSnippets
  | .listGroups => (noPositionals rest).map fun _ => .listGroups
  | .help => .error (helpOn rest)

/-! ## The options -/

/-- The options given so far. -/
structure Options where
  /-- The root, when given. -/
  root : Option Path
  /-- The group, when given. -/
  group : Option Text
  /-- Whether the export is left out. -/
  noCache : Bool
deriving DecidableEq, Repr

/-- No options. -/
def Options.none : Options := { root := .none, group := .none, noCache := false }

/-- Whether an option has been given a value. -/
def Options.has (o : Options) : ValueOption → Bool
  | .root => o.root.isSome
  | .group => o.group.isSome

/-- The options with one more value: an option may be given once, and a root is not empty. -/
def Options.give (o : Options) (name : ValueOption) (value : Text) : Except Refusal Options :=
  if o.has name then .error .repeatedOption
  else match name with
    | .root =>
      if value.isEmpty then .error .invalidValue
      else .ok { o with root := some (Path.ofText value) }
    | .group => .ok { o with group := some value }

/-- An option whose value is detached and has not been judged yet. -/
inductive Pending where
  /-- There is none. -/
  | nothing
  /-- An option that waits for its value. -/
  | waiting (name : ValueOption)
  /-- An option with the word that follows it. -/
  | valued (name : ValueOption) (value : Text)
deriving DecidableEq, Repr

/-- The options after the delayed judgement. -/
def Options.settle (o : Options) : Pending → Except Refusal Options
  | .nothing => .ok o
  | .waiting _ => .error .invalidValue
  | .valued name value => o.give name value

/-- The options with a flag. -/
def Options.raise (o : Options) : Flag → Except Refusal Options
  | .noCache => if o.noCache then .error .repeatedOption else .ok { o with noCache := true }
  | .help => .error .helpRequested
  | .version => .error .versionRequested

/-- The refusal of a line without a command. -/
def Options.withoutCommand (o : Options) : Refusal :=
  if o = .none then .nothingGiven else .missingCommand

/-- The end of a line without a command. -/
def finish (o : Options) (pending : Pending) : Except Refusal Invocation :=
  match o.settle pending with
  | .error e => .error e
  | .ok settled => .error settled.withoutCommand

/-- The words behind a `--` that stands before the command: there is no place for them. -/
def afterSeparator (o : Options) (pending : Pending) : List Text → Except Refusal Invocation
  | [] => finish o pending
  | word :: _ =>
    .error (if (commandName? word).isSome then .unknownArgument else .unknownCommand)

/-- The invocation of a command: its words are judged before a value that is still pending. -/
def invoke (o : Options) (pending : Pending) (name : CommandName) (rest : List Text) :
    Except Refusal Invocation :=
  match commandOf name rest with
  | .error e => .error e
  | .ok command =>
    match o.settle pending with
    | .error e => .error e
    | .ok settled =>
      .ok {
        root := settled.root
        group := settled.group.getD defaultGroup
        noCache := settled.noCache
        command }

/-- Reading words, given the options so far and the option that is pending. -/
def readWords : (o : Options) → (pending : Pending) → List Text → Except Refusal Invocation
  | o, pending, [] => finish o pending
  | o, pending, word :: rest =>
    match shape word with
    | .separator => afterSeparator o pending rest
    | .unknown => .error .unknownArgument
    | .overfull => .error .needlessValue
    | .flag f =>
      match o.settle pending with
      | .error e => .error e
      | .ok settled =>
        match settled.raise f with
        | .error e => .error e
        | .ok raised => readWords raised .nothing rest
    | .valued name none =>
      match o.settle pending with
      | .error e => .error e
      | .ok settled => readWords settled (.waiting name) rest
    | .valued name (some value) =>
      match o.settle pending with
      | .error e => .error e
      | .ok settled =>
        match settled.give name value with
        | .error e => .error e
        | .ok given => readWords given .nothing rest
    | .plain =>
      match pending with
      | .waiting name => readWords o (.valued name word) rest
      | _ =>
        match commandName? word with
        | none => .error .unknownCommand
        | some name => invoke o pending name rest

/-- The invocation that a command line asks for, or why it is refused. -/
def parse (words : List Text) : Except Refusal Invocation := readWords .none .nothing words

end CommandLine

end Snippets
