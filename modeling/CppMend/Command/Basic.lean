import CppMend.Command.Arguments

/-!
# Commands

What the command line can ask for: to serve an editor, to print the tree of a file or the path to
a place in it, and to list the symbols of a directory.

* `Command.read`    the command of some arguments.
-/

namespace CppMend

/-- A place in a file as it is given on a command line. -/
inductive Place where
  | offset (n : Nat)
  | lineColumn (line column : Nat)
  deriving DecidableEq, Repr

inductive Command where
  | serve
  | tree (file : Text)
  | path (file : Text) (place : Option Place)
  | symbols (root query : Text) (limit : Nat)
  deriving DecidableEq, Repr

namespace Command

/-! ## usage -/

/-- a usage of some options and words, with the options that every command has -/
def usage (options words : List Valued) : Usage where
  switches := ["verbose"]
  helps := ["help"]
  letters := [('v', "verbose"), ('h', "help")]
  options := ⟨"log-file", .path⟩ :: options
  words

/-- what comes before the name of a command, and the name -/
def outerUsage : Usage :=
  let u := usage [] [⟨"command", .text⟩]
  { u with helps := "version" :: u.helps, letters := ('V', "version") :: u.letters }

def treeUsage : Usage := usage [] [⟨"file", .path⟩]

def pathUsage : Usage :=
  usage [⟨"offset", .place⟩, ⟨"line", .place⟩, ⟨"column", .place⟩] [⟨"file", .path⟩]

def symbolsUsage : Usage := usage [⟨"query", .text⟩, ⟨"limit", .count⟩] [⟨"root", .path⟩]

/-- the names of all commands; the last one asks for a text about one of them -/
def names : List String := ["serve", "tree", "path", "symbols", "help"]

/-- how many symbols are listed if the command line does not say it -/
def standardLimit : Nat := 50

/-! ## reading -/

def word (a : Arguments) (name : String) : Except Refusal Text :=
  match a.word? name with
  | some cs => .ok cs
  | none => Arguments.refuse (.missing name)

/-- An offset goes without a line and a column, and those two go together. -/
def place? (a : Arguments) : Except Refusal (Option Place) :=
  let number := fun name => (a.value? name).bind ValueKind.place?
  match number "offset", number "line", number "column" with
  | some n, none, none => .ok (some (.offset n))
  | none, some l, some c => .ok (some (.lineColumn l c))
  | none, none, none => .ok none
  | some _, _, _ => Arguments.refuse (.conflict ["offset", "line", "column"])
  | none, some _, none => Arguments.refuse (.missing "column")
  | none, none, some _ => Arguments.refuse (.missing "line")

/-- the command with a name, of the arguments after the name -/
def named (name : String) (args : List Text) : Except Refusal Command := do
  let read := fun usage => Prod.fst <$> Arguments.empty.read usage false args
  match name with
  | "serve" =>
    let _ ← read (usage [] [])
    return .serve
  | "tree" =>
    let a ← read treeUsage
    return .tree (← word a "file")
  | "path" =>
    let a ← read pathUsage
    return .path (← word a "file") (← place? a)
  | "symbols" =>
    let a ← read symbolsUsage
    let limit := (a.value? "limit").bind ValueKind.count?
    return .symbols (← word a "root") ((a.value? "query").getD []) (limit.getD standardLimit)
  | "help" =>
    match args with
    | [] => .error .help
    | [name] =>
      if String.ofList name ∈ names then .error .help else Arguments.refuse (.unknown name)
    | _ :: other :: _ => Arguments.refuse (.unknown other)
  | _ => Arguments.refuse (.unknown name.toList)

/-- the command of some arguments; without a name they ask for a server -/
def read (args : List Text) : Except Refusal Command := do
  let (a, rest) ← Arguments.empty.read outerUsage true args
  match a.word? "command" with
  | some name => named (String.ofList name) rest
  | none => return .serve

end Command

end CppMend
