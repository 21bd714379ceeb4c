import CppMend.Command.Basic
import CppMend.Location
import CppMend.Tree.Dump
import CppMend.Tree.Path
import CppMend.Workspace.Scan

/-!
# Ends of commands

What a command prints and how it ends. A command that fails prints nothing, and says why.

* `Command.output`     what a command prints, or why it fails;
* `Exit.of`            how a command line ends.
-/

namespace CppMend

/-- Why a command fails. -/
inductive CommandError where
  | unreadable (path : Text) (cause : FileError)
  | noPlace
  | outside (path : Text)
  deriving DecidableEq, Repr

namespace CommandError

def message : CommandError → String
  | unreadable path cause => "failed to read " ++ String.ofList path ++ ": " ++ cause.message
  | noPlace => "pass either --offset or --line with --column"
  | outside path => "position is outside of " ++ String.ofList path

end CommandError

namespace Command

/-! ## printing -/

def lines (ls : List String) : String := String.join (ls.map (· ++ "\n"))

/-- a text with blanks after it, up to a width -/
def padded (width : Nat) (s : String) : String :=
  s ++ String.ofList (List.replicate (width - s.length) ' ')

/-- the nodes of a path, each indented below the one before it -/
def pathLines (nodes : List Node) : List String :=
  nodes.mapIdx fun depth n =>
    padded (2 * depth) "" ++ n.kind.name ++ " " ++ n.span.render

def symbolLine (l : Located) : String :=
  padded 10 l.symbol.kind.name ++ " " ++ String.ofList l.symbol.qualified ++ "  "
    ++ String.ofList l.uri.pathText

/-! ## carrying out -/

def Place.location? (file : Text) (source : Text) : Place → Option Location
  | .offset n => Location.ofOffset? (String.ofList file) source n
  | .lineColumn l c => Location.ofLineColumn? (String.ofList file) source l c

def printPath (file source : Text) (place : Option Place) : Except CommandError String :=
  match place with
  | none => .error .noPlace
  | some place =>
    match Place.location? file source place with
    | none => .error (.outside file)
    | some l =>
      let p := Path.around (parse source) l.offset
      .ok (lines (l.render ::
        if p.isEmpty then ["(no enclosing construct)"] else pathLines p.nodes))

/-- what a command prints that is given in a directory -/
def output (files : FileTree) (directory : Bytes) : Command → Except CommandError String
  | serve => .ok ""
  | tree file => do return (parse (← source file)).root.tree.dump
  | path file place => do printPath file (← source file) place
  | symbols root query limit =>
    let (index, _) :=
      Index.empty.scanAll files directory [Bytes.ofText root] Settings.standard.scanOptions
    .ok (lines ((index.snapshot.search query limit).map symbolLine))
where
  source (file : Text) : Except CommandError Text :=
    match files.read directory (Bytes.ofText file) with
    | .ok source => .ok source
    | .error cause => .error (.unreadable file cause)

end Command

/-- How a command line ends: what it prints, and the errors that it reports. -/
structure Exit where
  status : Nat
  output : String
  errors : List String
  deriving DecidableEq, Repr

/-- how a command line ends that is given in a directory -/
def Exit.of (files : FileTree) (directory : Bytes) (args : List Text) : Exit :=
  match Command.read args with
  | .ok command =>
    match command.output files directory with
    | .ok output => ⟨0, output, []⟩
    | .error e => ⟨1, "", [e.message]⟩
  | .error .help => ⟨0, "", []⟩
  | .error (.error _) => ⟨2, "", []⟩

end CppMend
