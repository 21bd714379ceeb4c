import CppMend.Command.Exit

/-!
# The command line

Reads what a command names, carries the command out, and prints. The files of a directory cannot
be listed from here: the names of those that are to be indexed come from the standard input, one on
a line.
-/

namespace CppMend

/-- the file or directory that a command names -/
def Command.target? : Command → Option Text
  | serve => none
  | tree file => some file
  | path file _ => some file
  | symbols root _ _ => some root

namespace FileTree

/-- makes the directories that a path passes, and gives the place to which it leads -/
def passed (files : FileTree) (path : Bytes) : FileTree × List Bytes :=
  (PathName.names path).foldl (fun (files, place) name =>
    let place := if name = PathName.upwards then place.dropLast else place ++ [name]
    (if (files.at? place).isSome then files else put nothing place files, place)) (files, [])

/-- writes what a path leads to -/
def written (files : FileTree) (path : Bytes) (t : FileTree) : FileTree :=
  let (files, place) := files.passed path
  put t place files

end FileTree

/-- the system's number for a directory that is read as a file -/
def directoryCode : UInt32 := 21

/-- The files with the one at a path. A path that leads nowhere adds nothing; one that goes on
after a file adds that file, without its content; one that is too long adds directories, which
its length keeps from being read. -/
def load (files : FileTree) (path : Text) : IO FileTree := do
  let bytes := Bytes.ofText path
  match ← (IO.FS.readBinFile (String.ofList path)).toBaseIO with
  | .ok content => return files.written bytes (.file content.toList)
  | .error (.invalidArgument ..) => return files.written bytes .nothing
  | .error (.inappropriateType _ code _) =>
    if code = directoryCode then return files.written bytes .nothing
    else return files.written (PathName.ofNames (PathName.names bytes).dropLast) (.file [])
  | .error _ => return files

/-- the lines of the standard input that name something -/
def inputLines : IO (List Text) := do
  let all ← (← IO.getStdin).readToEnd
  return (Text.pieces (· = '\n') all.toList).filter (· ≠ [])

/-- the files that the arguments of a command line are about -/
def filesOf (args : List Text) : IO FileTree := do
  match Command.read args with
  | .ok command =>
    let files ← match command.target? with
      | some path => load .nothing path
      | none => pure .nothing
    match command with
    | .symbols .. => (← inputLines).foldlM load files
    | _ => return files
  | .error _ => return .nothing

end CppMend

open CppMend in
def main (args : List String) : IO UInt32 := do
  let args := args.map String.toList
  let exit := Exit.of (← filesOf args) [PathName.slash] args
  IO.print exit.output
  for e in exit.errors do IO.eprintln e
  return exit.status.toUInt32
