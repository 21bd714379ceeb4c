import CppMend.Files.Walk
import CppMend.Settings.Basic
import CppMend.Symbol.Index

/-!
# Scanning a workspace

The source files of a workspace are those below its roots with the extension of a source, but
neither in hidden directories nor in those where builds leave their output, nor below an excluded
path, nor above the greatest size.

* `isEntered`      which directories a scan enters, by their names;
* `discover`       the places of the source files, each once;
* `Index.scanAll`  records the symbols of all of them.
-/

namespace CppMend

namespace Workspace

/-- directories with the output of builds -/
def outputNames : List String :=
  ["target", "build", "node_modules", "out", "bin", "obj", "cmake-build-debug"]

/-- a directory that a scan does not enter unless it is a root -/
def isHidden (name : Text) : Bool := name.head? = some '.' || String.ofList name ∈ outputNames

/-- a directory that a scan enters even if it is no root; one whose name is no text is none -/
def isEntered (name : Bytes) : Bool :=
  match name.text? with
  | some name => !isHidden name
  | none => false

/-- The places that a list of excluded paths stands for. A path that does not start at the root is
read from every root of the workspace; one that leads nowhere stands for itself. -/
def excludedPlaces (files : FileTree) (directory : Bytes) (roots : List Bytes) (excluded : List Text) :
    List (List Bytes) :=
  ((excluded.map Bytes.ofText).flatMap fun path =>
    if PathName.isAbsolute path then [path] else roots.map (PathName.join · path)).filterMap
  fun path =>
    match files.resolve directory path with
    | .ok place => some place
    | .error _ => if PathName.isAbsolute path then some (PathName.names path) else none

/-- what a scan visits -/
def accepts (excluded : List (List Bytes)) (v : Visit) : Bool :=
  !excluded.any (·.isPrefixOf v.place)
    && (!v.isDirectory || v.depth = 0 || isEntered v.name)

def fitsSize (files : FileTree) (maxBytes : Nat) (place : List Bytes) : Bool :=
  match files.at? place with
  | some (.file content) => content.length ≤ maxBytes
  | _ => true

/-- the places of the source files of a workspace, each where it is first visited -/
def discover (files : FileTree) (directory : Bytes) (roots : List Bytes) (options : ScanOptions) :
    List (List Bytes) :=
  let excluded := excludedPlaces files directory roots options.excluded
  let visits := roots.flatMap (files.walk (accepts excluded) directory)
  ((visits.filter fun v => PathName.isSource v.path && fitsSize files options.maxBytes v.place).map
    (·.place)).eraseDups

/-- how many files a scan indexed, and how many it could not read -/
structure Summary where
  indexed : Nat
  skipped : Nat
  deriving DecidableEq, Repr, Inhabited

/-- records the symbols of the file at a place -/
def scanPlace (files : FileTree) (s : Index × Summary) (place : List Bytes) : Index × Summary :=
  let (index, summary) := s
  match files.readAt place with
  | .ok text =>
    (index.scanText (Uri.ofFile place) text, { summary with indexed := summary.indexed + 1 })
  | .error _ => (index, { summary with skipped := summary.skipped + 1 })

end Workspace

/-- records the symbols of the source files of a workspace -/
def Index.scanAll (index : Index) (files : FileTree) (directory : Bytes) (roots : List Bytes)
    (options : ScanOptions) : Index × Workspace.Summary :=
  (Workspace.discover files directory roots options).foldl (Workspace.scanPlace files)
    (index, ⟨0, 0⟩)

end CppMend
