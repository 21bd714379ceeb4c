import CppMend.Text.Pieces
import CppMend.Text.Utf8

/-!
# Paths of files

A path is some bytes with slashes, not always a text. Its names are what lies between them; empty names
and single dots say nothing.

* `names`            the names of a path;
* `extension?`       what follows the last dot of the last name;
* `isSource`         whether a path is that of a source file, by its extension.
-/

namespace CppMend

namespace PathName

def slash : UInt8 := 0x2f

def dot : UInt8 := 0x2e

/-- the name that stays in a directory -/
def here : Bytes := [dot]

/-- the name that leads upwards -/
def upwards : Bytes := [dot, dot]

def isAbsolute (path : Bytes) : Bool := path.head? = some slash

/-- the names of a path, those that lead upwards included -/
def names (path : Bytes) : List Bytes :=
  (Text.pieces (· = slash) path).filter fun name => name ≠ [] && name ≠ here

def ofNames (names : List Bytes) : Bytes :=
  if names.isEmpty then [slash] else names.flatMap (slash :: ·)

/-- a path as seen from a directory -/
def join (directory path : Bytes) : Bytes :=
  if isAbsolute path then path
  else if directory.getLast? = some slash ∨ directory.isEmpty then directory ++ path
  else directory ++ slash :: path

/-- the last name, unless it leads upwards -/
def fileName? (path : Bytes) : Option Bytes := (names path).getLast?.filter (· ≠ upwards)

/-- What follows the last dot of the last name. A name that starts with its only dot has none. -/
def extension? (path : Bytes) : Option Bytes :=
  match fileName? path with
  | some name =>
    let after := (name.reverse.takeWhile (· ≠ dot)).reverse
    if after.length + 1 < name.length then some after else none
  | none => none

def sourceExtensions : List String :=
  ["c", "cc", "cpp", "cxx", "c++", "h", "hh", "hpp", "hxx", "h++", "inl", "ipp"]

/-- a letter of ASCII in lower case, and any other byte as it is -/
def lower (b : UInt8) : UInt8 := if 0x41 ≤ b ∧ b ≤ 0x5a then b + 0x20 else b

/-- the path of a source file; letters count alike in either case -/
def isSource (path : Bytes) : Bool :=
  match extension? path with
  | some e => sourceExtensions.any fun known => Bytes.ofString known = e.map lower
  | none => false

end PathName

end CppMend
