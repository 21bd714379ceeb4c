import CppMend.Files.Tree

/-!
# Walks

A walk visits what is below a path, names in order, the contents of a directory in its place.
Links are followed; one that leads nowhere, or back to a directory that the walk is inside of, is
passed over. A visit can be refused, and then nothing below it is visited either.

* `Visit`            what a walk sees: the path it took and the place where that leads;
* `FileTree.walk`    the files that a walk visits.
-/

namespace CppMend

/-- A file or directory as a walk meets it. The path is the one that the walk took, and the place
the one where it is without links. -/
structure Visit where
  path : Bytes
  place : List Bytes
  depth : Nat
  isDirectory : Bool
  deriving DecidableEq, Repr, Inhabited

namespace Visit

/-- the last name of the path -/
def name (v : Visit) : Bytes := (v.path.reverse.takeWhile (· ≠ PathName.slash)).reverse

/-- what has a name in the directory that is visited -/
def inside (v : Visit) (name : Bytes) : Visit :=
  ⟨PathName.join v.path name, v.place ++ [name], v.depth + 1, false⟩

end Visit

namespace FileTree

section
variable (accept : Visit → Bool) (onLink : List (List Bytes) → Visit → Bytes → List Visit)

mutual

/-- the files at and below a visit; `onLink` says what a link leads to, given the directories that
the walk is inside of, the visit and the target -/
def walkAt (around : List (List Bytes)) (v : Visit) : FileTree → List Visit
  | file _ => if accept v then [v] else []
  | link target => onLink around v target
  | directory entries =>
    let v := { v with isDirectory := true }
    if accept v then walkIn (v.place :: around) v entries else []

def walkIn (around : List (List Bytes)) (v : Visit) : List (Bytes × FileTree) → List Visit
  | [] => []
  | (name, t) :: rest => walkAt around (v.inside name) t ++ walkIn around v rest

end

end

/-- The files below a path, read from a directory. Each link that is followed into a directory
leads to one that the walk is not inside of, so there is no need to follow more of them, one
inside the other, than there are directories. -/
def walkPath (root : FileTree) (accept : Visit → Bool) :
    (links : Nat) → (around : List (List Bytes)) → Visit → (base path : Bytes) → List Visit
  | 0, _, _, _, _ => []
  | links + 1, around, v, base, path =>
    let onLink := fun around v target =>
      walkPath root accept links around v (PathName.ofNames v.place.dropLast) target
    match root.resolve base path with
    | .ok place =>
      if around.contains place then []
      else
        match root.at? place with
        | some t => walkAt accept onLink around { v with place } t
        | none => []
    | .error _ => []

def walk (root : FileTree) (accept : Visit → Bool) (base path : Bytes) : List Visit :=
  root.walkPath accept (root.size + 2) [] ⟨path, [], 0, false⟩ base path

end FileTree

end CppMend
