import CppMend.Files.Name

/-!
# Files

A `FileTree` is what a directory holds: files, links and directories with names, which are bytes and
need not be texts. A place in it is the list of names that leads there from the root.

* `FileTree.at?`               what is at a place;
* `FileTree.put`, `erase`      write a place, and clear it;
* `FileTree.resolve`           the place that a path leads to, links followed;
* `FileTree.read`              the text of the file at a path.
-/

namespace CppMend

inductive FileTree where
  | file (content : Bytes)
  | link (target : Bytes)
  /-- the entries are in the order of their names -/
  | directory (entries : List (Bytes × FileTree))
  deriving Inhabited

/-- why a path does not lead to a text -/
inductive FileError where
  | missing
  | notDirectory
  | isDirectory
  | tooManyLinks
  | nameTooLong
  | notText
  deriving DecidableEq, Repr

namespace FileError

def message : FileError → String
  | missing => "No such file or directory (os error 2)"
  | notDirectory => "Not a directory (os error 20)"
  | isDirectory => "Is a directory (os error 21)"
  | tooManyLinks => "Too many levels of symbolic links (os error 40)"
  | nameTooLong => "File name too long (os error 36)"
  | notText => "stream did not contain valid UTF-8"

end FileError

namespace FileTree

abbrev Entries := List (Bytes × FileTree)

def nothing : FileTree := .directory []

def isDirectory : FileTree → Bool
  | directory _ => true
  | _ => false

/-! ## places -/

def child? (name : Bytes) : FileTree → Option FileTree
  | directory entries => entries.lookup name
  | _ => none

/-- what is at a place; links are not followed -/
def at? : List Bytes → FileTree → Option FileTree
  | [], t => some t
  | name :: names, t => (t.child? name).bind (at? names)

/-- the entries with one more, which takes the place of one with the same name -/
def insertEntry (name : Bytes) (new : FileTree) : Entries → Entries
  | [] => [(name, new)]
  | (n, t) :: rest =>
    if n = name then (name, new) :: rest
    else if name < n then (name, new) :: (n, t) :: rest
    else (n, t) :: insertEntry name new rest

/-- writes a place, and makes the directories that lead to it -/
def put (new : FileTree) : List Bytes → FileTree → FileTree
  | [], _ => new
  | name :: names, directory entries =>
    directory (insertEntry name (put new names ((entries.lookup name).getD nothing)) entries)
  | _ :: _, t => t

/-- clears a place with all that is below it -/
def erase : List Bytes → FileTree → FileTree
  | [name], directory entries => directory (entries.filter (·.1 ≠ name))
  | name :: names, directory entries =>
    directory (entries.map fun (n, t) => (n, if n = name then erase names t else t))
  | _, t => t

mutual

/-- the number of files, links and directories -/
def size : FileTree → Nat
  | file _ => 1
  | link _ => 1
  | directory entries => 1 + sizeIn entries

def sizeIn : List (Bytes × FileTree) → Nat
  | [] => 0
  | (_, t) :: rest => t.size + sizeIn rest

end

/-! ## paths -/

/-- How many links one path may lead through. -/
def linkLimit : Nat := 40

/-- How many bytes a name may have. -/
def nameLimit : Nat := 255

/-- How many bytes a path may have. -/
def pathLimit : Nat := 4095

/-- Follows names from a place. An empty name or a dot stays, and needs a directory to stay in;
two dots lead upwards; a link leads on with the names of its target. A name that is too long fails
where it is met. -/
def follow (root : FileTree) (links : Nat) (place names : List Bytes) :
    Except FileError (List Bytes) :=
  match names with
  | [] => .ok place
  | name :: names =>
    match root.at? place with
    | some (directory entries) =>
      if name = [] ∨ name = PathName.here then follow root links place names
      else if name = PathName.upwards then follow root links place.dropLast names
      else if nameLimit < name.length then .error .nameTooLong
      else
        match entries.lookup name with
        | none => .error .missing
        | some (link target) =>
          match links with
          | 0 => .error .tooManyLinks
          | links + 1 =>
            follow root links (if PathName.isAbsolute target then [] else place)
              (Text.pieces (· = PathName.slash) target ++ names)
        | some _ => follow root links (place ++ [name]) names
    | some _ => .error .notDirectory
    | none => .error .missing
termination_by (links, names.length)

/-- the place that a path leads to from a directory -/
def resolve (root : FileTree) (directory path : Bytes) : Except FileError (List Bytes) :=
  if path.isEmpty then .error .missing
  else if pathLimit < path.length then .error .nameTooLong
  else root.follow linkLimit [] (Text.pieces (· = PathName.slash) (PathName.join directory path))

/-- the text of the file at a place -/
def readAt (root : FileTree) (place : List Bytes) : Except FileError Text :=
  match root.at? place with
  | some (file content) =>
    match content.text? with
    | some text => .ok text
    | none => .error .notText
  | some (directory _) => .error .isDirectory
  | some (link _) => .error .tooManyLinks
  | none => .error .missing

/-- the text of the file that a path leads to from a directory -/
def read (root : FileTree) (directory path : Bytes) : Except FileError Text :=
  (root.resolve directory path).bind root.readAt

end FileTree

end CppMend
