import CppMend.Parsed
import CppMend.Symbol.Declared
import CppMend.Table
import CppMend.Uri.Basic

/-!
# The symbol index

An `Index` holds the symbols of the files that were scanned, and counts how often it changed. A
`Snapshot` is the index as it was at one time, with all places filed by their names.

* `Index.scan`, `Index.remove`   record the symbols of a file, and drop them;
* `Located.byName`               the places of each name, by file and offset;
* `Snapshot.lookup`              those of one name;
* `Snapshot.search`              the places of all names that contain a text, by name first.
-/

namespace CppMend

/-- A symbol and the file that declares it. -/
structure Located where
  uri : Uri
  symbol : Symbol
  deriving DecidableEq, Repr, Inhabited

namespace Located

/-- by file, then by offset -/
def precedes (a b : Located) : Bool :=
  if a.uri.render = b.uri.render then a.symbol.nameSpan.start ≤ b.symbol.nameSpan.start
  else a.uri.render < b.uri.render

/-- everything that is declared, file by file -/
def ofFiles (files : Table Uri (List Symbol)) : List Located :=
  files.entries.flatMap fun (uri, symbols) => symbols.map (⟨uri, ·⟩)

/-- what is filed under each name, with one more place behind those of its name -/
def filed (byName : Table Text (List Located)) (l : Located) : Table Text (List Located) :=
  byName.insert l.symbol.name ((byName.find? l.symbol.name).getD [] ++ [l])

/-- the places of each name that is declared, in order -/
def byName (files : Table Uri (List Symbol)) : Table Text (List Located) :=
  ((ofFiles files).foldl filed .empty).map (·.mergeSort precedes)

end Located

structure Snapshot where
  generation : Nat
  files : Table Uri (List Symbol)
  byName : Table Text (List Located)
  byName_eq : byName = Located.byName files

namespace Snapshot

def build (generation : Nat) (files : Table Uri (List Symbol)) : Snapshot :=
  ⟨generation, files, Located.byName files, rfl⟩

instance : Inhabited Snapshot := ⟨build 0 .empty⟩

/-- everything that is declared -/
def all (s : Snapshot) : List Located := Located.ofFiles s.files

def lookup (s : Snapshot) (name : Text) : List Located := (s.byName.find? name).getD []

/-- the places where a scope itself declares a name; the file level is no scope -/
def lookupIn (s : Snapshot) (name : Text) (scope : Option Text) : List Located :=
  (s.lookup name).filter (·.symbol.scope.spelling? = scope)

def symbolsIn (s : Snapshot) (uri : Uri) : List Symbol := (s.files.find? uri).getD []

/-- A character in lower case. Names are in ASCII, so what matters is which characters have an
ASCII letter as their lower case: the capitals and the Kelvin sign. -/
def foldChar (c : Char) : Char := if c = '\u212a' then 'k' else c.toLower

def fold (cs : Text) : Text := cs.map foldChar

/-- the name has the query in it, both in lower case -/
def answers (query name : Text) : Bool := Text.contains (fold query) (fold name)

/-- the names that have the query in them, in order -/
def namesWith (s : Snapshot) (query : Text) : List Text :=
  (s.byName.keys.filter (answers query)).mergeSort fun a b => !decide (b < a)

def search (s : Snapshot) (query : Text) (limit : Nat) : List Located :=
  ((s.namesWith query).flatMap s.lookup).take limit

def fileCount (s : Snapshot) : Nat := s.files.size

def size (s : Snapshot) : Nat := (s.byName.entries.flatMap (·.2)).length

def isEmpty (s : Snapshot) : Bool := s.byName.isEmpty

end Snapshot

/-- The symbols of the scanned files, and how often that changed. -/
structure Index where
  files : Table Uri (List Symbol)
  generation : Nat
  deriving Inhabited

namespace Index

def empty : Index := ⟨.empty, 0⟩

/-- records the symbols of a parsed file in place of those it had -/
def scan (i : Index) (uri : Uri) (t : Parsed) : Index :=
  ⟨i.files.insert uri t.root.symbols, i.generation + 1⟩

def scanText (i : Index) (uri : Uri) (source : Text) : Index := i.scan uri (parse source)

/-- drops a file; nothing changes if it was not there -/
def remove (i : Index) (uri : Uri) : Index :=
  if i.files.contains uri then ⟨i.files.erase uri, i.generation + 1⟩ else i

def contains (i : Index) (uri : Uri) : Bool := i.files.contains uri

def snapshot (i : Index) : Snapshot := .build i.generation i.files

/-- The snapshot is the one that the index has now. Every change counts, so it is enough to
compare the counts. -/
def isCurrent (i : Index) (s : Snapshot) : Bool := s.generation = i.generation

end Index

end CppMend
