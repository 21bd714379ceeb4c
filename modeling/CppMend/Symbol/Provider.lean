import CppMend.Symbol.Index

/-!
# Serving snapshots

A `Provider` keeps an index and hands out snapshots of it. It keeps the last one it has built and
hands it out again as long as its generation is that of the index, so each change of the index has
to count. The generation has no bound here; 64 bits of it tell all of them apart for fewer than
`generationCount` calls.

* `generationCount`     how many generations 64 bits tell apart;
* `Arrangement`         an order in which the files of an index may be listed;
* `Provider.snapshot`   the place of a snapshot of the index, which is built if there is none;
* `Provider.serve`      one call of a provider.

The index lists its files in no order that a caller could know, so that order is given with each
call that may build a snapshot.
-/

namespace CppMend

/-- How many generations 64 bits tell apart. -/
def generationCount : Nat := 1 <<< 64

/-- the same entries, in some order -/
structure Arrangement where
  list : List (Uri × List Symbol) → List (Uri × List Symbol)
  perm : ∀ entries, (list entries).Perm entries

namespace Arrangement

/-- the order in which the files were scanned -/
def asScanned : Arrangement := ⟨id, fun _ => .refl _⟩

def table (a : Arrangement) (t : Table Uri (List Symbol)) : Table Uri (List Symbol) :=
  ⟨a.list t.entries, ((a.perm t.entries).map Prod.fst).nodup_iff.mpr t.distinct⟩

end Arrangement

/-- the index as it is now, with its files in some order -/
def Index.snapshotIn (i : Index) (a : Arrangement) : Snapshot :=
  .build i.generation (a.table i.files)

structure Provider where
  index : Index
  /-- every snapshot that was built; two are the same one if they have the same place -/
  built : List Snapshot
  /-- the place of the one that is kept -/
  kept? : Option Nat
  deriving Inhabited

namespace Provider

def empty : Provider := ⟨.empty, [], none⟩

def scan (p : Provider) (uri : Uri) (t : Parsed) : Provider :=
  { p with index := p.index.scan uri t }

def scanText (p : Provider) (uri : Uri) (source : Text) : Provider := p.scan uri (parse source)

def remove (p : Provider) (uri : Uri) : Provider := { p with index := p.index.remove uri }

def contains (p : Provider) (uri : Uri) : Bool := p.index.contains uri

def generation (p : Provider) : Nat := p.index.generation

/-- the snapshot that is kept is one of the index as it is now -/
def isFresh (p : Provider) (place : Nat) : Bool := p.built[place]?.any p.index.isCurrent

/-- the place of a snapshot of the index as it is now -/
def snapshot (p : Provider) (a : Arrangement) : Provider × Nat :=
  match p.kept?.filter p.isFresh with
  | some place => (p, place)
  | none =>
    (⟨p.index, p.built ++ [p.index.snapshotIn a], some p.built.length⟩, p.built.length)

/-! ## calls -/

inductive Call where
  | scan (uri : Uri) (t : Parsed)
  | scanText (uri : Uri) (source : Text)
  | remove (uri : Uri)
  | snapshot (a : Arrangement)

/-- what a call leaves -/
def serve (p : Provider) : Call → Provider
  | .scan uri t => p.scan uri t
  | .scanText uri source => p.scanText uri source
  | .remove uri => p.remove uri
  | .snapshot a => (p.snapshot a).1

end Provider

end CppMend
