import CppMend.Fix.Assist
import CppMend.Message.Params
import CppMend.Settings.Patch
import CppMend.Workspace.Scan

/-!
# Sessions

A `Session` is what an editor and this program have told each other: the documents that are open
with their parses, the symbols of the workspace, the settings, the fixes that were offered and can
still be asked for, and the scans of the workspace that are not over.

* `Session.opened`, `changed`, `closed`   what the editor does with its documents;
* `Session.started`, `configured`         what it says of itself and of its settings;
* `Session.scanWanted`                    a scan of the workspace begins to wait.

An open document always has a parse of its current text, and a fix that was offered for another
text cannot be asked for any more.
-/

namespace CppMend

/-- Before the editor said who it is, after that, and after it said goodbye. -/
inductive Stage where
  | fresh
  | ready
  | ended
  deriving DecidableEq, Repr, Inhabited

/-- The fixes of the last answer about a document, for one version of it. -/
structure Offer where
  request : Nat
  version : Int
  fixes : List Fix
  deriving Inhabited

/-- A scan of the workspace. It waits for its turn, then takes the settings as they are by then,
then finds out which files there are, then records them one after the other. Scans are numbered as
they are asked for; what the editor hears of one is under a token, which it gets with the
settings. -/
inductive Scan where
  | waiting (number : Nat) (roots : List Bytes)
  | looking (number token : Nat) (roots : List Bytes) (options : ScanOptions)
  | running (number token : Nat) (places : List (List Bytes)) (summary : Workspace.Summary)
  deriving DecidableEq, Repr

/-- What a session tells the editor without being asked. -/
inductive Note where
  | opened (name : Text)
  | scanBegan (token : Nat)
  | scanEnded (token files : Nat)
  deriving DecidableEq, Repr

structure Session where
  stage : Stage
  registry : Registry
  settings : Settings
  /-- the paths of the directories of the workspace -/
  roots : List Bytes
  /-- actions are sent without their edits -/
  lazy : Bool
  documents : Documents
  parses : ParsedTexts
  index : Index
  offers : Table Uri Offer
  /-- the number of the next answer with fixes -/
  nextRequest : Nat
  scans : List Scan
  /-- the number of the next scan -/
  nextScan : Nat
  /-- the token of the next scan that begins -/
  nextToken : Nat
  deriving Inhabited

namespace Session

/-- a session in which nothing was said yet -/
def fresh (registry : Registry) : Session where
  stage := .fresh
  registry
  settings := .standard
  roots := []
  lazy := false
  documents := .empty
  parses := .empty
  index := .empty
  offers := .empty
  nextRequest := 1
  scans := []
  nextScan := 1
  nextToken := 1

def assistant (s : Session) : Assistant := ⟨s.registry, s.index.snapshot⟩

/-! ## documents -/

/-- parses a document that has a new text; what was offered for the old text is void -/
def reparsed (s : Session) (d : Document) : Session :=
  let (t, parses) := s.parses.parsed d.uri d.version d.text
  { s with parses, index := s.index.scan d.uri t, offers := s.offers.erase d.uri }

def opened (s : Session) (o : OpenedText) : Session :=
  { s with documents := s.documents.opened o.uri o.text o.version }.reparsed
    ⟨o.uri, o.text, o.version⟩

/-- changes of a document that is not open do not matter -/
def changed (s : Session) (c : ChangedText) : Session :=
  match s.documents.changed? c.uri c.changes c.version with
  | some (d, documents) => { s with documents }.reparsed d
  | none => s

/-- the text of the file that a URI stands for -/
def saved? (files : FileTree) (uri : Uri) : Option Text :=
  uri.filePath?.bind fun path => (files.read [] path).toOption

/-- A document that is closed leaves behind the symbols of its file. -/
def closed (files : FileTree) (s : Session) (uri : Uri) : Session :=
  { s with
    documents := s.documents.erase uri
    parses := s.parses.erase uri
    offers := s.offers.erase uri
    index :=
      match saved? files uri with
      | some text => s.index.scanText uri text
      | none => s.index.remove uri }

/-! ## the workspace and the settings -/

/-- queues a scan of the directories of now -/
def scanWanted (s : Session) : Session :=
  { s with scans := s.scans ++ [.waiting s.nextScan s.roots], nextScan := s.nextScan + 1 }

def started (s : Session) (p : StartParams) : Session :=
  { s with
    stage := .ready
    settings := Settings.initial p.options
    roots := p.roots.filterMap Uri.filePath?
    lazy := p.resolvesEdits }

/-- the settings after a payload; another way of indexing needs another scan -/
def configured (s : Session) (payload : Value) : Session :=
  let settings := s.settings.merged payload
  let after := { s with settings }
  if settings.indexing.enabled ∧ settings.indexing ≠ s.settings.indexing then after.scanWanted
  else after

end Session

end CppMend
