import CppMend.Document.Store
import CppMend.Location
import CppMend.Symbol.Index
import CppMend.Tree.Path

/-!
# Contexts

What a source of fixes may look at: the parsed document as it is now, the symbols of the
workspace, the cursor and the selection, and why fixes are wanted.

* `Editor`                  what an editor knows when it asks for fixes;
* `Editor.context?`         the context, which there is only for a parse of the current version;
* `FixContext.path`         the nodes around the cursor.
-/

namespace CppMend

/-- Who wants fixes: the user, or the editor on its own. -/
inductive Reason where
  | explicit
  | automatic
  deriving DecidableEq, Repr, Inhabited

namespace Reason

def name : Reason → String
  | explicit => "Explicit"
  | automatic => "Automatic"

end Reason

structure FixContext where
  uri : Uri
  version : Int
  parsed : Parsed
  symbols : Snapshot
  cursor : Nat
  selection : Option Span
  reason : Reason
  deriving Inhabited

structure Editor where
  uri : Uri
  version : Int
  cursor : Nat
  selection : Option Span
  /-- the last parse, which may be that of another version -/
  parsed : Option Versioned
  deriving Inhabited

namespace Editor

/-- the parse of the current version -/
def current? (e : Editor) : Option Parsed :=
  match e.parsed with
  | some v => if v.version = e.version then some v.parsed else none
  | none => none

def isStale (e : Editor) : Bool := e.parsed.isSome && e.current?.isNone

def context? (e : Editor) (symbols : Snapshot) (reason : Reason) : Option FixContext :=
  e.current?.map fun parsed =>
    ⟨e.uri, e.version, parsed, symbols, e.cursor, e.selection, reason⟩

end Editor

namespace FixContext

def source (c : FixContext) : Text := c.parsed.source

def path (c : FixContext) : Path := Path.around c.parsed c.cursor

/-! ## the cursor -/

/-- the cursor is on a significant token, given by its number -/
def isOnToken (c : FixContext) (index : Nat) : Bool :=
  match c.parsed.tokens[index]? with
  | some l => l.span.contains c.cursor
  | none => false

def isOnLeaf (c : FixContext) (l : Leaf) : Bool := l.span.contains c.cursor

def isOnNode (c : FixContext) (n : Node) : Bool := n.span.contains c.cursor

/-- the number of the significant token under the cursor -/
def tokenIndex? (c : FixContext) : Option Nat := c.parsed.tokenIndexAt? c.cursor

def token? (c : FixContext) : Option Leaf := c.tokenIndex?.bind (c.parsed.tokens[·]?)

/-- The leaf that touches the cursor, so that a cursor right after a name still finds it. -/
def leaf? (c : FixContext) : Option Leaf := c.parsed.root.leafNear? c.cursor

/-! ## texts, places and symbols -/

/-- the text of a span; nothing if it is not all in the text -/
def textIn (c : FixContext) (s : Span) : Text := (c.source.slice? s.start s.stop).getD []

def textOf (c : FixContext) (n : Node) : Text := c.textIn n.span

def fileName (c : FixContext) : String := String.ofList c.uri.displayPath

def locationOf? (c : FixContext) (offset : Nat) : Option Location :=
  Location.ofOffset? c.fileName c.source offset

def location? (c : FixContext) : Option Location := c.locationOf? c.cursor

def lookup (c : FixContext) (name : Text) : List Located := c.symbols.lookup name

end FixContext

end CppMend
