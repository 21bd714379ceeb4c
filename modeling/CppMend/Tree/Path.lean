import CppMend.Parsed

/-!
# Paths

The path to an offset is the chain of nodes that enclose it, the whole text first. An offset
before the first or after the last significant token has an empty path.
-/

namespace CppMend

namespace Node

mutual

/-- the node and, going down, the first child each that contains the offset -/
def chain (offset : Nat) : Tree → List Node
  | .leaf _ => []
  | .node kind span children => ⟨kind, span, children⟩ :: chainIn offset children

def chainIn (offset : Nat) : List Tree → List Node
  | [] => []
  | .leaf _ :: ts => chainIn offset ts
  | .node kind span children :: ts =>
    if span.contains offset then chain offset (.node kind span children) else chainIn offset ts

end

end Node

/-- The nodes that enclose an offset, outermost first. -/
structure Path where
  offset : Nat
  nodes : List Node
  deriving Repr, Inhabited

namespace Path

def around (t : Parsed) (offset : Nat) : Path :=
  match t.extent? with
  | some extent =>
    if extent.contains offset then ⟨offset, Node.chain offset t.root.tree⟩ else ⟨offset, []⟩
  | none => ⟨offset, []⟩

def isEmpty (p : Path) : Bool := p.nodes.isEmpty

def length (p : Path) : Nat := p.nodes.length

def outermost? (p : Path) : Option Node := p.nodes.head?

def innermost? (p : Path) : Option Node := p.nodes.getLast?

def kinds (p : Path) : List NodeKind := p.nodes.map (·.kind)

def hasKind (p : Path) (k : Kind) : Bool := p.nodes.any fun n => Kind.node n.kind = k

/-- the innermost node of a kind -/
def innermostOf? (p : Path) (k : NodeKind) : Option Node := p.nodes.reverse.find? (·.kind = k)

/-- the outermost node of a kind -/
def outermostOf? (p : Path) (k : NodeKind) : Option Node := p.nodes.find? (·.kind = k)

/-- how many nodes enclose the innermost node of a kind -/
def depthOf? (p : Path) (k : Kind) : Option Nat :=
  (p.nodes.reverse.findIdx? fun n => Kind.node n.kind = k).map fun i => p.nodes.length - 1 - i

end Path

end CppMend
