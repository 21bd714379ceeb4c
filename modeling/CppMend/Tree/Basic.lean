import CppMend.Lexical.Scan
import CppMend.Text.Bytes
import CppMend.Text.Span
import CppMend.Tree.Kind

/-!
# Trees

A `Tree` holds every token of a text, blanks and comments included, grouped into nodes. Leaves
and nodes know the bytes that they stand for.

* `Leaf`, `Node`          a token with its place, and a node with its children;
* `Tree.leaves`           the tokens of a tree from left to right;
* `Node.descendants`      a node and all nodes below it, outer ones first;
* `Node.leafNear?`        the leaf at an offset, where a name is preferred to a mark.
-/

namespace CppMend

/-- A token and the offset of its first byte. -/
structure Leaf where
  kind : TokenKind
  text : Text
  start : Nat
  deriving DecidableEq, Repr, Inhabited

namespace Leaf

def span (l : Leaf) : Span := ⟨l.start, l.text.byteSize⟩

def isTrivia (l : Leaf) : Bool := l.kind.isTrivia

def spelling (l : Leaf) : String := String.ofList l.text

def token (l : Leaf) : Token := ⟨l.kind, l.text⟩

/-- how much a leaf is preferred to its neighbour: names, then literals and words, then marks -/
def weight (l : Leaf) : Nat :=
  if l.kind = .ident then 3
  else if l.kind.isLiteral || l.kind.isKeyword then 2
  else if l.kind.isTrivia then 0
  else 1

end Leaf

inductive Tree where
  | leaf (l : Leaf)
  | node (kind : NodeKind) (span : Span) (children : List Tree)
  deriving Repr, Inhabited

/-- A node of a tree. -/
structure Node where
  kind : NodeKind
  span : Span
  children : List Tree
  deriving Repr, Inhabited

namespace Tree

def span : Tree → Span
  | .leaf l => l.span
  | .node _ span _ => span

def leaf? : Tree → Option Leaf
  | .leaf l => some l
  | .node .. => none

def node? : Tree → Option Node
  | .leaf _ => none
  | .node kind span children => some ⟨kind, span, children⟩

mutual

/-- the leaves, from left to right -/
def leaves : Tree → List Leaf
  | .leaf l => [l]
  | .node _ _ children => leavesOf children

def leavesOf : List Tree → List Leaf
  | [] => []
  | t :: ts => t.leaves ++ leavesOf ts

end

mutual

/-- the nodes, each before those below it -/
def nodes : Tree → List Node
  | .leaf _ => []
  | .node kind span children => ⟨kind, span, children⟩ :: nodesOf children

def nodesOf : List Tree → List Node
  | [] => []
  | t :: ts => t.nodes ++ nodesOf ts

end

end Tree

namespace Node

def tree (n : Node) : Tree := .node n.kind n.span n.children

/-- the tokens directly in the node -/
def tokens (n : Node) : List Leaf := n.children.filterMap Tree.leaf?

/-- the nodes directly in the node -/
def nodes (n : Node) : List Node := n.children.filterMap Tree.node?

/-- the tokens directly in the node, without blanks and comments -/
def significant (n : Node) : List Leaf := n.tokens.filter (!·.isTrivia)

/-- the first token of a kind directly in the node -/
def token? (n : Node) (k : TokenKind) : Option Leaf := n.tokens.find? (·.kind = k)

/-- the first node of a kind directly in the node -/
def node? (n : Node) (k : NodeKind) : Option Node := n.nodes.find? (·.kind = k)

/-- the node and all nodes below it -/
def descendants (n : Node) : List Node := n.tree.nodes

def leaves (n : Node) : List Leaf := n.tree.leaves

def text (n : Node) : Text := n.leaves.flatMap (·.text)

/-! ## the leaf at an offset -/

/-- The leaf that touches an offset. Of two, the heavier one; of two alike, the one on the right. -/
def leafNear? (n : Node) (offset : Nat) : Option Leaf :=
  (n.leaves.filter (·.span.touches offset)).foldl heavier none
where
  heavier : Option Leaf → Leaf → Option Leaf
    | none, l => some l
    | some best, l => if best.weight ≤ l.weight then some l else some best

end Node

end CppMend
