import CppMend.Grammar.Statements
import CppMend.Halving
import CppMend.Tree.Placement

/-!
# Parsed texts

`parse` reads a text of C or C++ into a `Parsed`: the text, its tree, and the table of its
significant tokens, whose places in the table identify them. Every text has a parse, in which all
of its characters occur in order.

* `Parsed.tokenIndexAt?`  the significant token at an offset;
* `Parsed.extent?`        from the first significant token to the last.
-/

namespace CppMend

structure Parsed where
  source : Text
  root : Node
  /-- the tokens of the tree in order, without blanks and comments -/
  tokens : List Leaf
  deriving Repr, Inhabited

/-- the root of the tree of some tokens -/
def rootOf (tokens : List Token) : Node :=
  let (children, rest) := Outline.placeAll (outline (cues tokens)) ⟨tokens, 0⟩
  ⟨.root, Span.between 0 rest.offset, children⟩

def parse (source : Text) : Parsed :=
  let root := rootOf (scan source)
  ⟨source, root, root.leaves.filter (!·.isTrivia)⟩

namespace Parsed

/-- The number of the significant token that contains an offset. The tokens before it end first, so it is
searched for by halves. -/
def tokenIndexAt? (t : Parsed) (offset : Nat) : Option Nat :=
  let index := Halving.point (fun i => t.tokens[i]?.any (·.span.stop ≤ offset)) 0 t.tokens.length
  match t.tokens[index]? with
  | some l => if l.span.contains offset then some index else none
  | none => none

/-- from the first significant token to the last -/
def extent? (t : Parsed) : Option Span :=
  match t.tokens.head?, t.tokens.getLast? with
  | some first, some last => some (Span.between first.start last.span.stop)
  | _, _ => none

def hasErrors (t : Parsed) : Bool := t.tokens.any (·.kind = .error)

end Parsed

end CppMend
