import CppMend.Text.Quoted
import CppMend.Tree.Basic

/-!
# Trees as text

One line for each node and leaf, two spaces deeper than the node it is in: the kind, the span
and, for a leaf, the start of its text.
-/

namespace CppMend

namespace Tree

def indent (depth : Nat) : String := String.ofList (List.replicate (2 * depth) ' ')

/-- `KwInt@0..3` -/
def label (name : String) (span : Span) : String := name ++ "@" ++ span.render

mutual

def lines (depth : Nat) : Tree → List String
  | .leaf l => [indent depth ++ label l.kind.name l.span ++ " " ++ Text.preview l.text]
  | .node kind span children =>
    (indent depth ++ label kind.name span) :: linesOf (depth + 1) children

def linesOf (depth : Nat) : List Tree → List String
  | [] => []
  | t :: ts => t.lines depth ++ linesOf depth ts

end

/-- the lines of a tree, each ended by a line feed -/
def dump (t : Tree) : String := String.join ((t.lines 0).map (· ++ "\n"))

end Tree

end CppMend
