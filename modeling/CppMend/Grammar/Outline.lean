import CppMend.Tree.Kind

/-!
# Outlines

An `Outline` is the grouping of the significant tokens of a text, without the tokens themselves:
`token` stands for the next significant token. Blanks and comments are put in later, each right
before the token, or the start of the node, that it precedes; `blank` marks a place where those
that are still pending go although no token follows.
-/

namespace CppMend

inductive Outline where
  | token
  | blank
  | node (kind : NodeKind) (parts : List Outline)
  deriving Repr, Inhabited

namespace Outline

mutual

/-- the number of tokens that an outline groups -/
def size : Outline → Nat
  | .token => 1
  | .blank => 0
  | .node _ parts => sizes parts

def sizes : List Outline → Nat
  | [] => 0
  | o :: os => o.size + sizes os

end

mutual

/-- some token is grouped -/
def hasToken : Outline → Bool
  | .token => true
  | .blank => false
  | .node _ parts => anyToken parts

def anyToken : List Outline → Bool
  | [] => false
  | o :: os => o.hasToken || anyToken os

end

end Outline

end CppMend
