import CppMend.Grammar.Outline
import CppMend.Tree.Basic

/-!
# Trees from outlines

`Outline.place` puts the tokens of a text into an outline. The blanks and comments before a token
go where the token goes, unless a node starts, or a `blank` stands, between them and the token:
then they go before the node, or to the place of the `blank`.
-/

namespace CppMend

/-- The tokens that are still to be placed, and the offset of the first. -/
structure Feed where
  tokens : List Token
  offset : Nat
  deriving Repr, Inhabited

namespace Feed

/-- some tokens one after the other, from an offset on -/
def leaves (offset : Nat) : List Token → List Tree
  | [] => []
  | t :: ts => .leaf ⟨t.kind, t.text, offset⟩ :: leaves (offset + t.text.byteSize) ts

def width (ts : List Token) : Nat := Text.byteSize (ts.flatMap fun t => t.text)

/-- takes the blanks and comments that come first -/
def takeBlanks (f : Feed) : List Tree × Feed :=
  let blanks := f.tokens.takeWhile (·.isTrivia)
  (leaves f.offset blanks, ⟨f.tokens.dropWhile (·.isTrivia), f.offset + width blanks⟩)

/-- takes one token -/
def takeOne (f : Feed) : List Tree × Feed :=
  (leaves f.offset (f.tokens.take 1), ⟨f.tokens.drop 1, f.offset + width (f.tokens.take 1)⟩)

end Feed

namespace Outline

mutual

def place : Outline → Feed → List Tree × Feed
  | .token, f =>
    let (blanks, g) := f.takeBlanks
    let (taken, h) := g.takeOne
    (blanks ++ taken, h)
  | .blank, f => f.takeBlanks
  | .node kind parts, f =>
    let (blanks, g) := f.takeBlanks
    let (children, h) := placeAll parts g
    (blanks ++ [.node kind (Span.between g.offset h.offset) children], h)

def placeAll : List Outline → Feed → List Tree × Feed
  | [], f => ([], f)
  | o :: os, f =>
    let (trees, g) := o.place f
    let (more, h) := placeAll os g
    (trees ++ more, h)

end

end Outline

end CppMend
