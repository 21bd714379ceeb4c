import CppMend.Text.Bytes
import CppMend.Text.Span
import CppMend.Word

/-!
# Lines and columns

Editors point into a text by line and column, both counted from zero. A line ends before its line
feed, and columns count the units of the UTF-16 form: a character above `U+FFFF` has two. An editor's
numbers have 32 bits, so what is counted for it starts again at zero after the last of them.

* `units`              the number of UTF-16 units of a text;
* `lines`              the lines of a text, without their line feeds;
* `offsetOf?`          the byte offset of a position;
* `positionOf`         the position of a byte offset;
* `wordOffsetOf?`, `wordPositionOf`   both as they are counted in 32 bits.
-/

namespace CppMend

/-- A line and a column in UTF-16 units, from zero. -/
structure Position where
  line : Nat
  character : Nat
  deriving DecidableEq, Repr, Inhabited

/-- what 32 bits keep of a position -/
def Position.wrapped (p : Position) : Position := ⟨Word.wrapped p.line, Word.wrapped p.character⟩

/-- Two positions, in whichever order they were given. -/
structure PositionRange where
  start : Position
  stop : Position
  deriving DecidableEq, Repr, Inhabited

namespace Text

/-! ## units and lines -/

def unitSize (c : Char) : Nat := if c.toNat ≤ 0xffff then 1 else 2

def units : Text → Nat
  | [] => 0
  | c :: cs => unitSize c + units cs

/-- the shortest start of a text with at least `n` units, or all of it -/
def takeUnits : Nat → Text → Text
  | 0, _ => []
  | _ + 1, [] => []
  | n + 1, c :: cs => c :: takeUnits (n + 1 - unitSize c) cs

/-- The shortest start of a text after which a count of units has come to `n`, or all of it. The count
starts where it is and has 32 bits. -/
def countUnits (n : Nat) : Nat → Text → Text
  | _, [] => []
  | count, c :: cs =>
    if n ≤ count then [] else c :: countUnits n (Word.wrapped (count + unitSize c)) cs

/-- the lines of a text; there is one more than there are line feeds -/
def lines : Text → List Text
  | [] => [[]]
  | c :: cs =>
    if c = '\n' then [] :: lines cs
    else
      match lines cs with
      | [] => [[c]]
      | l :: ls => (c :: l) :: ls

def lineFeeds (cs : Text) : Nat := cs.count '\n'

/-- the text after its last line feed -/
def lastLine (cs : Text) : Text := (cs.reverse.takeWhile (· ≠ '\n')).reverse

/-- the text from the start of a line on -/
def dropLines : Nat → Text → Option Text
  | 0, cs => some cs
  | _ + 1, [] => none
  | n + 1, c :: cs => if c = '\n' then dropLines n cs else dropLines (n + 1) cs

/-! ## positions and offsets -/

/-- The offset of a position. A column past the end of its line, or inside a character, stands for
the next place of the line that can be reached; a line past the end has no offset. -/
def offsetOf? (cs : Text) (p : Position) : Option Nat :=
  (dropLines p.line cs).map fun rest =>
    byteSize cs - byteSize rest + byteSize (takeUnits p.character (rest.takeWhile (· ≠ '\n')))

/-- The position of an offset. An offset inside a character stands for its start, and one past the
end for the end. -/
def positionOf (cs : Text) (offset : Nat) : Position :=
  let front := before offset cs
  ⟨lineFeeds front, units (lastLine front)⟩

/-! ## in 32 bits -/

/-- the offset of a position, where the units up to its column are counted -/
def wordOffsetOf? (cs : Text) (p : Position) : Option Nat :=
  (dropLines p.line cs).map fun rest =>
    byteSize cs - byteSize rest + byteSize (countUnits p.character 0 (rest.takeWhile (· ≠ '\n')))

def wordPositionOf (cs : Text) (offset : Nat) : Position := (positionOf cs offset).wrapped

def rangeOf (cs : Text) (s : Span) : PositionRange :=
  ⟨wordPositionOf cs s.start, wordPositionOf cs s.stop⟩

/-- the stretch between two positions, which may be given in either order -/
def stretchOf? (cs : Text) (r : PositionRange) : Option Span :=
  match wordOffsetOf? cs r.start, wordOffsetOf? cs r.stop with
  | some a, some b => some (Span.between (min a b) (max a b))
  | _, _ => none

/-- the stretch as a span, of which the ends have 32 bits too -/
def spanOf? (cs : Text) (r : PositionRange) : Option Span :=
  (stretchOf? cs r).map fun s => Span.between (Word.clamped s.start) (Word.clamped s.stop)

end Text

end CppMend
