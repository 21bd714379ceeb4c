import CppMend.Text.Position

/-!
# Where lines start

The offsets at which the lines of a text start, in order. Who keeps them finds the line of an offset
by a search, and the text of a line without going through the lines before it.

* `lineStarts`   the offset of the start of each line;
* `lineOf`       the line that an offset is on, by the starts;
* `lineEnds?`    where a line starts, and where the next one does or the text ends.
-/

namespace CppMend

namespace Text

/-- the starts of the lines after the first one, where the text starts at an offset -/
def lineStartsFrom (offset : Nat) : Text → List Nat
  | [] => []
  | c :: cs =>
    let next := offset + c.utf8Size
    if c = '\n' then next :: lineStartsFrom next cs else lineStartsFrom next cs

def lineStarts (cs : Text) : List Nat := 0 :: lineStartsFrom 0 cs

/-- What a search in the starts comes to: the place of the offset itself or, if no line starts
there, the place before the one where it would have to be put in. -/
def lineOf (starts : List Nat) (offset : Nat) : Nat :=
  match starts.idxOf? offset with
  | some line => line
  | none => (starts.takeWhile (· < offset)).length - 1

def lineEnds? (starts : List Nat) (size line : Nat) : Option (Nat × Nat) :=
  starts[line]?.map fun start => (start, starts[line + 1]?.getD size)

/-- the text without the characters `c` at its end -/
def trimEnd (c : Char) (cs : Text) : Text := (cs.reverse.dropWhile (· = c)).reverse

end Text

end CppMend
